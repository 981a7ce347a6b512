import Mathlib.Data.List.Basic
import Mathlib.Data.List.Nodup

/-!
# Tables: lists of rows with a key

A table is a list of rows in insertion order. `get` is a lookup by key,
`modify` an UPDATE by key, and `Unique` the constraint that a key occurs at
most once. `modify` maps over the rows, so any column the update does not
touch is the same list before and after (`map_modify`).
-/
namespace Gestalt.Table

variable {α κ β : Type}

/-- No key occurs twice. -/
def Unique (key : α → κ) (l : List α) : Prop := (l.map key).Nodup

theorem Unique.eq {key : α → κ} {l : List α} (h : Unique key l) {r r' : α} (hr : r ∈ l)
    (hr' : r' ∈ l) (he : key r = key r') : r = r' :=
  List.inj_on_of_nodup_map h hr hr' he

theorem Unique.append_one {key : α → κ} {l : List α} (h : Unique key l) {r : α}
    (hr : ∀ r' ∈ l, key r' ≠ key r) : Unique key (l ++ [r]) := by
  unfold Unique
  rw [List.map_append, List.nodup_append]
  refine ⟨h, by simp, ?_⟩
  intro a ha b hb
  simp only [List.mem_map] at ha
  simp only [List.map_cons, List.map_nil, List.mem_singleton] at hb
  obtain ⟨r', hr', rfl⟩ := ha
  subst hb; exact hr r' hr'

theorem length_le_one {l : List α} (hn : l.Nodup) (h : ∀ a ∈ l, ∀ b ∈ l, a = b) : l.length ≤ 1 := by
  match l, hn, h with
  | [], _, _ => simp
  | [_], _, _ => simp
  | a :: b :: l, hn, h =>
    have hab := h a (by simp) b (by simp)
    subst hab
    simp at hn

/-- Rows that any two of which are equal: at most one is selected. -/
theorem filter_length_le_one {l : List α} (hn : l.Nodup) {P : α → Bool}
    (h : ∀ a ∈ l, ∀ b ∈ l, P a = true → P b = true → a = b) : (l.filter P).length ≤ 1 := by
  refine length_le_one (hn.filter P) ?_
  intro a ha b hb
  obtain ⟨ha, hpa⟩ := List.mem_filter.mp ha
  obtain ⟨hb, hpb⟩ := List.mem_filter.mp hb
  exact h a ha b hb hpa hpb

/-- Exactly one row is selected. -/
theorem filter_eq_singleton {l : List α} (hn : l.Nodup) {P : α → Bool} {a : α} (ha : a ∈ l)
    (hp : P a = true) (h : ∀ b ∈ l, P b = true → b = a) : l.filter P = [a] := by
  have hmem : a ∈ l.filter P := List.mem_filter.mpr ⟨ha, hp⟩
  have hlen : (l.filter P).length ≤ 1 :=
    filter_length_le_one hn fun b hb c hc hpb hpc => (h b hb hpb).trans (h c hc hpc).symm
  match hf : l.filter P, hmem, hlen with
  | [b], hmem, _ => rw [List.mem_singleton.mp hmem]
  | _ :: _ :: _, _, hlen => simp at hlen

theorem Unique.nodup {key : α → κ} {l : List α} (h : Unique key l) : l.Nodup := List.Nodup.of_map _ h

variable [DecidableEq κ]

/-- The first row with the key. -/
def get (key : α → κ) (l : List α) (k : κ) : Option α := l.find? fun r => key r = k

/-- UPDATE the rows with the key. -/
def modify (key : α → κ) (l : List α) (k : κ) (f : α → α) : List α :=
  l.map fun r => if key r = k then f r else r

variable {key : α → κ}

theorem get_some {l : List α} {k : κ} {r : α} (h : get key l k = some r) : r ∈ l ∧ key r = k :=
  ⟨List.mem_of_find?_eq_some h, by simpa using List.find?_some h⟩

theorem get_eq_none {l : List α} {k : κ} : get key l k = none ↔ ∀ r ∈ l, key r ≠ k := by
  simp [get, List.find?_eq_none]

theorem get_isSome {l : List α} {r : α} (h : r ∈ l) : ∃ r', get key l (key r) = some r' := by
  cases hg : get key l (key r) with
  | none => exact absurd rfl (get_eq_none.mp hg r h)
  | some r' => exact ⟨r', rfl⟩

theorem Unique.get {l : List α} (h : Unique key l) {r : α} (hr : r ∈ l) :
    Table.get key l (key r) = some r := by
  have hsome : ∃ r', Table.get key l (key r) = some r' := get_isSome hr
  obtain ⟨r', hg⟩ := hsome
  obtain ⟨hm, hk⟩ := get_some hg
  rw [hg, h.eq hm hr hk]

theorem mem_modify {l : List α} {k : κ} {f : α → α} {r' : α} :
    r' ∈ modify key l k f ↔ ∃ r ∈ l, r' = if key r = k then f r else r := by
  simp only [modify, List.mem_map]
  exact ⟨fun ⟨r, hr, he⟩ => ⟨r, hr, he.symm⟩, fun ⟨r, hr, he⟩ => ⟨r, hr, he.symm⟩⟩

/-- A column the update leaves alone is unchanged. -/
theorem map_modify {g : α → β} {l : List α} {k : κ} {f : α → α} (h : ∀ r, g (f r) = g r) :
    (modify key l k f).map g = l.map g := by
  simp only [modify, List.map_map]
  apply List.map_congr_left
  intro r _
  simp only [Function.comp]
  split
  · exact h r
  · rfl

/-- An update is known by what it does to the rows with the key. -/
theorem modify_congr {l : List α} {k : κ} {f g : α → α} (h : ∀ r ∈ l, key r = k → f r = g r) :
    modify key l k f = modify key l k g := by
  apply List.map_congr_left
  intro r hr
  split
  · exact h r hr ‹_›
  · rfl

theorem get_modify {l : List α} {k k' : κ} {f : α → α} (h : ∀ r, key (f r) = key r) :
    get key (modify key l k f) k' = if k' = k then (get key l k').map f else get key l k' := by
  induction l with
  | nil => simp [get, modify]
  | cons r l ih =>
    simp only [get, modify] at ih
    by_cases hr : key r = k
    · by_cases hk : k' = k
      · subst hk; simp [get, modify, hr, h]
      · have hr' : key r ≠ k' := fun e => hk (e.symm.trans hr)
        simpa [get, modify, hr, h, hk, hr', Ne.symm hk] using ih
    · by_cases hk : key r = k'
      · subst hk; simp [get, modify, hr]
      · simpa [get, modify, hr, hk] using ih

/-- INSERT a row with a new key. -/
theorem get_append {l : List α} {r : α} (h : get key l (key r) = none) (k : κ) :
    get key (l ++ [r]) k = if k = key r then some r else get key l k := by
  simp only [get, List.find?_append] at h ⊢
  split
  · rename_i hk
    subst hk
    simp [h]
  · rename_i hk
    have hnone : List.find? (fun r => decide (key r = k)) [r] = none := by
      simp [Ne.symm hk]
    rw [hnone, Option.or_none]

/-- A lookup by key and condition. -/
theorem Unique.find {l : List α} (h : Unique key l) {k : κ} {P : α → Bool} {r : α} :
    (l.find? fun r => decide (key r = k) && P r) = some r ↔
      Table.get key l k = some r ∧ P r = true := by
  constructor
  · intro hf
    have hm := List.mem_of_find?_eq_some hf
    have hp := List.find?_some hf
    simp only [Bool.and_eq_true, decide_eq_true_eq] at hp
    obtain ⟨rfl, hp⟩ := hp
    exact ⟨h.get hm, hp⟩
  · rintro ⟨hg, hp⟩
    obtain ⟨hm, hk⟩ := get_some hg
    cases hf : l.find? fun r => decide (key r = k) && P r with
    | none => simpa [hk, hp] using List.find?_eq_none.mp hf r hm
    | some r' =>
      have hm' := List.mem_of_find?_eq_some hf
      have hk' := List.find?_some hf
      simp only [Bool.and_eq_true, decide_eq_true_eq] at hk'
      rw [h.eq hm' hm (hk'.1.trans hk.symm)]

end Gestalt.Table
