import Mathlib.Data.List.Nodup
import Mathlib.Data.List.Perm.Basic
import Mathlib.Data.List.Sort
import Mathlib.Order.Basic

/-!
# Pages of a sorted query

A query that sorts rows by a key, newest first, may return rows with one key in any
order (`Sorts`), and in another order the next time. `Complete`: whatever the
orders, the pages `0`, `1`, ... of as many queries make up the rows. That holds if
and only if rows with one key are never on two pages (`complete_iff`). The pages are
in order in any case (`pages_sorted`).
-/
namespace Gestalt.Paging

variable {α κ : Type} [LinearOrder κ]

/-- `l` is an answer to the query for `rows`. -/
def Sorts (key : α → κ) (rows l : List α) : Prop :=
  l.Perm rows ∧ l.Pairwise fun a b => key b ≤ key a

/-- `LIMIT limit OFFSET k * limit` -/
def page (limit k : Nat) (l : List α) : List α := (l.drop (k * limit)).take limit

/-- How many rows come before those with the key `t`. -/
def newer (key : α → κ) (rows : List α) (t : κ) : Nat := rows.countP fun a => t < key a

def notOlder (key : α → κ) (rows : List α) (t : κ) : Nat := rows.countP fun a => t ≤ key a

/-- The first and the last row with a key are on one page. -/
def TiesOnOnePage (key : α → κ) (limit : Nat) (rows : List α) : Prop :=
  ∀ a ∈ rows, newer key rows (key a) / limit = (notOlder key rows (key a) - 1) / limit

/-- The pages, each of its own query. -/
def pages (limit n : Nat) (answer : Nat → List α) : List α :=
  (List.range n).flatMap fun k => page limit k (answer k)

/-- Pages up to the last row make up the rows, however each query orders them. -/
def Complete (key : α → κ) (limit : Nat) (rows : List α) : Prop :=
  ∀ answer : Nat → List α, (∀ k, Sorts key rows (answer k)) →
    ∀ n, rows.length ≤ n * limit → (pages limit n answer).Perm rows

variable {key : α → κ} {rows l l' : List α} {limit : Nat}

/-! ## Sorted lists -/

/-- A property that holds of everything before an element it holds of: it holds of the first so
many. -/
theorem lt_countP_iff {P : α → Bool} (h : l.Pairwise fun a b => P b = true → P a = true) {i : Nat}
    (hi : i < l.length) : i < l.countP P ↔ P l[i] = true := by
  induction l generalizing i with
  | nil => cases hi
  | cons a l ih =>
    obtain ⟨ha, hl⟩ := List.pairwise_cons.mp h
    cases hPa : P a with
    | true =>
      rw [List.countP_cons_of_pos hPa]
      cases i with
      | zero => simp [hPa]
      | succ i => simpa using ih hl (Nat.lt_of_succ_lt_succ hi)
    | false =>
      have hnone : ∀ b ∈ l, ¬ P b = true := fun b hb hPb => by simp [ha b hb hPb] at hPa
      rw [List.countP_cons_of_neg (by simp [hPa]), List.countP_eq_zero.mpr hnone]
      cases i with
      | zero => simp [hPa]
      | succ i => simpa using hnone _ (List.getElem_mem (Nat.lt_of_succ_lt_succ hi))

theorem Sorts.lt_newer (h : Sorts key rows l) {t : κ} {i : Nat} (hi : i < l.length) :
    i < newer key rows t ↔ t < key l[i] := by
  have hcount : newer key rows t = l.countP fun a => t < key a := (h.1.countP_eq _).symm
  rw [hcount, lt_countP_iff _ hi, decide_eq_true_eq]
  exact h.2.imp fun hab => by simpa using fun ht => lt_of_lt_of_le ht hab

theorem Sorts.lt_notOlder (h : Sorts key rows l) {t : κ} {i : Nat} (hi : i < l.length) :
    i < notOlder key rows t ↔ t ≤ key l[i] := by
  have hcount : notOlder key rows t = l.countP fun a => t ≤ key a := (h.1.countP_eq _).symm
  rw [hcount, lt_countP_iff _ hi, decide_eq_true_eq]
  exact h.2.imp fun hab => by simpa using fun ht => le_trans ht hab

/-- The keys come in one order, however the rows do. -/
theorem Sorts.keys (h : Sorts key rows l) (h' : Sorts key rows l') : l.map key = l'.map key := by
  have hsorted {m : List α} (hm : Sorts key rows m) : (m.map key).Pairwise fun s t => t ≤ s :=
    List.pairwise_map.mpr hm.2
  exact List.Perm.eq_of_pairwise (fun _ _ _ _ hab hba => le_antisymm hba hab) (hsorted h) (hsorted h')
    ((h.1.trans h'.1.symm).map key)

/-- Between different keys every answer is cut into the same rows. -/
theorem Sorts.take_perm (h : Sorts key rows l) (h' : Sorts key rows l') {m : Nat} (hm : m + 1 < l.length)
    (hne : key l[m] ≠ key l[m + 1]) : (l.take (m + 1)).Perm (l'.take (m + 1)) := by
  have hlen : l'.length = l.length := (h'.1.trans h.1.symm).length_eq
  have hkey {i : Nat} (hi : i < l.length) (hi' : i < l'.length) : key l[i] = key l'[i] := by
    have := congrArg (fun ks => ks[i]?) (h.keys h')
    simpa [hi, hlen] using this
  -- the rows before the cut are those newer than the row after it
  have hcut {m' : List α} (hs : Sorts key rows m') (hlen' : m'.length = l.length)
      (hk : key m'[m] = key l[m]) (hk' : key m'[m + 1] = key l[m + 1]) :
      m'.take (m + 1) = m'.filter fun a => key l[m + 1] < key a := by
    have hlt : key m'[m + 1] < key m'[m] := by
      refine lt_of_le_of_ne (List.pairwise_iff_getElem.mp hs.2 m (m + 1) (by omega) (by omega) (by omega)) ?_
      rw [hk, hk']
      exact hne.symm
    have hbefore : ∀ a ∈ m'.take (m + 1), key l[m + 1] < key a := by
      intro a ha
      obtain ⟨i, hi, rfl⟩ := List.mem_take_iff_getElem.mp ha
      rw [← hk']
      rcases Nat.lt_or_ge i m with him | him
      · exact lt_of_lt_of_le hlt (List.pairwise_iff_getElem.mp hs.2 i m _ _ him)
      · obtain rfl : i = m := by omega
        exact hlt
    have hafter : ∀ a ∈ m'.drop (m + 1), ¬ key l[m + 1] < key a := by
      intro a ha
      obtain ⟨i, hi, rfl⟩ := List.mem_drop_iff_getElem.mp ha
      rw [← hk', not_lt]
      rcases Nat.eq_zero_or_pos i with rfl | hpos
      · exact le_refl _
      · exact List.pairwise_iff_getElem.mp hs.2 (m + 1) (m + 1 + i) _ _ (by omega)
    conv_rhs => rw [← List.take_append_drop (m + 1) m']
    rw [List.filter_append, List.filter_eq_self.mpr (by simpa using hbefore),
      List.filter_eq_nil_iff.mpr (by simpa using hafter), List.append_nil]
  rw [hcut h rfl rfl rfl, hcut h' hlen (hkey _ _).symm (hkey _ _).symm]
  exact (h.1.trans h'.1.symm).filter _

/-! ## Pages -/

theorem pages_succ (n : Nat) (answer : Nat → List α) :
    pages limit (n + 1) answer = pages limit n answer ++ page limit n (answer n) := by
  simp [pages, List.range_succ, List.flatMap_append]

theorem take_succ_mul (n : Nat) : l.take ((n + 1) * limit) = l.take (n * limit) ++ page limit n l := by
  rw [Nat.succ_mul, List.take_add, page]

/-- The pages of one answer. -/
theorem pages_same (n : Nat) : pages limit n (fun _ => l) = l.take (n * limit) := by
  induction n with
  | zero => simp [pages]
  | succ n ih => rw [pages_succ, ih, take_succ_mul]

/-- **In order.** The pages are newest first, whatever the orders. -/
theorem pages_sorted {answer : Nat → List α} (h : ∀ k, Sorts key rows (answer k)) (n : Nat) :
    (pages limit n answer).Pairwise fun a b => key b ≤ key a := by
  have hkeys : (pages limit n answer).map key = (pages limit n fun _ => answer 0).map key := by
    induction n with
    | zero => rfl
    | succ n ih =>
      rw [pages_succ, pages_succ, List.map_append, List.map_append, ih]
      simp only [page, List.map_take, List.map_drop, (h n).keys (h 0)]
  have hsorted : ((pages limit n fun _ => answer 0).map key).Pairwise fun s t => t ≤ s := by
    rw [pages_same]
    exact List.pairwise_map.mpr ((h 0).2.sublist (List.take_sublist ..))
  rw [← hkeys] at hsorted
  exact List.pairwise_map.mp hsorted

/-- No tie lies across the start of a page. -/
theorem TiesOnOnePage.keys_ne (ht : TiesOnOnePage key limit rows) (h : Sorts key rows l) {k m : Nat}
    (hk : k * limit = m + 1) (hm : m + 1 < l.length) : key l[m] ≠ key l[m + 1] := by
  intro he
  have hpos : 0 < limit := Nat.pos_of_ne_zero fun h0 => by simp [h0] at hk
  have hnewer : newer key rows (key l[m + 1]) ≤ m := by
    have := (h.lt_newer (t := key l[m + 1]) (i := m) (by omega)).not
    simpa [he] using this
  have holder : m + 1 < notOlder key rows (key l[m + 1]) := (h.lt_notOlder hm).mpr le_rfl
  have heq := ht l[m + 1] (h.1.subset (List.getElem_mem hm))
  have hlow : newer key rows (key l[m + 1]) / limit < k := (Nat.div_lt_iff_lt_mul hpos).mpr (by omega)
  have hhigh : k ≤ (notOlder key rows (key l[m + 1]) - 1) / limit :=
    (Nat.le_div_iff_mul_le hpos).mpr (by omega)
  omega

theorem TiesOnOnePage.take_perm (ht : TiesOnOnePage key limit rows) (h : Sorts key rows l)
    (h' : Sorts key rows l') (k : Nat) : (l.take (k * limit)).Perm (l'.take (k * limit)) := by
  rcases Nat.lt_or_ge (k * limit) l.length with hlt | hge
  · cases hk : k * limit with
    | zero => simp
    | succ m =>
      rw [hk] at hlt
      exact h.take_perm h' hlt (ht.keys_ne h hk hlt)
  · have hperm := h.1.trans h'.1.symm
    rw [List.take_of_length_le hge, List.take_of_length_le (hperm.length_eq ▸ hge)]
    exact hperm

theorem TiesOnOnePage.page_perm (ht : TiesOnOnePage key limit rows) (h : Sorts key rows l)
    (h' : Sorts key rows l') (k : Nat) : (page limit k l).Perm (page limit k l') := by
  have hnext := ht.take_perm h h' (k + 1)
  rw [take_succ_mul, take_succ_mul] at hnext
  exact (List.perm_append_left_iff _).mp
    (((ht.take_perm h h' k).symm.append_right _).trans hnext)

theorem complete_of_ties (ht : TiesOnOnePage key limit rows) : Complete key limit rows := by
  intro answer h n hn
  have hperm : (pages limit n answer).Perm (pages limit n fun _ => answer 0) :=
    List.Perm.flatMap_left _ fun k _ => ht.page_perm (h k) (h 0) k
  rw [pages_same, List.take_of_length_le ((h 0).1.length_eq ▸ hn)] at hperm
  exact hperm.trans (h 0).1

/-! ## A tie on two pages -/

theorem exists_sorts (key : α → κ) (rows : List α) : ∃ l, Sorts key rows l := by
  refine ⟨rows.mergeSort fun a b => key b ≤ key a, List.mergeSort_perm .., ?_⟩
  have hsorted : (rows.mergeSort fun a b => decide (key b ≤ key a)).Pairwise
      fun a b => decide (key b ≤ key a) = true := List.pairwise_mergeSort
    (fun a b c hab hbc => by
      simp only [decide_eq_true_eq] at *
      exact le_trans hbc hab)
    (fun a b => by simpa using le_total (key b) (key a)) rows
  exact hsorted.imp fun h => of_decide_eq_true h

theorem mem_page {k i : Nat} {a : α} (hi : i < limit) (ha : l[k * limit + i]? = some a) :
    a ∈ page limit k l := by
  refine List.mem_of_getElem? (i := i) ?_
  rw [page, List.getElem?_take_of_lt hi, List.getElem?_drop]
  exact ha

/-- Two rows that tie where a page starts: one of them can be on both pages. -/
theorem not_complete_of_tie {as bs : List α} {x y : α} (hn : rows.Nodup)
    (h : Sorts key rows (as ++ x :: y :: bs)) (htie : key x = key y) {k : Nat}
    (hk : (k + 1) * limit = as.length + 1) : ¬ Complete key limit rows := by
  have hpos : 0 < limit := Nat.pos_of_ne_zero fun h0 => by simp [h0] at hk
  have hswap : Sorts key rows (as ++ y :: x :: bs) := by
    refine ⟨(List.Perm.append_left as (.swap ..)).trans h.1, ?_⟩
    have hkeys : (as ++ y :: x :: bs).map key = (as ++ x :: y :: bs).map key := by simp [htie]
    have hsorted : ((as ++ x :: y :: bs).map key).Pairwise fun s t => t ≤ s := List.pairwise_map.mpr h.2
    rw [← hkeys] at hsorted
    exact List.pairwise_map.mp hsorted
  let answer (j : Nat) : List α := if j = k + 1 then as ++ y :: x :: bs else as ++ x :: y :: bs
  have hanswer : ∀ j, Sorts key rows (answer j) := by
    intro j
    simp only [answer]
    split
    · exact hswap
    · exact h
  have hlast : x ∈ page limit k (answer k) := by
    have hindex : k * limit + (limit - 1) = as.length := by
      rw [Nat.succ_mul] at hk
      omega
    refine mem_page (i := limit - 1) (by omega) ?_
    simp [answer, hindex]
  have hfirst : x ∈ page limit (k + 1) (answer (k + 1)) := by
    refine mem_page (i := 0) hpos ?_
    simp [answer, hk]
  intro hc
  let n := rows.length + (k + 2)
  have hle : rows.length ≤ n * limit :=
    (Nat.le_add_right _ _).trans (Nat.le_mul_of_pos_right n hpos)
  have hnodup := (hc answer hanswer n hle).nodup_iff.mpr hn
  have hdisjoint := (List.nodup_flatMap.mp hnodup).2
  have hk' := List.pairwise_iff_getElem.mp hdisjoint k (k + 1) (by simp [n]; omega) (by simp [n]; omega)
    (by omega)
  simp only [Function.onFun, List.getElem_range] at hk'
  exact hk' hlast hfirst

theorem ties_of_complete (hn : rows.Nodup) (hpos : 0 < limit) (hc : Complete key limit rows) :
    TiesOnOnePage key limit rows := by
  intro a ha
  by_contra hne
  obtain ⟨l, h⟩ := exists_sorts key rows
  generalize hat : key a = t at hne
  -- the row itself is among those not older
  have hlt : newer key rows t < notOlder key rows t := by
    obtain ⟨i, hi, hia⟩ := List.mem_iff_getElem.mp (h.1.symm.subset ha)
    have hnewer : ¬ i < newer key rows t := by
      rw [h.lt_newer hi, hia, hat]
      exact lt_irrefl _
    have holder : i < notOlder key rows t := by
      rw [h.lt_notOlder hi, hia, hat]
    omega
  have hle : notOlder key rows t ≤ l.length := by
    rw [h.1.length_eq]
    exact List.countP_le_length
  have hdiv : newer key rows t / limit < (notOlder key rows t - 1) / limit :=
    lt_of_le_of_ne (Nat.div_le_div_right (by omega)) hne
  obtain ⟨k, hk⟩ : ∃ k, (notOlder key rows t - 1) / limit = k + 1 :=
    Nat.exists_eq_succ_of_ne_zero (Nat.ne_of_gt (Nat.zero_lt_of_lt hdiv))
  have hlow : newer key rows t < (k + 1) * limit := by
    rw [← Nat.div_lt_iff_lt_mul hpos]
    omega
  have hhigh : (k + 1) * limit ≤ notOlder key rows t - 1 := by
    rw [← Nat.le_div_iff_mul_le hpos]
    omega
  obtain ⟨m, hm⟩ : ∃ m, (k + 1) * limit = m + 1 := Nat.exists_eq_succ_of_ne_zero (by omega)
  have hkey {i : Nat} (hi : i < l.length) (h1 : newer key rows t ≤ i) (h2 : i < notOlder key rows t) :
      key l[i] = t :=
    le_antisymm (not_lt.mp ((h.lt_newer hi).not.mp (by omega))) ((h.lt_notOlder hi).mp h2)
  have hsplit : l = l.take m ++ l[m] :: l[m + 1] :: l.drop (m + 2) := by
    rw [List.getElem_cons_drop, List.getElem_cons_drop, List.take_append_drop]
  have htie : key l[m] = key l[m + 1] := by
    rw [hkey (by omega) (by omega) (by omega), hkey (by omega) (by omega) (by omega)]
  rw [hsplit] at h
  refine not_complete_of_tie hn h htie (k := k) ?_ hc
  rw [hm, List.length_take]
  omega

/-- **Complete pages.** The pages make up the rows if and only if no tie lies on two pages. -/
theorem complete_iff (hn : rows.Nodup) (hpos : 0 < limit) :
    Complete key limit rows ↔ TiesOnOnePage key limit rows :=
  ⟨ties_of_complete hn hpos, complete_of_ties⟩

end Gestalt.Paging
