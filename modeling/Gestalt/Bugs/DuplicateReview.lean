import Gestalt.L5Consumers.Reviews

/-!
# Two reviews of one purchase

Status: open.

Behaviour: `create_review` looks for an eligibility document that is not
reviewed, inserts the review and sets the flag in three operations
(services/review-service/app/routers/reviews.py:37, :54, :57). Two requests of
one user for one product that both look before either has set the flag both
insert. So does a retry of a request that crashed, or lost its connection,
between the insert and the flag. `reviews` has no unique index
(services/review-service/app/db.py:10).

Documented: services/review-service/tests/test_review.py:42,
`test_review_gated_on_delivery_then_blocks_duplicate`: "Second attempt for the
same product: already reviewed"; the `reviewed` flag exists for nothing else.

Counterexample: `overlap`, and `retry` for the crash.

Fix: take the flag first with one `find_one_and_update` on `{_id, reviewed:
False}`, or a unique index on `(userId, productId)`.
-/
namespace Gestalt.Reviews

namespace System

/-- No two reviews of one user and product. -/
def NoDuplicates (s : System) : Prop := (s.store.reviews.map fun r => (r.userId, r.productId)).Nodup

instance (s : System) : Decidable s.NoDuplicates := inferInstanceAs (Decidable (List.Nodup _))

/-! ## The runs that go wrong -/

def fiveStars : ReviewIn := ⟨"P001", none, 5, "great", by decide, by decide⟩

/-- Two requests look before either inserts. -/
def overlap : List Lbl :=
  [.consume (.delivered firstOrder), .next 0 0, .request alice fiveStars, .request alice fiveStars,
    .next 1 1, .next 2 1, .next 1 2, .next 2 2, .next 1 3, .next 2 3]

/-- The first request crashes once it has inserted. -/
def retry : List Lbl :=
  [.consume (.delivered firstOrder), .next 0 0, .request alice fiveStars, .next 1 1, .next 1 2, .crash 1,
    .request alice fiveStars, .next 2 3, .next 2 4, .next 2 5]

/-- **Counterexample.** Two reviews of one purchase. -/
theorem duplicate_review : ¬ ∀ s, lts.Reachable s → s.NoDuplicates := by
  obtain ⟨s, hr, hs⟩ : ∃ s, lts.Reachable s ∧ decide (¬ s.NoDuplicates) = true :=
    LTS.reachable_of_exec overlap rfl (by decide +kernel)
  intro h
  exact of_decide_eq_true hs (h s hr)

example : (LTS.exec step start retry).any (fun s => decide (¬ s.NoDuplicates)) = true := by
  decide +kernel

/-! ## When there is one -/

end System

/-- What a request holds from its check to its flag: nothing if it has died
before the insert. -/
def Proc.holds (x : Proc) : Option String :=
  match x.task with
  | .create user body (.insert _) =>
    if x.alive then some (eligibilityId user body.productId) else none
  | .create user body (.flag _) => some (eligibilityId user body.productId)
  | _ => none

/-- It has inserted and not flagged. -/
def Proc.awaits (x : Proc) : Option String :=
  match x.task with
  | .create user body (.flag _) => some (eligibilityId user body.productId)
  | _ => none

theorem Proc.holds_of_awaits {x : Proc} {k : String} (h : x.awaits = some k) : x.holds = some k := by
  unfold Proc.awaits at h
  split at h
  · rename_i ht
    simpa [Proc.holds, ht] using h
  · cases h

theorem Proc.holds_of_crashed {x : Proc} {k : String}
    (h : ({ x with alive := false } : Proc).holds = some k) : x.holds = some k := by
  obtain ⟨t, alive⟩ := x
  cases t with
  | event e n => cases h
  | create user body pc =>
    cases pc with
    | find => cases h
    | insert e => cases h
    | flag doc => exact h
    | done answer => cases h

def Review.key (r : Review) : String := eligibilityId r.userId r.productId

namespace System

/-- A check succeeds only while no other request of the same user and product
is between its own check and its flag, or has died there after its insert. -/
def checksAlone (s : System) : Lbl → Bool
  | .next i _ =>
    match s.procs[i]? with
    | some ⟨.create user body .find, _⟩ =>
      let k := eligibilityId user body.productId
      (s.store.eligibility.findUnreviewed k).isNone || s.procs.all fun x => decide (x.holds ≠ some k)
    | _ => true
  | _ => true

def aloneLts : LTS System Lbl := lts.restrict fun s l => checksAlone s l = true

structure Inv (s : System) : Prop where
  alone : Procs.Sole Proc.holds s.procs
  present : ∀ x ∈ s.procs, ∀ k, x.holds = some k → ∃ b, s.store.eligibility.reviewed k = some b
  /-- before its insert there is no review -/
  fresh : ∀ x ∈ s.procs, ∀ k, x.holds = some k → x.awaits = none → ∀ r ∈ s.store.reviews, r.key ≠ k
  flagged : ∀ r ∈ s.store.reviews, (∃ x ∈ s.procs, x.awaits = some r.key) ∨
    s.store.eligibility.reviewed r.key = some true
  unique : (s.store.reviews.map Review.key).Nodup

theorem inv_start : start.Inv where
  alone := .nil
  present x hx := by cases hx
  fresh x hx := by cases hx
  flagged r hr := by cases hr
  unique := List.nodup_nil

/-- A process keeps what it held or lets go of it, and waits with its flag
until the flag is there. -/
theorem Inv.goOn {s s' : System} {i : Nat} {x x' : Proc} (hI : s.Inv) (hx : s.procs[i]? = some x)
    (hp : s'.procs = s.procs.set i x') (hr : s'.store.reviews = s.store.reviews)
    (hg : s.store.eligibility.Grows s'.store.eligibility)
    (hh : ∀ k, x'.holds = some k → x.holds = some k ∧ x'.awaits = x.awaits)
    (ha : ∀ k, x.awaits = some k →
      x'.awaits = some k ∨ s'.store.eligibility.reviewed k = some true) : s'.Inv := by
  have hmem : ∀ y ∈ s'.procs, y ∈ s.procs ∨ y = x' := by
    intro y hy
    rw [hp] at hy
    exact List.mem_or_eq_of_mem_set hy
  have hxm := List.mem_of_getElem? hx
  constructor
  · rw [hp]
    exact hI.alone.set hx fun k hk => .inl (hh k hk).1
  · intro y hy k hk
    have hold : ∃ b, s.store.eligibility.reviewed k = some b := by
      rcases hmem y hy with hy | rfl
      · exact hI.present y hy k hk
      · exact hI.present x hxm k (hh k hk).1
    obtain ⟨b, hb⟩ := hold
    obtain ⟨b', hb', -⟩ := hg k b hb
    exact ⟨b', hb'⟩
  · intro y hy k hk hn
    rw [hr]
    rcases hmem y hy with hy | rfl
    · exact hI.fresh y hy k hk hn
    · obtain ⟨hxk, he⟩ := hh k hk
      exact hI.fresh x hxm k hxk (he ▸ hn)
  · intro r hr'
    rw [hr] at hr'
    rcases hI.flagged r hr' with hw | hf
    · by_cases hxr : x.awaits = some r.key
      · refine (ha _ hxr).imp ?_ id
        intro hx'
        rw [hp]
        exact ⟨x', List.mem_of_getElem? (Procs.set_self hx), hx'⟩
      · rw [hp]
        exact .inl (Procs.holder_kept hx hxr hw)
    · obtain ⟨b', hb', ht⟩ := hg r.key true hf
      exact .inr (ht rfl ▸ hb')
  · rw [hr]
    exact hI.unique

theorem Inv.spawn {s : System} {x : Proc} (hI : s.Inv) (hh : x.holds = none) :
    ({ s with procs := s.procs ++ [x] } : System).Inv where
  alone := hI.alone.spawn hh
  present y hy k hk := by
    rcases List.mem_append.mp hy with hy | hy
    · exact hI.present y hy k hk
    · rw [List.mem_singleton.mp hy, hh] at hk
      cases hk
  fresh y hy k hk hn := by
    rcases List.mem_append.mp hy with hy | hy
    · exact hI.fresh y hy k hk hn
    · rw [List.mem_singleton.mp hy, hh] at hk
      cases hk
  flagged r hr := by
    refine (hI.flagged r hr).imp ?_ id
    rintro ⟨y, hy, ha⟩
    exact ⟨y, List.mem_append_left _ hy, ha⟩
  unique := hI.unique

/-- A request that nobody else holds the key of passes its check. -/
theorem Inv.check {s : System} {i : Nat} {x x' : Proc} {k : String} (hI : s.Inv)
    (hx : s.procs[i]? = some x) (hxn : x.awaits = none) (hh : x'.holds = some k)
    (hn : x'.awaits = none) (hk : s.store.eligibility.reviewed k = some false)
    (hfree : ∀ y ∈ s.procs, y.holds ≠ some k) :
    ({ s with procs := s.procs.set i x' } : System).Inv where
  alone := by
    refine hI.alone.set hx ?_
    intro k' hk'
    rw [hh, Option.some.injEq] at hk'
    subst hk'
    exact .inr hfree
  present y hy k' hk' := by
    rcases List.mem_or_eq_of_mem_set hy with hy | rfl
    · exact hI.present y hy k' hk'
    · rw [hh, Option.some.injEq] at hk'
      subst hk'
      exact ⟨false, hk⟩
  fresh y hy k' hk' hn' r hr := by
    rcases List.mem_or_eq_of_mem_set hy with hy | rfl
    · exact hI.fresh y hy k' hk' hn' r hr
    · rw [hh, Option.some.injEq] at hk'
      subst hk'
      intro he
      subst he
      -- a review there is either waiting for its flag, or flagged
      rcases hI.flagged r hr with ⟨z, hz, ha⟩ | hf
      · exact hfree z hz (Proc.holds_of_awaits ha)
      · rw [hk] at hf
        cases hf
  flagged r hr := by
    refine (hI.flagged r hr).imp ?_ id
    exact Procs.holder_kept hx (by rw [hxn]; simp)
  unique := hI.unique

/-- A request inserts its review. -/
theorem Inv.insert {s : System} {i : Nat} {x x' : Proc} {k : String} {doc : Review} (hI : s.Inv)
    (hx : s.procs[i]? = some x) (hxk : x.holds = some k) (hxn : x.awaits = none)
    (ha : x'.awaits = some k) (hd : doc.key = k) :
    (⟨{ s.store with reviews := s.store.reviews ++ [doc] }, s.procs.set i x'⟩ : System).Inv := by
  have hxm := List.mem_of_getElem? hx
  have hh : x'.holds = some k := Proc.holds_of_awaits ha
  have hsole : Procs.Sole Proc.holds (s.procs.set i x') := by
    refine hI.alone.set hx ?_
    intro k' hk'
    rw [hh, Option.some.injEq] at hk'
    exact .inl (hk' ▸ hxk)
  constructor
  · exact hsole
  · intro y hy k' hk'
    rcases List.mem_or_eq_of_mem_set hy with hy | rfl
    · exact hI.present y hy k' hk'
    · rw [hh, Option.some.injEq] at hk'
      exact hI.present x hxm k' (hk' ▸ hxk)
  · intro y hy k' hk' hn r hr
    rcases List.mem_append.mp hr with hr | hr
    · rcases List.mem_or_eq_of_mem_set hy with hy | rfl
      · exact hI.fresh y hy k' hk' hn r hr
      · rw [ha] at hn
        cases hn
    · obtain rfl := List.mem_singleton.mp hr
      intro he
      -- only this request holds the key, and it has inserted
      obtain ⟨j, hj⟩ := List.mem_iff_getElem?.mp hy
      have hij := hsole i j x' y k (Procs.set_self hx) hj hh (hk'.trans (congrArg some (he.symm.trans hd)))
      subst hij
      rw [Procs.set_self hx, Option.some.injEq] at hj
      subst hj
      rw [ha] at hn
      cases hn
  · intro r hr
    rcases List.mem_append.mp hr with hr | hr
    · refine (hI.flagged r hr).imp ?_ id
      exact Procs.holder_kept hx (by rw [hxn]; simp)
    · obtain rfl := List.mem_singleton.mp hr
      exact .inl ⟨x', List.mem_of_getElem? (Procs.set_self hx), hd ▸ ha⟩
  · rw [List.map_append, List.map_singleton]
    refine List.Nodup.append hI.unique (List.nodup_singleton _) ?_
    intro k' hk' hs
    obtain ⟨r, hr, rfl⟩ := List.mem_map.mp hk'
    exact hI.fresh x hxm k hxk hxn r hr ((List.mem_singleton.mp hs).trans hd)

theorem inv_step {s s' : System} {l : Lbl} (hI : s.Inv) (h : step s l = some s')
    (hG : checksAlone s l = true) : s'.Inv := by
  cases steps_of_step h with
  | spawn t ht =>
    refine hI.spawn ?_
    rcases ht with ⟨user, body, rfl⟩ | ⟨e, rfl⟩ <;> rfl
  | ignore e => exact hI
  | @crash i x hx =>
    refine hI.goOn hx rfl rfl (fun k b hk => ⟨b, hk, id⟩) ?_ fun k hk => .inl hk
    exact fun k hk => ⟨Proc.holds_of_crashed hk, rfl⟩
  | @next i now x s₁ t' hx ha hm =>
    obtain ⟨t, alive⟩ := x
    simp only at ha hm
    subst ha
    have hsame : s.store.eligibility.Grows s.store.eligibility := fun k b hk => ⟨b, hk, id⟩
    cases hm with
    | refuse => exact hI.goOn hx rfl rfl hsame (by simp [Proc.holds]) (by simp [Proc.awaits])
    | @check user body e he hr =>
      have hk : s.store.eligibility.reviewed (eligibilityId user body.productId) = some false := by
        simp [Collection.reviewed, he, hr]
      refine hI.check hx rfl rfl rfl hk ?_
      have hf := (Collection.findUnreviewed_eq ..).mpr ⟨he, hr⟩
      simpa [checksAlone, hx, hf] using hG
    | @insert user body e doc hu hp ho =>
      refine hI.insert hx rfl rfl rfl ?_
      rw [Review.key, hu, hp]
    | @flag user body doc =>
      refine hI.goOn hx rfl rfl (Collection.grows_setReviewed _ _) (by simp [Proc.holds]) ?_
      intro k hk
      obtain ⟨b, hb⟩ := hI.present _ (List.mem_of_getElem? hx) k (Proc.holds_of_awaits hk)
      simp only [Proc.awaits, Option.some.injEq] at hk
      subst hk
      right
      rw [Collection.reviewed_setReviewed, if_pos rfl, hb]
      rfl
    | @upsert e n p hp =>
      exact hI.goOn hx rfl rfl (Collection.grows_upsert _ _ _ _) (by simp [Proc.holds])
        (by simp [Proc.awaits])

/-- **One review.** In every run whose checks are alone, no two reviews are of
one user and product. -/
theorem one_review {s : System} (h : aloneLts.Reachable s) : s.NoDuplicates := by
  have hI : s.Inv := by
    refine LTS.reachable_induct ?_ ?_ h
    · rintro s rfl
      exact inv_start
    · intro s l s' _ hI hs
      exact inv_step hI hs.1 hs.2
  have hkeys : ((s.store.reviews.map fun r => (r.userId, r.productId)).map
      fun q => eligibilityId q.1 q.2).Nodup := by
    rw [List.map_map]
    exact hI.unique
  exact hkeys.of_map

/-- One request after the other, and a redelivery between them. -/
def oneAfterTheOther : List Lbl :=
  [.consume (.delivered firstOrder), .next 0 0, .request alice fiveStars, .next 1 1, .next 1 2,
    .consume (.delivered firstOrder), .next 2 2, .next 1 3, .request alice fiveStars, .next 3 4]

theorem one_review_redelivered : ∃ s, aloneLts.Reachable s ∧ s.store.reviews.length = 1 ∧
    s.NoDuplicates := by
  obtain ⟨s, hr, hs⟩ : ∃ s, aloneLts.Reachable s ∧ decide (s.store.reviews.length = 1) = true :=
    LTS.reachable_of_execG oneAfterTheOther rfl (by decide +kernel)
  exact ⟨s, hr, of_decide_eq_true hs, one_review hr⟩

end System
end Gestalt.Reviews
