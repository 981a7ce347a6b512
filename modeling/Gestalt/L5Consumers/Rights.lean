import Gestalt.L5Consumers.Reviews

/-!
# Who may write a review

The `eligibility` collection against the events that have been handled and the reviews that
have been stored. In every run (`rights`):

* an event has left a document for each product it has got through, and there is no other
  document;
* a review is of a user and a product with a document;
* a document says `reviewed` only if a review of its user and product has been stored.
-/
namespace Gestalt.Reviews

variable {s s' : Store} {t t' : Task}

/-- There is a document with the id. -/
def Collection.Has (c : Collection) (id : String) : Prop := ∃ b, c.reviewed id = some b

theorem Collection.Grows.has {c c' : Collection} (h : c.Grows c') {id : String} (hid : c.Has id) :
    c'.Has id := by
  obtain ⟨b, hb⟩ := hid
  obtain ⟨b', hb', -⟩ := h id b hb
  exact ⟨b', hb'⟩

theorem Collection.has_upsert {c : Collection} {id k orderId : String} {deliveredAt : Option String} :
    (c.upsert id orderId deliveredAt).Has k ↔ k = id ∨ c.Has k := by
  unfold Has
  rw [Collection.reviewed_upsert, Upsert.touch, Function.update_apply]
  split
  · rename_i hk
    exact ⟨fun _ => .inl hk, fun _ => ⟨_, rfl⟩⟩
  · rename_i hk
    exact ⟨.inr, fun h => h.resolve_left hk⟩

/-- What one operation does to the collections. -/
theorem System.Moves.grows (h : System.Moves s t s' t') :
    s.eligibility.Grows s'.eligibility ∧ ∀ r ∈ s.reviews, r ∈ s'.reviews := by
  have hsame : s.eligibility.Grows s.eligibility := fun _ b hb => ⟨b, hb, id⟩
  cases h with
  | refuse => exact ⟨hsame, fun _ hr => hr⟩
  | check => exact ⟨hsame, fun _ hr => hr⟩
  | insert => exact ⟨hsame, fun _ hr => List.mem_append_left _ hr⟩
  | flag => exact ⟨Collection.grows_setReviewed _ _, fun _ hr => hr⟩
  | upsert => exact ⟨Collection.grows_upsert _ _ _ _, fun _ hr => hr⟩

/-- What a process has found or written. -/
def Task.Ok (s : Store) : Task → Prop
  | .event e n => ∀ id ∈ e.keys.take n, s.eligibility.Has id
  | .create user body (.insert _) => s.eligibility.Has (eligibilityId user body.productId)
  | .create user body (.flag doc) => doc ∈ s.reviews ∧ doc.userId = user ∧ doc.productId = body.productId
  | .create _ _ _ => True

theorem Task.Ok.mono (h : t.Ok s) (hg : s.eligibility.Grows s'.eligibility)
    (hr : ∀ r ∈ s.reviews, r ∈ s'.reviews) : t.Ok s' := by
  match t, h with
  | .event e n, h => exact fun id hid => hg.has (h id hid)
  | .create user body (.insert _), h => exact hg.has h
  | .create user body (.flag doc), ⟨hdoc, hrest⟩ => exact ⟨hr doc hdoc, hrest⟩
  | .create _ _ .find, _ => trivial
  | .create _ _ (.done _), _ => trivial

/-- The id of the document an event's next operation writes. -/
theorem Delivered.keys_take {e : Delivered} {n : Nat} {p : String} (h : e.productIds[n]? = some p) :
    e.keys.take (n + 1) = e.keys.take n ++ [eligibilityId e.userId p] := by
  rw [List.take_add_one, Delivered.keys, List.getElem?_map, h]
  rfl

theorem System.Moves.ok (h : System.Moves s t s' t') (ht : t.Ok s) : t'.Ok s' := by
  cases h with
  | refuse => trivial
  | @check user body e he hr => exact ⟨e.reviewed, by rw [Collection.reviewed, he]; rfl⟩
  | insert hu hp ho => exact ⟨List.mem_append_right _ (List.mem_singleton_self _), hu, hp⟩
  | flag => trivial
  | @upsert e n p hp =>
    intro id hid
    rw [e.keys_take hp] at hid
    refine Collection.has_upsert.mpr ?_
    rcases List.mem_append.mp hid with hid | hid
    · exact .inr (ht id hid)
    · exact .inl (List.mem_singleton.mp hid)

namespace System

variable {s s' : System}

/-- An event stays on record, and gets further. -/
theorem event_kept {l : Lbl} (h : Steps s l s') {k : Nat} {x : Proc} {e : Delivered} {n : Nat}
    (hx : s.procs[k]? = some x) (ht : x.task = .event e n) :
    ∃ x' n', s'.procs[k]? = some x' ∧ n ≤ n' ∧ x'.task = .event e n' := by
  -- the process `i` that changes
  have hset : ∀ {i : Nat} {y y' : Proc}, s.procs[i]? = some y →
      (y.task = .event e n → ∃ n', n ≤ n' ∧ y'.task = .event e n') →
      ∃ x' n', (s.procs.set i y')[k]? = some x' ∧ n ≤ n' ∧ x'.task = .event e n' := by
    intro i y y' hi hy
    by_cases hk : i = k
    · subst hk
      obtain rfl : x = y := Option.some.inj (hx.symm.trans hi)
      obtain ⟨n', hn, ht'⟩ := hy ht
      exact ⟨y', n', Procs.set_self hi, hn, ht'⟩
    · exact ⟨x, n, by rw [List.getElem?_set_ne hk]; exact hx, Nat.le_refl n, ht⟩
  cases h with
  | spawn t => exact ⟨x, n, Procs.spawn_old hx, Nat.le_refl n, ht⟩
  | ignore => exact ⟨x, n, hx, Nat.le_refl n, ht⟩
  | crash hi => exact hset hi fun hy => ⟨n, Nat.le_refl n, hy⟩
  | @next i now y s₁ t' hi ha hm =>
    refine hset hi fun hy => ?_
    rw [hy] at hm
    cases hm with
    | upsert hp => exact ⟨n + 1, Nat.le_succ n, rfl⟩

/-- A step adds to the collections only. -/
theorem Steps.grows {l : Lbl} (h : Steps s l s') :
    s.store.eligibility.Grows s'.store.eligibility ∧ ∀ r ∈ s.store.reviews, r ∈ s'.store.reviews := by
  cases h with
  | next hx ha hm => exact hm.grows
  | _ => exact ⟨fun _ b hb => ⟨b, hb, id⟩, fun _ hr => hr⟩

/-- Some event of the user has got through the product. -/
def Handled (s : System) (id : String) : Prop :=
  ∃ (k : Nat) (x : Proc) (e : Delivered) (n : Nat), s.procs[k]? = some x ∧ x.task = .event e n ∧ id ∈ e.keys.take n

theorem Handled.step {l : Lbl} {id : String} (hid : s.Handled id) (h : Steps s l s') : s'.Handled id := by
  obtain ⟨k, x, e, n, hx, ht, hmem⟩ := hid
  obtain ⟨x', n', hx', hn, ht'⟩ := event_kept h hx ht
  exact ⟨k, x', e, n', hx', ht', List.take_subset_take_left _ hn hmem⟩

/-- The invariant. -/
structure Rights (s : System) : Prop where
  procs : ∀ x ∈ s.procs, x.task.Ok s.store
  documents : ∀ id, s.store.eligibility.Has id → s.Handled id
  stored : ∀ r ∈ s.store.reviews, s.store.eligibility.Has (eligibilityId r.userId r.productId)
  flagged : ∀ id, s.store.eligibility.reviewed id = some true →
    ∃ r ∈ s.store.reviews, id = eligibilityId r.userId r.productId

/-- One operation of process `i`. -/
theorem Rights.next (hI : s.Rights) {i : Nat} {x : Proc} {st : Store} {t' : Task}
    (hx : s.procs[i]? = some x) (hm : Moves s.store x.task st t')
    (hkept : ∀ id, s.Handled id → Handled ⟨st, s.procs.set i { x with task := t' }⟩ id) :
    Rights ⟨st, s.procs.set i { x with task := t' }⟩ := by
  have hok := hI.procs x (List.mem_of_getElem? hx)
  obtain ⟨hg, hr⟩ := hm.grows
  have hprocs : ∀ y ∈ s.procs.set i { x with task := t' }, y.task.Ok st := by
    intro y hy
    rcases List.mem_or_eq_of_mem_set hy with hy | rfl
    · exact (hI.procs y hy).mono hg hr
    · exact hm.ok hok
  have hstored : ∀ r ∈ s.store.reviews, st.eligibility.Has (eligibilityId r.userId r.productId) :=
    fun r hmem => hg.has (hI.stored r hmem)
  obtain ⟨task, alive⟩ := x
  simp only at hm hok
  cases hm with
  | refuse => exact ⟨hprocs, fun id hid => hkept id (hI.documents id hid), hstored, hI.flagged⟩
  | check => exact ⟨hprocs, fun id hid => hkept id (hI.documents id hid), hstored, hI.flagged⟩
  | @insert user body e doc hu hp ho =>
    refine ⟨hprocs, fun id hid => hkept id (hI.documents id hid), fun r hmem => ?_, fun id hid => ?_⟩
    · rcases List.mem_append.mp hmem with hmem | hmem
      · exact hstored r hmem
      · obtain rfl := List.mem_singleton.mp hmem
        rw [hu, hp]
        exact hok
    · obtain ⟨r, hmem, he⟩ := hI.flagged id hid
      exact ⟨r, List.mem_append_left _ hmem, he⟩
  | @flag user body doc =>
    obtain ⟨hdoc, hu, hp⟩ := hok
    refine ⟨hprocs, fun id hid => hkept id (hI.documents id ?_), hstored, fun id hid => ?_⟩
    · obtain ⟨b, hb⟩ := hid
      rw [Collection.reviewed_setReviewed] at hb
      split at hb
      · rename_i hk
        obtain ⟨b', hb', -⟩ := Option.map_eq_some_iff.mp hb
        exact ⟨b', hk ▸ hb'⟩
      · exact ⟨b, hb⟩
    · rw [Collection.reviewed_setReviewed] at hid
      split at hid
      · rename_i hk
        exact ⟨doc, hdoc, by rw [hk, hu, hp]⟩
      · exact hI.flagged id hid
  | @upsert e n p hp =>
    refine ⟨hprocs, fun id hid => ?_, hstored, fun id hid => ?_⟩
    · rcases Collection.has_upsert.mp hid with rfl | hid
      · refine ⟨i, _, e, n + 1, Procs.set_self hx, rfl, ?_⟩
        rw [e.keys_take hp]
        exact List.mem_append_right _ (List.mem_singleton_self _)
      · exact hkept id (hI.documents id hid)
    · -- an upsert sets no flag
      refine hI.flagged id ?_
      rw [Delivered.pass, Collection.reviewed_upsert, Upsert.touch, Function.update_apply] at hid
      split at hid
      · rename_i hk
        subst hk
        cases hb : s.store.eligibility.reviewed (eligibilityId e.userId p) with
        | none =>
          rw [hb] at hid
          cases hid
        | some b =>
          rw [hb] at hid
          exact hid
      · exact hid

theorem rights_step {l : Lbl} (hI : s.Rights) (h : step s l = some s') : s'.Rights := by
  have hst := steps_of_step h
  have hkept : ∀ id, s.Handled id → s'.Handled id := fun id hid => hid.step hst
  cases hst with
  | spawn t ht =>
    refine ⟨fun x hx => ?_, fun id hid => hkept id (hI.documents id hid), hI.stored, hI.flagged⟩
    rcases List.mem_append.mp hx with hx | hx
    · exact hI.procs x hx
    · obtain rfl := List.mem_singleton.mp hx
      rcases ht with ⟨user, body, rfl⟩ | ⟨e, rfl⟩
      · trivial
      · intro id hid
        rw [List.take_zero] at hid
        cases hid
  | ignore e => exact hI
  | @crash i x hx =>
    refine ⟨fun y hy => ?_, fun id hid => hkept id (hI.documents id hid), hI.stored, hI.flagged⟩
    rcases List.mem_or_eq_of_mem_set hy with hy | rfl
    · exact hI.procs y hy
    · exact hI.procs x (List.mem_of_getElem? hx)
  | next hx ha hm => exact hI.next hx hm hkept

theorem rights (h : lts.Reachable s) : s.Rights := by
  refine LTS.reachable_induct ?_ ?_ h
  · rintro s rfl
    refine ⟨fun x hx => ?_, fun id hid => ?_, fun r hr => ?_, fun id hid => ?_⟩
    · cases hx
    · obtain ⟨b, hb⟩ := hid
      cases hb
    · cases hr
    · cases hid
  · intro s l s' _ hI hst
    exact rights_step hI hst

end System
end Gestalt.Reviews
