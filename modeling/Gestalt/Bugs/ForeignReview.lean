import Gestalt.L5Consumers.Reviews

/-!
# A review of somebody else's order

Status: open.

Behaviour: `create_review` checks that the user has an eligibility document for
the product, and then stores `body.orderId or eligibility["orderId"]`
(services/review-service/app/routers/reviews.py:49). The order id in the body
is compared with nothing: any text is stored as the order the review is about.

Documented: the answer to a refused review,
services/review-service/app/routers/reviews.py:41, "You can only review products
from your own delivered orders"; the eligibility document keeps the `orderId`
of the delivery for this purpose, and is what is stored when the body has none.

Counterexample: `borrowed`. Alice's order O1 has been delivered; her review of
its product names the order O9.

Fix: store `eligibility["orderId"]`, or refuse a body with a different order id.
-/
namespace Gestalt.Reviews

/-- A `handle_event` that has got through product `p` of a delivered order. -/
def Task.attests (user : UserId) (p order : String) : Task → Prop
  | .event e n => e.userId = user ∧ e.orderId = order ∧ p ∈ e.productIds.take n
  | .create .. => False

instance (user : UserId) (p order : String) (t : Task) : Decidable (t.attests user p order) :=
  match t with
  | .event _ _ => inferInstanceAs (Decidable (_ ∧ _))
  | .create .. => inferInstanceAs (Decidable False)

namespace System

/-- Some `order.delivered` event of the user has the order and the product, and
has been processed that far. -/
def Attested (s : System) (user : UserId) (p order : String) : Prop :=
  ∃ x ∈ s.procs, x.task.attests user p order

instance (s : System) (user : UserId) (p order : String) : Decidable (s.Attested user p order) :=
  inferInstanceAs (Decidable (∃ x ∈ s.procs, _))

/-- Every review is of a delivered order of its user, with its product. -/
def Provenance (s : System) : Prop :=
  ∀ r ∈ s.store.reviews, s.Attested r.userId r.productId r.orderId

instance (s : System) : Decidable s.Provenance := inferInstanceAs (Decidable (∀ r ∈ _, _))

/-! ## The run that goes wrong -/

def namesO9 : ReviewIn := ⟨"P001", some "O9", 2, "never arrived", by decide, by decide⟩

def borrowed : List Lbl :=
  [.consume (.delivered firstOrder), .next 0 0, .next 0 0, .next 0 0, .request alice namesO9, .next 1 1,
    .next 1 2, .next 1 3]

/-- **Counterexample.** The review is of an order nobody has delivered. -/
theorem foreign_order_review : ¬ ∀ s, lts.Reachable s → s.Provenance := by
  obtain ⟨s, hr, hs⟩ : ∃ s, lts.Reachable s ∧ decide (¬ s.Provenance) = true :=
    LTS.reachable_of_exec borrowed rfl (by decide +kernel)
  intro h
  exact of_decide_eq_true hs (h s hr)

/-! ## When the order is the user's own -/

/-- The body names no order, or one that has been delivered to the user with
the product. -/
def namesOwn (s : System) (user : UserId) (body : ReviewIn) : Bool :=
  match body.orderId with
  | none => true
  | some o => decide (o = "") || decide (s.Attested user body.productId o)

def ownOrders (s : System) : Lbl → Bool
  | .next i _ =>
    match s.procs[i]? with
    | some ⟨.create user body (.insert _), _⟩ => s.namesOwn user body
    | _ => true
  | _ => true

def ownLts : LTS System Lbl := lts.restrict fun s l => ownOrders s l = true

structure Traced (s : System) : Prop where
  docs : ∀ id e, s.store.eligibility.get id = some e →
    ∃ user p, id = eligibilityId user p ∧ s.Attested user p e.orderId
  checked : ∀ x ∈ s.procs, ∀ user body e, x.task = .create user body (.insert e) →
    s.Attested user body.productId e.orderId
  reviews : s.Provenance

/-- What has been processed stays processed. -/
theorem attested_step {s s' : System} {l : Lbl} {user : UserId} {p order : String}
    (h : Steps s l s') (ha : s.Attested user p order) : s'.Attested user p order := by
  obtain ⟨y, hy, hat⟩ := ha
  obtain ⟨j, hj⟩ := List.mem_iff_getElem?.mp hy
  -- a process that changes attests what it attested
  have hset : ∀ {i : Nat} {x x' : Proc}, s.procs[i]? = some x →
      (x.task.attests user p order → x'.task.attests user p order) →
      ∃ z ∈ s.procs.set i x', z.task.attests user p order := by
    intro i x x' hx hxx
    by_cases hij : i = j
    · subst hij
      rw [hx, Option.some.injEq] at hj
      subst hj
      exact ⟨x', List.mem_of_getElem? (Procs.set_self hx), hxx hat⟩
    · refine ⟨y, List.mem_of_getElem? (i := j) ?_, hat⟩
      rw [List.getElem?_set_ne hij]
      exact hj
  cases h with
  | spawn t ht => exact ⟨y, List.mem_append_left _ hy, hat⟩
  | ignore e => exact ⟨y, hy, hat⟩
  | crash hx => exact hset hx id
  | @next i now x s₁ t' hx ha hm =>
    refine hset hx ?_
    obtain ⟨t, alive⟩ := x
    simp only at hm
    cases hm with
    | @upsert e n q hq =>
      rintro ⟨hu, ho, hp⟩
      exact ⟨hu, ho, List.take_subset_take_left _ (Nat.le_succ n) hp⟩
    | refuse => exact False.elim
    | check => exact False.elim
    | insert => exact False.elim
    | flag => exact False.elim

/-- The product at index `n` is among the first `n + 1`. -/
theorem mem_take_succ {ps : List String} {n : Nat} {p : String} (h : ps[n]? = some p) :
    p ∈ ps.take (n + 1) := by
  rw [List.take_add_one, h]
  simp

/-- The documents after an operation of process `i`. -/
theorem docs_step {s : System} {i : Nat} {x : Proc} {s₁ : Store} {t' : Task} (hT : s.Traced)
    (hx : s.procs[i]? = some x) (hm : Moves s.store x.task s₁ t')
    (hkeep : ∀ user p o, s.Attested user p o →
      System.Attested ⟨s₁, s.procs.set i { x with task := t' }⟩ user p o) :
    ∀ id e, s₁.eligibility.get id = some e → ∃ user p, id = eligibilityId user p ∧
      System.Attested ⟨s₁, s.procs.set i { x with task := t' }⟩ user p e.orderId := by
  have hold : ∀ id e, s.store.eligibility.get id = some e → ∃ user p, id = eligibilityId user p ∧
      System.Attested ⟨s₁, s.procs.set i { x with task := t' }⟩ user p e.orderId := by
    intro id e he
    obtain ⟨user, p, hid, ha⟩ := hT.docs id e he
    exact ⟨user, p, hid, hkeep _ _ _ ha⟩
  obtain ⟨t, alive⟩ := x
  simp only at hm
  cases hm with
  | refuse => exact hold
  | check he hr => exact hold
  | insert hu hp ho => exact hold
  | @flag user body doc =>
    intro id e he
    rw [Collection.get_setReviewed] at he
    split at he
    · rename_i hid
      subst hid
      obtain ⟨e₀, he₀, rfl⟩ := Option.map_eq_some_iff.mp he
      exact hold _ e₀ he₀
    · exact hold id e he
  | @upsert e n p hp =>
    intro id e' he
    simp only [Delivered.pass, Collection.get_upsert] at he
    split at he
    · rename_i hid
      simp only [Option.some.injEq] at he
      subst hid he
      exact ⟨e.userId, p, rfl, _, List.mem_of_getElem? (Procs.set_self hx), rfl, rfl, mem_take_succ hp⟩
    · exact hold id e' he

/-- What a request has checked, after a process has changed. -/
theorem checked_set {s s' : System} {i : Nat} {x' : Proc} (hT : s.Traced)
    (hp : s'.procs = s.procs.set i x')
    (hkeep : ∀ user p o, s.Attested user p o → s'.Attested user p o)
    (hx' : ∀ user body e, x'.task = .create user body (.insert e) →
      s'.Attested user body.productId e.orderId) :
    ∀ y ∈ s'.procs, ∀ user body e, y.task = .create user body (.insert e) →
      s'.Attested user body.productId e.orderId := by
  intro y hy user body e hte
  rw [hp] at hy
  rcases List.mem_or_eq_of_mem_set hy with hy | rfl
  · exact hkeep _ _ _ (hT.checked y hy user body e hte)
  · exact hx' user body e hte

/-- The order that is stored, when the condition holds. -/
theorem attested_order {s : System} {user : UserId} {body : ReviewIn} {e : Eligibility}
    (hG : s.namesOwn user body = true) (he : s.Attested user body.productId e.orderId) :
    s.Attested user body.productId (body.order e) := by
  unfold namesOwn at hG
  unfold ReviewIn.order
  split at hG
  · rename_i ho
    rw [ho]
    exact he
  · rename_i o ho
    rw [ho]
    simp only [Bool.or_eq_true, decide_eq_true_eq] at hG
    simp only
    split
    · exact he
    · rename_i hne
      exact hG.resolve_left hne

theorem traced_step {s s' : System} {l : Lbl} (hT : s.Traced) (h : step s l = some s')
    (hG : ownOrders s l = true) : s'.Traced := by
  have hst := steps_of_step h
  have hkeep : ∀ user p o, s.Attested user p o → s'.Attested user p o :=
    fun _ _ _ => attested_step hst
  cases hst with
  | spawn t ht =>
    refine ⟨?_, ?_, fun r hr => hkeep _ _ _ (hT.reviews r hr)⟩
    · intro id e he
      obtain ⟨user, p, hid, ha⟩ := hT.docs id e he
      exact ⟨user, p, hid, hkeep _ _ _ ha⟩
    · intro y hy user body e hte
      rcases List.mem_append.mp hy with hy | hy
      · exact hkeep _ _ _ (hT.checked y hy user body e hte)
      · rw [List.mem_singleton.mp hy] at hte
        rcases ht with ⟨_, _, rfl⟩ | ⟨_, rfl⟩ <;> cases hte
  | ignore e => exact hT
  | @crash i x hx =>
    refine ⟨?_, ?_, fun r hr => hkeep _ _ _ (hT.reviews r hr)⟩
    · intro id e he
      obtain ⟨user, p, hid, ha⟩ := hT.docs id e he
      exact ⟨user, p, hid, hkeep _ _ _ ha⟩
    · refine checked_set hT rfl hkeep ?_
      intro user body e hte
      exact hkeep _ _ _ (hT.checked x (List.mem_of_getElem? hx) user body e hte)
  | @next i now x s₁ t' hx ha hm =>
    have hdocs := docs_step hT hx hm hkeep
    have hreviews : ∀ r ∈ s.store.reviews,
        System.Attested ⟨s₁, s.procs.set i { x with task := t' }⟩ r.userId r.productId r.orderId :=
      fun r hr => hkeep _ _ _ (hT.reviews r hr)
    obtain ⟨t, alive⟩ := x
    simp only at hm
    cases hm with
    | refuse =>
      exact ⟨hdocs, checked_set hT rfl hkeep (by simp), hreviews⟩
    | @check user body e he hr =>
      refine ⟨hdocs, checked_set hT rfl hkeep ?_, hreviews⟩
      intro user' body' e' hte
      simp only [Task.create.injEq, CreatePc.insert.injEq] at hte
      obtain ⟨rfl, rfl, rfl⟩ := hte
      -- the document's key is the request's
      obtain ⟨u, p, hid, hat⟩ := hT.docs _ e he
      obtain ⟨rfl, rfl⟩ := eligibilityId_inj hid
      exact hkeep _ _ _ hat
    | @insert user body e doc hu hp ho =>
      refine ⟨hdocs, checked_set hT rfl hkeep (by simp), ?_⟩
      intro r hr
      rcases List.mem_append.mp hr with hr | hr
      · exact hreviews r hr
      · obtain rfl := List.mem_singleton.mp hr
        rw [hu, hp, ho]
        have hG' : s.namesOwn user body = true := by simpa [ownOrders, hx] using hG
        refine hkeep _ _ _ (attested_order hG' ?_)
        exact hT.checked _ (List.mem_of_getElem? hx) user body e rfl
    | flag => exact ⟨hdocs, checked_set hT rfl hkeep (by simp), hreviews⟩
    | upsert hp => exact ⟨hdocs, checked_set hT rfl hkeep (by simp), hreviews⟩

theorem traced_start : start.Traced where
  docs id e he := by cases he
  checked x hx := by cases hx
  reviews r hr := by cases hr

/-- **Provenance**, in every run whose requests name no order or one of their
own. -/
theorem review_provenance {s : System} (h : ownLts.Reachable s) : s.Provenance := by
  have hT : s.Traced := by
    refine LTS.reachable_induct ?_ ?_ h
    · rintro s rfl
      exact traced_start
    · intro s l s' _ hT hs
      exact traced_step hT hs.1 hs.2
  exact hT.reviews

def namesO1 : ReviewIn := { namesO9 with orderId := some "O1", comment := "late" }

theorem review_provenance_own : ∃ s, ownLts.Reachable s ∧ s.store.reviews.length = 1 ∧
    s.Provenance := by
  obtain ⟨s, hr, hs⟩ : ∃ s, ownLts.Reachable s ∧ decide (s.store.reviews.length = 1) = true :=
    LTS.reachable_of_execG
      [.consume (.delivered firstOrder), .next 0 0, .request alice namesO1, .next 1 1, .next 1 2,
        .crash 0, .next 1 3] rfl (by decide +kernel)
  exact ⟨s, hr, of_decide_eq_true hs, review_provenance hr⟩

end System
end Gestalt.Reviews
