import Gestalt.L4Checkout.Conservation
import Gestalt.L4Checkout.Publish

/-!
# Failures are explained

`normalize_failure_reason` maps every raw reason to one of five codes, the same for the
counter's label, the column, the event and the response. Two writers set `orders.status` and
`orders.failure_reason`, each by a flush of the columns it changed and each on what it had
read earlier: a pass that finds its reason in the row it loaded writes no reason, and one
that finds the row FAILED writes no status. Even so, in any interleaving, a FAILED order has
a code and a PENDING one has none, in its row, in what is published of it and in every
answer (`failures_explained`).

What carries it: no write returns a row to PENDING or takes a reason away (`Later`), so what
a session has loaded, however old, says of the row as it is now that it has been decided, or
explained.
-/
namespace Gestalt.Checkout

open Gestalt.Orders (Db Order OrderItem OrderOut OrderStatus Line Write)

variable {cfg : Config} {cat : Catalog.Products} {s s' : Sys}

/-- The closed set of labels.
mirrors services/order-service/app/metrics.py:22-34 -/
def reasonCodes : List String :=
  ["INSUFFICIENT_STOCK", "PRODUCT_NOT_FOUND", "PAYMENT_DECLINED", "RECONCILIATION_TIMEOUT",
    "TRANSPORT_ERROR"]

theorem normalizeFailureReason_mem (raw : String) : Orders.normalizeFailureReason raw ∈ reasonCodes := by
  unfold Orders.normalizeFailureReason
  cases h : Orders.exactReasons.lookup raw with
  | none => decide
  | some code =>
    have hcodes : ∀ c ∈ Orders.exactReasons.map Prod.snd, c ∈ reasonCodes := by decide
    obtain ⟨l₁, l₂, hl, -⟩ := List.lookup_eq_some_iff.mp h
    exact hcodes code (List.mem_map.mpr ⟨(raw, code), hl ▸ by simp, rfl⟩)

/-! ## Rows -/

/-- A failure is explained, by a code; nothing is said of an order still PENDING. -/
structure Explained (status : OrderStatus) (reason : Option String) : Prop where
  coded : ∀ r, reason = some r → r ∈ reasonCodes
  failed : status = .failed → reason ≠ none
  pending : status = .pending → reason = none

/-- A row of before, and the same row now. -/
structure Later (x o : Order) : Prop where
  status : x.status ≠ .pending → o.status ≠ .pending
  reason : x.failureReason ≠ none → o.failureReason ≠ none

/-- A write after which the row `o` is explained still. -/
structure Sound (o : Order) (w : Write) : Prop where
  decides : w.status ≠ some .pending
  coded : ∀ r, w.failureReason = some r → r ∈ reasonCodes
  explains : w.status = some .failed → w.failureReason ≠ none ∨ o.failureReason ≠ none
  settled : w.failureReason ≠ none → w.status ≠ none ∨ o.status ≠ .pending

theorem set_failureReason (w : Write) (now : Nat) (o : Order) :
    (o.set w now).failureReason = w.failureReason.or o.failureReason := by
  unfold Order.set
  split
  · rename_i h
    subst h
    rfl
  · rfl

theorem Later.refl (o : Order) : Later o o := ⟨id, id⟩

theorem Later.trans {x y z : Order} (h : Later x y) (h' : Later y z) : Later x z :=
  ⟨h'.status ∘ h.status, h'.reason ∘ h.reason⟩

/-- No write undoes a decision, or its reason. -/
theorem Later.set {w : Write} (h : w.status ≠ some .pending) (o : Order) (now : Nat) :
    Later o (o.set w now) := by
  refine ⟨fun ho => ?_, fun ho => ?_⟩
  · rw [Orders.set_status]
    cases hw : w.status with
    | none => exact ho
    | some st => rintro rfl; exact h hw
  · rw [set_failureReason]
    cases w.failureReason with
    | none => exact ho
    | some r => simp

theorem Sound.explained {o : Order} {w : Write} (h : Sound o w) (ho : Explained o.status o.failureReason)
    (now : Nat) : Explained (o.set w now).status (o.set w now).failureReason := by
  rw [Orders.set_status, set_failureReason]
  constructor
  · intro r hr
    rcases Option.or_eq_some_iff.mp hr with hw | ⟨-, hold⟩
    · exact h.coded r hw
    · exact ho.coded r hold
  · intro hst hnone
    obtain ⟨hw, hold⟩ := Option.or_eq_none_iff.mp hnone
    cases hs : w.status with
    | none =>
      rw [hs] at hst
      exact ho.failed hst hold
    | some st =>
      rw [hs] at hst
      obtain rfl : st = .failed := hst
      exact (h.explains hs).elim (· hw) (· hold)
  · intro hst
    cases hs : w.status with
    | none =>
      rw [hs] at hst
      have hst : o.status = .pending := hst
      have hw : w.failureReason = none := by
        by_contra hw
        exact (h.settled hw).elim (· hs) (· hst)
      rw [hw, ho.pending hst]
      rfl
    | some st =>
      rw [hs] at hst
      obtain rfl : st = .pending := hst
      exact absurd hs h.decides

theorem sound_marked (o : Order) : Sound o { stockReserved := some true } := by
  constructor <;> simp

theorem sound_paid (o : Order) : Sound o { status := some .paid } := by
  constructor <;> simp

theorem sound_delivered (o : Order) (b : Option Bool) : Sound o { delivered := b } := by
  constructor <;> simp

theorem sound_failing (o : Order) (reason : String) : Sound o (failing reason) where
  decides := by simp [failing]
  coded := by
    intro r hr
    obtain rfl := Option.some.inj hr
    exact normalizeFailureReason_mem reason
  explains _ := .inl (by simp [failing])
  settled _ := .inl (by simp [failing])

/-- Either the pass writes its reason or the row has one. -/
theorem overdue_reason {x o : Order} (h : Later x o) :
    (overdue x).failureReason ≠ none ∨ o.failureReason ≠ none := by
  by_cases hx : x.failureReason = some reconciliationTimeout
  · exact .inr (h.reason (by simp [hx]))
  · exact .inl (by simp [overdue, hx])

/-- What the pass writes suits the row as it is now, though it was chosen by an older one. -/
theorem sound_overdue {x o : Order} (h : Later x o) : Sound o (overdue x) where
  decides := by unfold overdue; simp only; split <;> simp
  coded := by
    intro r hr
    unfold overdue at hr
    simp only at hr
    split at hr
    · cases hr
    · obtain rfl := Option.some.inj hr
      exact normalizeFailureReason_mem _
  explains _ := overdue_reason h
  settled := by
    intro _
    by_cases hx : x.status = .failed
    · exact .inr (h.status (by simp [hx]))
    · exact .inl (by simp [overdue, hx])

/-! ## The invariant -/

/-- The order's row has a reason. -/
def Given (db : Db) (oid : String) : Prop := ∃ o ∈ db.orders, o.id = oid ∧ o.failureReason ≠ none

/-- A row that was loaded from this table, now or before. -/
def Since (db : Db) (x : Order) : Prop := ∃ o ∈ db.orders, o.id = x.id ∧ Later x o

/-- An order in a response. -/
def Shown (out : OrderOut) : Prop := ∃ status : OrderStatus, out.status = status.value ∧
  Explained status out.failureReason

def Final.Reasoned (db : Db) (oid : String) (paid : Bool) : Final → Prop
  | .refresh => paid = false → Given db oid
  | .announce order => Explained order.status order.failureReason ∧ (paid = false → order.failureReason ≠ none)
  | .clear order => Explained order.status order.failureReason
  | .done out => Shown out

def Phase.Reasoned (db : Db) : Phase → Prop
  | .commit order => order.status = .pending ∧ order.failureReason = none
  | .replied (.ok out) => Shown out
  | .saga oid (.ended paid f) => f.Reasoned db oid paid
  | _ => True

def PassPc.Reasoned (db : Db) : PassPc → Prop
  | .release order _ _ => Since db order
  | .refresh oid _ => Given db oid
  | .announce order _ => ∃ r ∈ reasonCodes, order.failureReason = some r
  | _ => True

def Event.Reasoned : Event → Prop
  | .failed _ _ reason => ∃ r ∈ reasonCodes, reason = some r
  | _ => True

structure Reasoned (s : Sys) : Prop where
  rows : ∀ o ∈ s.db.orders, Explained o.status o.failureReason
  run : ∀ g ∈ s.sagas, g.phase.Reasoned s.db
  snap : ∀ p ∈ s.passes, ∀ x ∈ p.snap.orders, Since s.db x
  pass : ∀ p ∈ s.passes, p.pc.Reasoned s.db
  told : ∀ x ∈ s.trace, ∀ ev, x.call = .publish ev → ev.Reasoned

theorem Explained.of_given {st : OrderStatus} {reason : Option String} (h : Explained st reason)
    (hne : reason ≠ none) : ∃ r ∈ reasonCodes, reason = some r := by
  obtain ⟨r, rfl⟩ := Option.ne_none_iff_exists'.mp hne
  exact ⟨r, h.coded r rfl, rfl⟩

theorem Explained.shown {o : Order} (h : Explained o.status o.failureReason) (items : List OrderItem) :
    Shown (Orders.toOut o items) := ⟨o.status, rfl, h⟩

/-! ## What a step does to the table -/

/-- A new row is PENDING and without a reason; a write suits the row it is for. -/
inductive Tables (s s' : Sys) : Prop
  | insert (order : Order) (lines : List Line) : order.status = .pending → order.failureReason = none →
      s'.db = Orders.insert s.db order lines → Tables s s'
  | write (oid : String) (w : Write) : (∀ o ∈ s.db.orders, o.id = oid → Sound o w) →
      w.status ≠ some .pending → s'.db = Orders.update s.db oid w s.now → Tables s s'
  | same : s'.db = s.db → Tables s s'

theorem Tables.rows (h : Tables s s') (I : ∀ o ∈ s.db.orders, Explained o.status o.failureReason) :
    ∀ o ∈ s'.db.orders, Explained o.status o.failureReason := by
  cases h with
  | insert order lines hst hr hdb =>
    intro o ho
    rw [hdb] at ho
    rcases List.mem_append.mp ho with ho | ho
    · exact I o ho
    · obtain rfl := List.mem_singleton.mp ho
      rw [hst, hr]
      constructor <;> simp
  | write oid w hw _ hdb =>
    intro o' ho'
    rw [hdb] at ho'
    obtain ⟨o, ho, rfl⟩ := Table.mem_modify.mp ho'
    split
    · rename_i hid
      exact (hw o ho hid).explained (I o ho) s.now
    · exact I o ho
  | same hdb => rwa [hdb]

/-- Every row is still there, later. -/
theorem Tables.later (h : Tables s s') {x : Order} (hx : x ∈ s.db.orders) : Since s'.db x := by
  cases h with
  | insert order lines _ _ hdb =>
    rw [hdb]
    exact ⟨x, List.mem_append_left _ hx, rfl, .refl x⟩
  | write oid w _ hw hdb =>
    rw [hdb]
    refine ⟨_, Table.mem_modify.mpr ⟨x, hx, rfl⟩, ?_⟩
    split
    · exact ⟨Orders.set_id w s.now x, .set hw x s.now⟩
    · exact ⟨rfl, .refl x⟩
  | same hdb => exact ⟨x, hdb ▸ hx, rfl, .refl x⟩

theorem Since.step {x : Order} (h : Since s.db x) (ht : Tables s s') : Since s'.db x := by
  obtain ⟨o, ho, hid, hl⟩ := h
  obtain ⟨o', ho', hid', hl'⟩ := ht.later ho
  exact ⟨o', ho', hid'.trans hid, hl.trans hl'⟩

theorem Given.step {oid : String} (h : Given s.db oid) (ht : Tables s s') : Given s'.db oid := by
  obtain ⟨o, ho, hid, hr⟩ := h
  obtain ⟨o', ho', hid', hl⟩ := ht.later ho
  exact ⟨o', ho', hid'.trans hid, hl.reason hr⟩

theorem Phase.Reasoned.step {ph : Phase} (h : ph.Reasoned s.db) (ht : Tables s s') : ph.Reasoned s'.db := by
  cases ph with
  | saga oid pc =>
    cases pc with
    | ended paid f =>
      cases f with
      | refresh => exact fun hp => Given.step (h hp) ht
      | _ => exact h
    | _ => trivial
  | replied answer => cases answer <;> exact h
  | _ => exact h

theorem PassPc.Reasoned.step {pc : PassPc} (h : pc.Reasoned s.db) (ht : Tables s s') : pc.Reasoned s'.db := by
  cases pc with
  | release order items todo => exact Since.step h ht
  | refresh oid items => exact Given.step h ht
  | _ => exact h

theorem tables_step {l : Lbl} (hu : Table.Unique Order.id s.db.orders) (I : Reasoned s)
    (h : step cfg s l = some s') : Tables s s' := by
  cases l with
  | saga i a =>
    cases step_saga h with
    | prelude g g' e hg hal hne hm =>
      have hdb := apply_db s (.saga i) e
      cases hm with
      | committed order hpc =>
        have hnew := I.run g (List.mem_of_getElem? hg)
        rw [hpc] at hnew
        exact .insert order g.rawItems hnew.1 hnew.2 hdb
      | _ => exact .same hdb
    | saga g oid pc pc' e hg hal hp hm =>
      have hdb := apply_db s (.saga i) e
      cases hm with
      | marked held => exact .write oid _ (fun o _ _ => sound_marked o) (by simp) hdb
      | failed b reason => exact .write oid _ (fun o _ _ => sound_failing o reason) (by simp [failing]) hdb
      | paid => exact .write oid _ (fun o _ _ => sound_paid o) (by simp) hdb
      | _ => exact .same hdb
  | pass j a =>
    obtain ⟨p, p', e, hj, -, hm, rfl⟩ := step_pass h
    have hdb := apply_db s (.pass j) e
    cases hm with
    | failed order items hpc =>
      have hpass := I.pass p (List.mem_of_getElem? hj)
      rw [hpc] at hpass
      obtain ⟨o, ho, hid, hl⟩ := hpass
      refine .write order.id _ (fun o' ho' hid' => ?_) (sound_overdue hl).decides hdb
      obtain rfl := hu.eq ho' ho (hid'.trans hid.symm)
      exact sound_overdue hl
    | _ => exact .same hdb
  | delivery j a =>
    obtain ⟨p, p', e, -, -, hm, rfl⟩ := step_delivery h
    have hdb := apply_db s (.delivery j) e
    cases hm with
    | marked order items at_ hpc => exact .write order.id _ (fun o _ _ => sound_delivered o _) (by simp) hdb
    | _ => exact .same hdb
  | crash i | crashPass i | crashDelivery i =>
    obtain ⟨p, -, rfl⟩ := Option.map_eq_some_iff.mp h
    exact .same rfl
  | pay l =>
    simp only [step] at h
    split at h
    · obtain ⟨p, -, rfl⟩ := Option.map_eq_some_iff.mp h
      exact .same rfl
    · cases h
  | request r | recon | deliver | cart u lines | tick =>
    cases h
    exact .same rfl

/-! ## What a step does to the processes -/

/-- The order of a find is explained; it has a reason if its row has. -/
theorem Reasoned.found (I : Reasoned s) (hu : Table.Unique Order.id s.db.orders) {oid : String} {order : Order}
    (hf : Orders.find s.db oid = some order) : Explained order.status order.failureReason ∧
      (Given s.db oid → order.failureReason ≠ none) := by
  obtain ⟨ho, hid⟩ := Orders.find_some hf
  refine ⟨I.rows order ho, ?_⟩
  rintro ⟨o, ho', hid', hr⟩
  obtain rfl := hu.eq ho' ho (hid'.trans hid.symm)
  exact hr

/-- A write of a reason has given the row one. -/
theorem given_write {x : Order} {w : Write} {now : Nat} {db db' : Db} (hx : x ∈ db.orders)
    (hw : w.failureReason ≠ none ∨ x.failureReason ≠ none) (hdb : db' = Orders.update db x.id w now) :
    Given db' x.id := by
  refine ⟨x.set w now, ?_, Orders.set_id w now x, ?_⟩
  · rw [hdb]
    exact Table.mem_modify.mpr ⟨x, hx, (if_pos rfl).symm⟩
  · rw [set_failureReason]
    intro hnone
    obtain ⟨h1, h2⟩ := Option.or_eq_none_iff.mp hnone
    exact hw.elim (· h1) (· h2)

/-- A run up to its commit. -/
theorem PreludeMoves.reasoned {g g' : Saga} {a : Act} {e : Eff} (h : PreludeMoves cfg s g a g' e) (I : Reasoned s)
    (db : Db) : g'.phase.Reasoned db := by
  cases h with
  | answered a answer hans =>
    cases answer with
    | error err => trivial
    | ok out =>
      obtain ⟨order, hkey, rfl⟩ := hans out rfl
      exact (I.rows order (Orders.byKey_some hkey).1).shown _
  | flushed amount order hpc ho =>
    rw [ho]
    exact ⟨rfl, rfl⟩
  | _ => trivial

/-- A run from its commit on. -/
theorem SagaMoves.reasoned {g : Saga} {oid : String} {pc pc' : Pc} {a : Act} {e : Eff}
    (h : SagaMoves s g oid pc a pc' e) (I : Reasoned s) (hu : Table.Unique Order.id s.db.orders)
    (hrow : ∃ o ∈ s.db.orders, o.id = oid) (hpc : (Phase.saga oid pc).Reasoned s.db)
    (hdb : s'.db = e.onDb s.now s.db) : (Phase.saga oid pc').Reasoned s'.db := by
  cases h with
  | failed b reason =>
    obtain ⟨o, ho, rfl⟩ := hrow
    exact fun _ => given_write ho (.inl (by simp [failing])) hdb
  | paid => exact fun hp => by cases hp
  | loaded b order hf =>
    obtain ⟨hex, hr⟩ := I.found hu hf
    exact ⟨hex, fun hb => hr (hpc hb)⟩
  | announced b order ev logged hid => exact hpc.1
  | cleared b order d => exact Explained.shown hpc _
  | _ => trivial

/-- A pass; its snapshot is never newer than the table. -/
theorem PassMoves.reasoned {p p' : Pass} {a : Act} {e : Eff} (h : PassMoves s p a p' e) (I : Reasoned s)
    (hu : Table.Unique Order.id s.db.orders) (hp : p ∈ s.passes) (ht : Tables s s')
    (hdb : s'.db = e.onDb s.now s.db) :
    (∀ x ∈ p'.snap.orders, Since s'.db x) ∧ p'.pc.Reasoned s'.db := by
  have hsnap : ∀ x ∈ p.snap.orders, Since s'.db x := fun x hx => (I.snap p hp x hx).step ht
  have hpass := I.pass p hp
  cases h with
  | took oid rest order hpc htodo hf => exact ⟨hsnap, hsnap order (Orders.find_some hf).1⟩
  | released order items i todo d hpc =>
    rw [hpc] at hpass
    exact ⟨hsnap, Since.step hpass ht⟩
  | failed order items hpc =>
    rw [hpc] at hpass
    obtain ⟨o, ho, hid, hl⟩ := hpass
    refine ⟨hsnap, ?_⟩
    rw [← hid] at hdb ⊢
    exact given_write ho (overdue_reason hl) hdb
  | loaded oid items order hpc hf =>
    rw [hpc] at hpass
    obtain ⟨hex, hr⟩ := I.found hu hf
    exact ⟨fun x hx => ht.later hx, hex.of_given (hr hpass)⟩
  | announced order items logged hpc => exact ⟨hsnap, trivial⟩
  | cleared order items d hpc => exact ⟨hsnap, trivial⟩

theorem reasoned_told {l : Lbl} (I : Reasoned s) (h : step cfg s l = some s') :
    ∀ x ∈ s'.trace, ∀ ev, x.call = .publish ev → ev.Reasoned := by
  intro x hx ev hev
  rcases step_publishes h hx hev with hold | ⟨order, hpub⟩
  · exact I.told x hold ev hev
  · cases hpub with
    | failed i g oid order hg hp =>
      have hrun := I.run g (List.mem_of_getElem? hg)
      rw [hp] at hrun
      exact hrun.1.of_given (hrun.2 rfl)
    | overdue j p order items hj hal hpc =>
      have hpass := I.pass p (List.mem_of_getElem? hj)
      rwa [hpc] at hpass
    | _ => trivial

/-- The runs after a step. -/
theorem reasoned_runs {l : Lbl} (K : Keys s.db s.sagas) (I : Reasoned s) (h : step cfg s l = some s') :
    ∀ g ∈ s'.sagas, g.phase.Reasoned s'.db := by
  have hu := Orders.unique_ids K.ids
  have ht := tables_step hu I h
  have hold : ∀ g ∈ s.sagas, g.phase.Reasoned s'.db := fun g hg => (I.run g hg).step ht
  intro g' hg'
  cases step_shape h with
  | spawn r =>
    rcases List.mem_append.mp hg' with hg' | hg'
    · exact hold g' hg'
    · obtain rfl := List.mem_singleton.mp hg'
      trivial
  | run i a s' hrun =>
    cases hrun with
    | prelude g g1 e hg hal hne hm =>
      rcases List.mem_or_eq_of_mem_set hg' with hg' | rfl
      · exact hold g' hg'
      · exact hm.reasoned I _
    | saga g oid pc pc1 e hg hal hp hm =>
      rcases List.mem_or_eq_of_mem_set hg' with hg' | rfl
      · exact hold g' hg'
      · obtain ⟨c, hc, hid, -⟩ := (K.saga i g hg).own oid pc hp
        obtain ⟨o, ho, rfl⟩ := Orders.mem_cores.mp hc
        exact hm.reasoned I hu ⟨o, ho, hid⟩ (hp ▸ I.run g (List.mem_of_getElem? hg)) (apply_db s (.saga i) e)
  | crash i g hg =>
    rcases List.mem_or_eq_of_mem_set hg' with hg' | rfl
    · exact hold g' hg'
    · exact hold g (List.mem_of_getElem? hg)
  | pay l p hl hp => exact hold g' hg'
  | other l c e s' hb hpass => exact hold g' (hb.sagas ▸ hg')

/-- The passes after a step. -/
theorem reasoned_passes {l : Lbl} (hu : Table.Unique Order.id s.db.orders) (I : Reasoned s)
    (h : step cfg s l = some s') :
    ∀ p ∈ s'.passes, (∀ x ∈ p.snap.orders, Since s'.db x) ∧ p.pc.Reasoned s'.db := by
  have ht := tables_step hu I h
  have hold : ∀ p ∈ s.passes, (∀ x ∈ p.snap.orders, Since s'.db x) ∧ p.pc.Reasoned s'.db :=
    fun p hp => ⟨fun x hx => (I.snap p hp x hx).step ht, (I.pass p hp).step ht⟩
  intro p' hp'
  cases step_shape h with
  | run i a s' hrun => cases hrun <;> exact hold p' (by simpa using hp')
  | other l c e s' hb hpass =>
    cases hpass with
    | recon _ _ hps =>
      rw [hps] at hp'
      rcases List.mem_append.mp hp' with hp' | hp'
      · exact hold p' hp'
      · obtain rfl := List.mem_singleton.mp hp'
        exact ⟨fun x hx => ht.later hx, trivial⟩
    | pass j a p q _ _ hj hal hm hps =>
      rw [hps] at hp'
      rcases List.mem_or_eq_of_mem_set hp' with hp' | rfl
      · exact hold p' hp'
      · exact hm.reasoned I hu (List.mem_of_getElem? hj) ht hb.db
    | crash j p _ _ hj hps =>
      rw [hps] at hp'
      rcases List.mem_or_eq_of_mem_set hp' with hp' | rfl
      · exact hold p' hp'
      · exact hold p (List.mem_of_getElem? hj)
    | none _ _ _ _ _ hps => exact hold p' (hps ▸ hp')
  | _ => exact hold p' hp'

/-- **Step lemma.** -/
theorem reasoned_step {l : Lbl} (K : Keys s.db s.sagas) (I : Reasoned s) (h : step cfg s l = some s') :
    Reasoned s' := by
  have hu := Orders.unique_ids K.ids
  have hpasses := reasoned_passes hu I h
  exact ⟨(tables_step hu I h).rows I.rows, reasoned_runs K I h, fun p hp => (hpasses p hp).1,
    fun p hp => (hpasses p hp).2, reasoned_told I h⟩

theorem reasoned_reachable (h : (lts cfg cat).Reachable s) : Reasoned s := by
  refine LTS.reachable_induct ?_ ?_ h
  · intro s hs
    subst hs
    constructor <;> simp [start]
  · intro s l s' hr I hst
    exact reasoned_step (keys_reachable hr) I hst

theorem Reasoned.reply (I : Reasoned s) {g : Saga} (hg : g ∈ s.sagas) {out : OrderOut}
    (hr : g.reply = some (.ok out)) : Shown out := by
  have hrun := I.run g hg
  unfold Saga.reply at hr
  split at hr
  · rename_i answer hp
    rw [hp] at hrun
    cases hr
    exact hrun
  · rename_i hp
    rw [hp] at hrun
    cases hr
    exact hrun
  · cases hr

/-- So do the two read endpoints. -/
theorem Reasoned.get (I : Reasoned s) {userId oid : String} {out : OrderOut}
    (h : Orders.getOrder s.db userId oid = .ok out) : Shown out := by
  unfold Orders.getOrder at h
  split at h
  · cases h
  · rename_i order hf
    split at h
    · cases h
    · cases h
      exact (I.rows order (Orders.find_some hf).1).shown _

theorem Reasoned.list (I : Reasoned s) {userId : String} {limit offset : Nat} {rows : List Order}
    {outs : List OrderOut} (ho : Orders.Ordered s.db userId rows)
    (h : Orders.listOrders s.db limit offset rows = .ok outs) : ∀ out ∈ outs, Shown out := by
  unfold Orders.listOrders at h
  split at h
  · cases h
    intro out hout
    obtain ⟨o, hmem, rfl⟩ := List.mem_map.mp hout
    have hrow := List.mem_of_mem_drop (List.mem_of_mem_take hmem)
    exact (I.rows o (List.mem_filter.mp (ho.1.mem_iff.mp hrow)).1).shown _
  · cases h

/-- **Failures are explained.** In any interleaving of runs and passes, however stale what they
loaded: every order that is FAILED has one of the five codes, and every order that is PENDING has
none; so says every answer to a checkout and to a read; and every announced failure names a
code. -/
theorem failures_explained (cfg : Config) (cat : Catalog.Products) {s : Sys}
    (h : (lts cfg cat).Reachable s) :
    (∀ o ∈ s.db.orders, Explained o.status o.failureReason) ∧
    (∀ x ∈ s.trace, ∀ oid userId reason, x.call = .publish (.failed oid userId reason) →
      ∃ r ∈ reasonCodes, reason = some r) ∧
    (∀ g ∈ s.sagas, ∀ out, g.reply = some (.ok out) → Shown out) ∧
    (∀ userId oid out, Orders.getOrder s.db userId oid = .ok out → Shown out) ∧
    ∀ userId limit offset rows outs, Orders.Ordered s.db userId rows →
      Orders.listOrders s.db limit offset rows = .ok outs → ∀ out ∈ outs, Shown out := by
  have I := reasoned_reachable h
  exact ⟨I.rows, fun x hx oid userId reason hc => I.told x hx _ hc, fun g hg out => I.reply hg,
    fun userId oid out => I.get, fun userId limit offset rows outs => I.list⟩

/-- Two passes fail the same order, left by a run that died; the second had loaded it PENDING. -/
def failedTwice : List Lbl :=
  pens ++ upToReserve 0 "o1" ++ [.crash 0] ++ List.replicate 61 .tick ++
    [.recon, .recon, .pass 0 .next, .pass 1 .next, .pass 0 .commit, .pass 1 .commit, .pass 1 .load,
      .pass 1 (.publish true)]

def timedOut (s : Sys) : Bool :=
  s.db.orders.map (fun o => (o.status, o.failureReason)) = [(.failed, some "RECONCILIATION_TIMEOUT")] &&
    s.topic.contains (.failed "o1" "u1" (some "RECONCILIATION_TIMEOUT"))

theorem failures_explained_failedTwice : ∃ s : Sys, timedOut s = true ∧
    (∀ o ∈ s.db.orders, Explained o.status o.failureReason) ∧
    ∀ x ∈ s.trace, ∀ oid userId reason, x.call = .publish (.failed oid userId reason) →
      ∃ r ∈ reasonCodes, reason = some r := by
  obtain ⟨s, hr, hs⟩ : ∃ s, (lts {} shop).Reachable s ∧ timedOut s = true :=
    LTS.reachable_of_exec failedTwice rfl (by decide +kernel)
  obtain ⟨hrows, htold, -⟩ := failures_explained {} shop hr
  exact ⟨s, hs, hrows, htold⟩

end Gestalt.Checkout
