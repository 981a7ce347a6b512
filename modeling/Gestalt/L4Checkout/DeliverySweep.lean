import Gestalt.L4Checkout.Announce

/-!
# A delivery pass works on a prefix

One `run_pass` of the delivery simulator on any orders table, with nobody else writing to
it, which may die at any point. The orders it selected are `done ++ rest`: those of `done`
are marked delivered and have been announced in that order, each with exactly its products,
the last one perhaps not yet; those of `rest`, and all other rows, are as they were
(`delivery_prefix`).
-/
namespace Gestalt.Checkout

open Gestalt.Orders (Db Order OrderItem Line linesOf loadItems)

variable {cfg : Config} {s₀ s s' : Sys} {j : Nat}

/-! ## One pass alone -/

def Lbl.ofDelivery (j : Nat) : Lbl → Bool
  | .delivery k _ => k = j
  | .crashDelivery k => k = j
  | _ => false

/-- Anything may go on but a write of somebody else to the orders database. -/
def soleDelivery (cfg : Config) (j : Nat) (s : Sys) (l : Lbl) : Option Sys :=
  (step cfg s l).bind fun s' => if l.ofDelivery j || s'.db = s.db then some s' else none

def soleDeliveryLts (cfg : Config) (j : Nat) (s₁ : Sys) : LTS Sys Lbl :=
  LTS.ofFn (· = s₁) (soleDelivery cfg j)

/-! ## What it leaves -/

/-- The row that an order has become, those of `done` being marked. -/
def handedOver (t : Order → Nat) (done : List Order) (o : Order) : Order :=
  if o ∈ done then { o with delivered := true, updatedAt := t o } else o

/-- The announcement of an order's delivery. -/
def Announces (db : Db) (o : Order) (ev : Event) : Prop :=
  ∃ at_, ev = .delivered o.id o.userId ((linesOf db o.id).map Line.productId) at_

/-- A publish of delivery pass `j`. -/
def Issued.announcement (j : Nat) (x : Issued) : Option Event :=
  match x.caller, x.call with
  | .delivery k, .publish ev => if k = j then some ev else none
  | _, _ => none

def announcements (j : Nat) (s : Sys) : List Event := s.trace.filterMap (Issued.announcement j)

/-- Pass `j` has announced the orders of `told` since `s₀`, in that order. -/
def Announced (s₀ s : Sys) (j : Nat) (told : List Order) : Prop :=
  ∃ evs, announcements j s = announcements j s₀ ++ evs ∧ List.Forall₂ (Announces s₀.db) told evs

/-! ## Rows -/

@[simp] theorem handedOver_id (t : Order → Nat) (done : List Order) (o : Order) :
    (handedOver t done o).id = o.id := by
  unfold handedOver; split <;> rfl

@[simp] theorem handedOver_userId (t : Order → Nat) (done : List Order) (o : Order) :
    (handedOver t done o).userId = o.userId := by
  unfold handedOver; split <;> rfl

/-- An order is still found, as what it has become. -/
theorem handedOver_find {l : List Order} (hu : Table.Unique Order.id l) {x : Order} (hx : x ∈ l)
    (t : Order → Nat) (done : List Order) :
    Table.get Order.id (l.map (handedOver t done)) x.id = some (handedOver t done x) := by
  have hids : (l.map (handedOver t done)).map Order.id = l.map Order.id := by simp [Function.comp_def]
  have hu' : Table.Unique Order.id (l.map (handedOver t done)) := by
    unfold Table.Unique
    rw [hids]
    exact hu
  have hget := hu'.get (List.mem_map_of_mem hx)
  rwa [handedOver_id] at hget

/-- The commit of one more order. -/
theorem handedOver_write {l : List Order} (hu : Table.Unique Order.id l) {x : Order} (hx : x ∈ l)
    {done : List Order} (hn : x ∉ done) (t : Order → Nat) (now : Nat) :
    Table.modify Order.id (l.map (handedOver t done)) x.id (Order.set { delivered := some true } now) =
      l.map (handedOver (fun o => if o = x then now else t o) (done ++ [x])) := by
  unfold Table.modify
  rw [List.map_map]
  refine List.map_congr_left fun o ho => ?_
  simp only [Function.comp_apply, handedOver_id]
  by_cases he : o = x
  · subst he
    simp [handedOver, hn, Order.set]
  · have hid : o.id ≠ x.id := fun hid => he (hu.eq ho hx hid)
    simp [handedOver, he, hid]

/-! ## The invariant -/

/-- Where the pass is, between `done` and `rest`. -/
def DeliveryAt (s₀ s : Sys) (j : Nat) (done rest : List Order) (p : DeliveryPass) : Prop :=
  match p.pc with
  | .next => p.todo = rest.map Order.id ∧ p.snap = s.db ∧ Announced s₀ s j done
  | .commit order items _ => (∃ rest', rest = order :: rest' ∧ p.todo = rest'.map Order.id) ∧
      items = loadItems s₀.db order.id ∧ Announced s₀ s j done
  -- marked, and not yet announced
  | .refresh oid items _ => p.todo = rest.map Order.id ∧ ∃ told o, done = told ++ [o] ∧ o.id = oid ∧
      items = loadItems s₀.db o.id ∧ Announced s₀ s j told
  | .announce order items _ => p.todo = rest.map Order.id ∧ p.snap = s.db ∧ ∃ told o, done = told ++ [o] ∧
      order.id = o.id ∧ order.userId = o.userId ∧ items = loadItems s₀.db o.id ∧ Announced s₀ s j told

structure DeliverySweep (cfg : Config) (s₀ : Sys) (j : Nat) (s : Sys) (done rest : List Order)
    (p : DeliveryPass) : Prop where
  pass : s.deliveries[j]? = some p
  split : done ++ rest = due cfg.order s₀
  items : s.db.items = s₀.db.items
  rows : ∃ t, s.db.orders = s₀.db.orders.map (handedOver t done)
  work : DeliveryAt s₀ s j done rest p

variable {done rest : List Order} {p : DeliveryPass}

/-- Others take a step. -/
theorem DeliverySweep.frame (h : DeliverySweep cfg s₀ j s done rest p)
    (hp : s'.deliveries[j]? = s.deliveries[j]?) (hdb : s'.db = s.db)
    (ha : announcements j s' = announcements j s) : DeliverySweep cfg s₀ j s' done rest p where
  pass := hp.trans h.pass
  split := h.split
  items := by rw [hdb]; exact h.items
  rows := by rw [hdb]; exact h.rows
  work := by
    have hw := h.work
    unfold DeliveryAt Announced at hw ⊢
    rw [hdb, ha]
    exact hw

/-- A step of another process leaves the pass and its announcements alone. -/
theorem other_delivery_step {l : Lbl} (hj : j < s.deliveries.length) (hl : l.ofDelivery j = false)
    (h : step cfg s l = some s') :
    s'.deliveries[j]? = s.deliveries[j]? ∧ announcements j s' = announcements j s := by
  have hlog : ∀ (c : Caller) (e : Eff) (t : Sys), c ≠ .delivery j → t.trace = s.trace ++ e.issued s c →
      announcements j t = announcements j s := by
    intro c e t hc ht
    have hnil : (e.issued s c).filterMap (Issued.announcement j) = [] := by
      refine List.filterMap_eq_nil_iff.mpr fun x hx => ?_
      unfold Issued.announcement
      split
      · rename_i k ev hk _
        rw [issued_caller hx] at hk
        rw [if_neg]
        rintro rfl
        exact hc hk
      · rfl
    rw [announcements, ht, List.filterMap_append, hnil, List.append_nil, announcements]
  cases l with
  | saga i a =>
    cases step_saga h with
    | prelude g g' e =>
      exact ⟨by simp only [apply_deliveries], hlog (.saga i) e _ (by simp) (apply_trace s (.saga i) e)⟩
    | saga g oid pc pc' e =>
      exact ⟨by simp only [apply_deliveries], hlog (.saga i) e _ (by simp) (apply_trace s (.saga i) e)⟩
  | pass k a =>
    obtain ⟨q, q', e, -, -, -, rfl⟩ := step_pass h
    exact ⟨by simp only [apply_deliveries], hlog (.pass k) e _ (by simp) (apply_trace s (.pass k) e)⟩
  | delivery k a =>
    have hkj : k ≠ j := of_decide_eq_false hl
    obtain ⟨q, q', e, -, -, -, rfl⟩ := step_delivery h
    refine ⟨List.getElem?_set_ne hkj, hlog (.delivery k) e _ ?_ (apply_trace s (.delivery k) e)⟩
    simpa using hkj
  | crashDelivery k =>
    have hkj : k ≠ j := of_decide_eq_false hl
    obtain ⟨q, -, rfl⟩ := Option.map_eq_some_iff.mp h
    exact ⟨List.getElem?_set_ne hkj, rfl⟩
  | deliver =>
    cases h
    exact ⟨List.getElem?_append_left hj, rfl⟩
  | pay l =>
    simp only [step] at h
    split at h
    · obtain ⟨q, -, rfl⟩ := Option.map_eq_some_iff.mp h
      exact ⟨rfl, rfl⟩
    · cases h
  | crash i | crashPass i =>
    obtain ⟨q, -, rfl⟩ := Option.map_eq_some_iff.mp h
    exact ⟨rfl, rfl⟩
  | request r | recon | cart u lines | tick =>
    cases h
    exact ⟨rfl, rfl⟩

def Eff.announced : Eff → List Event
  | .publish ev _ => [ev]
  | _ => []

/-- What a step of the pass adds to its announcements. -/
theorem announcements_append {e : Eff} (h : s'.trace = s.trace ++ e.issued s (.delivery j)) :
    announcements j s' = announcements j s ++ e.announced := by
  rw [announcements, h, List.filterMap_append, announcements]
  congr 1
  cases e <;> simp [Eff.issued, Issued.announcement, Eff.announced]

theorem Announced.keep {told : List Order} (h : Announced s₀ s j told) (he : announcements j s' = announcements j s) :
    Announced s₀ s' j told := by
  unfold Announced
  rw [he]
  exact h

theorem Announced.tell {told : List Order} (h : Announced s₀ s j told) {o : Order} {ev : Event}
    (he : announcements j s' = announcements j s ++ [ev]) (hev : Announces s₀.db o ev) :
    Announced s₀ s' j (told ++ [o]) := by
  obtain ⟨evs, hevs, hall⟩ := h
  exact ⟨evs ++ [ev], by rw [he, hevs, List.append_assoc], List.rel_append hall (.cons hev .nil)⟩

/-- **Step lemma**: the pass takes a step. -/
theorem DeliverySweep.move {a : Act} {p' : DeliveryPass} {e : Eff} (h : DeliverySweep cfg s₀ j s done rest p)
    (hu : Table.Unique Order.id s₀.db.orders) (hm : DeliveryMoves s p a p' e)
    (hpass : s'.deliveries[j]? = some p') (hdb : s'.db = e.onDb s.now s.db)
    (htrace : s'.trace = s.trace ++ e.issued s (.delivery j)) :
    ∃ done' rest', DeliverySweep cfg s₀ j s' done' rest' p' := by
  have hsel : ∀ x ∈ rest, x ∈ s₀.db.orders ∧ x.delivered = false ∧ x ∉ done := by
    intro x hx
    have hmem : x ∈ due cfg.order s₀ := h.split ▸ List.mem_append_right done hx
    have hnd : (done ++ rest).Nodup := h.split ▸ (hu.nodup.filter _)
    obtain ⟨hx', hdue⟩ := List.mem_filter.mp hmem
    exact ⟨hx', (of_decide_eq_true hdue).2.1, fun hd => List.disjoint_of_nodup_append hnd hd hx⟩
  have hann := announcements_append htrace
  obtain ⟨t, hrows⟩ := h.rows
  have hw := h.work
  unfold DeliveryAt at hw
  cases hm with
  | took oid todo order hpc htodo hfind =>
    rw [hpc] at hw
    obtain ⟨hrest, hsnap, htold⟩ := hw
    rw [htodo] at hrest
    cases rest with
    | nil => cases hrest
    | cons x rest' =>
      obtain ⟨rfl, rfl⟩ := List.cons.inj hrest
      -- the row is the one selected
      obtain ⟨hx, -, hn⟩ := hsel x List.mem_cons_self
      have hrow : Orders.find p.snap x.id = some x := by
        rw [hsnap, Orders.find, hrows, handedOver_find hu hx, handedOver, if_neg hn]
      obtain rfl : x = order := Option.some.inj (hrow.symm.trans hfind)
      refine ⟨done, x :: rest', hpass, h.split, hdb ▸ h.items, ⟨t, hdb ▸ hrows⟩, ?_⟩
      refine ⟨⟨rest', rfl, rfl⟩, ?_, htold.keep (by simpa [Eff.announced] using hann)⟩
      simp only [hsnap, loadItems, h.items]
  | marked order items at_ hpc =>
    rw [hpc] at hw
    obtain ⟨⟨rest', rfl, htodo⟩, hitems, htold⟩ := hw
    obtain ⟨hx, hdel, hn⟩ := hsel order List.mem_cons_self
    refine ⟨done ++ [order], rest', hpass, by simpa using h.split, hdb ▸ h.items, ?_, ?_⟩
    · refine ⟨fun o => if o = order then s.now else t o, ?_⟩
      simp only [hdb, Eff.onDb, Orders.update, hrows, hdel, if_false, Bool.false_eq_true]
      exact handedOver_write hu hx hn t s.now
    · exact ⟨htodo, done, order, rfl, rfl, hitems, htold.keep (by simpa [Eff.announced] using hann)⟩
  | loaded oid items at_ order hpc hfind =>
    rw [hpc] at hw
    obtain ⟨htodo, told, o, rfl, rfl, hitems, htold⟩ := hw
    have ho : o ∈ s₀.db.orders :=
      (List.mem_filter.mp (h.split ▸ List.mem_append_left rest (List.mem_append_right told (.head _)))).1
    have horder : handedOver t (told ++ [o]) o = order := by
      rw [Orders.find, hrows, handedOver_find hu ho] at hfind
      exact Option.some.inj hfind
    refine ⟨told ++ [o], rest, hpass, h.split, hdb ▸ h.items, ⟨t, hdb ▸ hrows⟩, htodo, hdb.symm, told, o, rfl, ?_⟩
    subst horder
    exact ⟨handedOver_id .., handedOver_userId .., hitems, htold.keep (by simpa [Eff.announced] using hann)⟩
  | announced order items at_ logged hpc =>
    rw [hpc] at hw
    obtain ⟨htodo, hsnap, told, o, rfl, hid, huid, hitems, htold⟩ := hw
    refine ⟨told ++ [o], rest, hpass, h.split, hdb ▸ h.items, ⟨t, hdb ▸ hrows⟩, htodo, hsnap.trans hdb.symm, ?_⟩
    refine htold.tell hann ⟨at_, ?_⟩
    simp [hid, huid, hitems, linesOf, Function.comp_def, OrderItem.line]

/-- **Step lemma.** -/
theorem deliverySweep_step {l : Lbl} (h : DeliverySweep cfg s₀ j s done rest p)
    (hu : Table.Unique Order.id s₀.db.orders) (hst : soleDelivery cfg j s l = some s') :
    ∃ done' rest' p', DeliverySweep cfg s₀ j s' done' rest' p' := by
  obtain ⟨t, hstep, ht⟩ := Option.bind_eq_some_iff.mp hst
  split at ht
  · rename_i hsole
    cases ht
    by_cases hl : l.ofDelivery j = true
    · cases l with
      | delivery k a =>
        cases of_decide_eq_true hl
        obtain ⟨q, q', e, hq, -, hm, rfl⟩ := step_delivery hstep
        rw [h.pass] at hq
        cases hq
        have hmove : ∃ done' rest', DeliverySweep cfg s₀ j
            { s.apply (.delivery j) e with deliveries := s.deliveries.set j q' } done' rest' q' :=
          h.move hu hm (Procs.set_self h.pass) (apply_db s (.delivery j) e) (apply_trace s (.delivery j) e)
        obtain ⟨done', rest', h'⟩ := hmove
        exact ⟨done', rest', q', h'⟩
      | crashDelivery k =>
        cases of_decide_eq_true hl
        obtain ⟨q, hq, rfl⟩ := Option.map_eq_some_iff.mp hstep
        rw [h.pass] at hq
        cases hq
        exact ⟨done, rest, _, Procs.set_self h.pass, h.split, h.items, h.rows, h.work⟩
      | _ => cases hl
    · have hdb : s'.db = s.db := by
        rw [Bool.not_eq_true] at hl
        simpa [hl] using hsole
      have hj : j < s.deliveries.length := Procs.lt_of h.pass
      obtain ⟨hp, ha⟩ := other_delivery_step hj (Bool.not_eq_true _ ▸ hl) hstep
      exact ⟨done, rest, p, h.frame hp hdb ha⟩
  · cases ht

theorem deliverySweep_start (hst : step cfg s₀ .deliver = some s) :
    ∃ p, DeliverySweep cfg s₀ s₀.deliveries.length s [] (due cfg.order s₀) p := by
  cases hst
  refine ⟨_, Procs.spawn_new, rfl, rfl, ⟨fun _ => 0, ?_⟩, rfl, rfl, [], ?_, .nil⟩
  · have hsame : ∀ o : Order, handedOver (fun _ => 0) [] o = o := fun o => if_neg List.not_mem_nil
    exact ((List.map_congr_left fun o _ => hsame o).trans (List.map_id _)).symm
  · simp [announcements]

theorem deliverySweep_run {s₁ : Sys} {ls : List Lbl} (hu : Table.Unique Order.id s₀.db.orders)
    (h : ∃ done rest p, DeliverySweep cfg s₀ j s₁ done rest p) (hr : (soleDeliveryLts cfg j s₁).Run s₁ ls s) :
    ∃ done rest p, DeliverySweep cfg s₀ j s done rest p := by
  refine hr.keeps (P := fun t => ∃ done rest p, DeliverySweep cfg s₀ j t done rest p) ?_ h
  rintro t l t' hst ⟨done, rest, p, h⟩
  exact deliverySweep_step h hu hst

/-- What has been announced, and what is marked: all of it but perhaps the last order. -/
theorem DeliverySweep.told (h : DeliverySweep cfg s₀ j s done rest p) : ∃ told, Announced s₀ s j told ∧
    (told = done ∨ ∃ o, done = told ++ [o]) ∧ (p.pc = .next → told = done) := by
  have hw := h.work
  unfold DeliveryAt at hw
  split at hw
  · exact ⟨done, hw.2.2, .inl rfl, fun _ => rfl⟩
  · exact ⟨done, hw.2.2, .inl rfl, fun _ => rfl⟩
  · rename_i oid items at_ hpc
    obtain ⟨-, told, o, hdone, -, -, htold⟩ := hw
    exact ⟨told, htold, .inr ⟨o, hdone⟩, fun hn => by rw [hpc] at hn; cases hn⟩
  · rename_i order items at_ hpc
    obtain ⟨-, -, told, o, hdone, -, -, -, htold⟩ := hw
    exact ⟨told, htold, .inr ⟨o, hdone⟩, fun hn => by rw [hpc] at hn; cases hn⟩

/-- A pass that is over, and has not died, has left none. -/
theorem DeliverySweep.over (h : DeliverySweep cfg s₀ j s done rest p) (hal : p.alive = true)
    (hover : p.over = true) : p.pc = .next ∧ rest = [] := by
  simp only [DeliveryPass.over, hal, Bool.not_true, Bool.false_or, Bool.and_eq_true, decide_eq_true_eq] at hover
  have hw := h.work
  unfold DeliveryAt at hw
  rw [hover.1] at hw
  exact ⟨hover.1, List.map_eq_nil_iff.mp (hw.1.symm.trans hover.2)⟩

/-- **A delivery pass works on a prefix.** Whatever orders table it finds, and at every moment, dead
or alive: of the orders it selected, the first ones are marked delivered and announced, in order and
once each; the last of these may not have been announced yet, or never will be; nothing else in the
tables has changed, and a pass that has got through has marked and announced them all. -/
theorem delivery_prefix (cfg : Config) {s₀ s₁ s : Sys} (hu : Table.Unique Order.id s₀.db.orders)
    (hstart : step cfg s₀ .deliver = some s₁) {ls : List Lbl}
    (hr : (soleDeliveryLts cfg s₀.deliveries.length s₁).Run s₁ ls s) {p : DeliveryPass}
    (hp : s.deliveries[s₀.deliveries.length]? = some p) :
    ∃ done rest told, (∀ o, o ∈ done ++ rest ↔ o ∈ s₀.db.orders ∧ o.status = .paid ∧ o.delivered = false ∧
        o.updatedAt + cfg.order.deliverySimulationDelaySeconds < s₀.now) ∧
      (done ++ rest).Nodup ∧
      (∃ t, s.db.orders = s₀.db.orders.map (handedOver t done)) ∧ s.db.items = s₀.db.items ∧
      (∃ evs, announcements s₀.deliveries.length s = announcements s₀.deliveries.length s₀ ++ evs ∧
        List.Forall₂ (Announces s₀.db) told evs) ∧
      (told = done ∨ ∃ o, done = told ++ [o]) ∧
      (p.alive = true → p.over = true → rest = [] ∧ told = done) := by
  obtain ⟨p₀, h0⟩ := deliverySweep_start hstart
  obtain ⟨done, rest, q, h⟩ := deliverySweep_run hu ⟨_, _, p₀, h0⟩ hr
  rw [h.pass] at hp
  cases hp
  obtain ⟨told, htold, hlast, hnext⟩ := h.told
  refine ⟨done, rest, told, ?_, h.split ▸ hu.nodup.filter _, h.rows, h.items, htold, hlast, ?_⟩
  · intro o
    rw [h.split, due, List.mem_filter, decide_eq_true_eq]
  · intro hal hover
    obtain ⟨hpc, hrest⟩ := h.over hal hover
    exact ⟨hrest, hnext hpc⟩

/-- Two orders are due; one is not yet, one has been delivered, one is PENDING. -/
def paidTable : Sys :=
  { start [] with
    db := ⟨[⟨"o1", "u1", .paid, 40, "k1", true, none, false, 0, 0⟩,
      ⟨"o2", "u1", .paid, 10, "k2", true, none, true, 0, 20⟩,
      ⟨"o3", "u2", .paid, 10, "k3", true, none, false, 5, 9⟩,
      ⟨"o4", "u2", .paid, 30, "k4", true, none, false, 6, 80⟩,
      ⟨"o5", "u2", .pending, 30, "k5", true, none, false, 6, 7⟩],
      [⟨"o1", "p1", 1⟩, ⟨"o3", "p2", 1⟩, ⟨"o1", "p2", 1⟩, ⟨"o4", "p1", 1⟩]⟩
    now := 100 }

/-- The pass dies after it has marked the second order. -/
def dyingDelivery : List Lbl :=
  let next := Lbl.delivery 0
  [next .next, next .commit, next .load, next (.publish true), next .next, next .commit, .crashDelivery 0]

/-- One announcement; two orders marked. -/
def markedTwo (s : Sys) : Bool :=
  (s.deliveries[0]?).isSome && announcements 0 s = [.delivered "o1" "u1" ["p1", "p2"] 100] &&
    s.db.orders.map Order.delivered = [true, true, true, false, false]

theorem delivery_prefix_dying : ∃ s done rest told, markedTwo s = true ∧
    (∀ o, o ∈ done ++ rest ↔ o ∈ paidTable.db.orders ∧ o.status = .paid ∧ o.delivered = false ∧
      o.updatedAt + 30 < 100) ∧
    (∃ t, s.db.orders = paidTable.db.orders.map (handedOver t done)) ∧
    (∃ evs, announcements 0 s = announcements 0 paidTable ++ evs ∧
      List.Forall₂ (Announces paidTable.db) told evs) := by
  obtain ⟨s₁, hstart⟩ : ∃ s₁, step {} paidTable .deliver = some s₁ := ⟨_, rfl⟩
  obtain ⟨s, hr, hs⟩ : ∃ s, (soleDeliveryLts {} 0 s₁).Run s₁ dyingDelivery s ∧ markedTwo s = true := by
    cases hstart
    exact LTS.exists_run_of_exec dyingDelivery (by decide +kernel)
  have hsome : (s.deliveries[0]?).isSome = true := by
    simp only [markedTwo, Bool.and_eq_true] at hs
    exact hs.1.1
  obtain ⟨p, hp⟩ := Option.isSome_iff_exists.mp hsome
  obtain ⟨done, rest, told, hsel, -, hrows, -, htold, -⟩ :=
    delivery_prefix {} (by unfold Table.Unique; decide) hstart hr hp
  exact ⟨s, done, rest, told, hs, hsel, hrows, htold⟩

end Gestalt.Checkout
