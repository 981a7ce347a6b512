import Gestalt.L4Checkout.Charges

/-!
# A reconciliation pass works on a prefix

One `run_pass` on any orders table, with nobody else writing to it. The pass may
end early only where `publish_order_event` raises; what the other outbound calls
meet with, `clients.py` swallows.

At each point the orders it selected are `done ++ rest`: those of `done` are
committed FAILED and have had their releases, those of `rest` are as they were,
but for the one that is being released (`Sweep`).
-/
namespace Gestalt.Checkout

open Gestalt.Orders (Db Order OrderItem Line linesOf loadItems)

variable {cfg : Config} {s₀ s s' : Sys} {j : Nat}

/-! ## One pass alone -/

def Lbl.ofPass (j : Nat) : Lbl → Bool
  | .pass k _ => k = j
  | .crashPass k => k = j
  | _ => false

/-- Pass `j` is in `publish_order_event`. -/
def publishing (j : Nat) (s : Sys) : Bool :=
  (s.passes[j]?).any fun p => match p.pc with
    | .announce _ _ => true
    | _ => false

/-- The pass ends early only if the publish raises. -/
def raises (j : Nat) (s : Sys) : Lbl → Bool
  | .crashPass k => k ≠ j || publishing j s
  | _ => true

/-- Anything may go on but a write of somebody else to the orders database. -/
def soleStep (cfg : Config) (j : Nat) (s : Sys) (l : Lbl) : Option Sys :=
  (step cfg s l).bind fun s' =>
    if raises j s l && (l.ofPass j || s'.db = s.db) then some s' else none

def soleLts (cfg : Config) (j : Nat) (s₁ : Sys) : LTS Sys Lbl := LTS.ofFn (· = s₁) (soleStep cfg j)

/-- `run_pass` has returned or raised. -/
def Pass.ended (p : Pass) : Bool := !p.alive || (p.pc = .next && p.todo = [])

/-! ## What it leaves -/

/-- The row `o'` that the order `o` has become, `done` being reconciled. -/
def Swept (done : List Order) (o o' : Order) : Prop :=
  if o ∈ done then ∃ t, o' = { o with
    status := .failed, failureReason := some "RECONCILIATION_TIMEOUT", updatedAt := t }
  else o' = o

/-- The releases an order is owed, one for each line item. -/
def owed (db : Db) (o : Order) : List (String × Line) :=
  if o.stockReserved then (linesOf db o.id).map fun l => (o.id, l) else []

/-- A release of pass `j`, with its order. -/
def Issued.release (j : Nat) (x : Issued) : Option (String × Line) :=
  match x.caller, x.call with
  | .pass k, .release l => if k = j then some (x.orderId, l) else none
  | _, _ => none

def releases (j : Nat) (s : Sys) : List (String × Line) := s.trace.filterMap (Issued.release j)

/-! ## Rows -/

theorem Swept.id {done : List Order} {o o' : Order} (h : Swept done o o') : o'.id = o.id := by
  unfold Swept at h
  split at h
  · obtain ⟨t, rfl⟩ := h
    rfl
  · rw [h]

theorem swept_refl (l : List Order) : List.Forall₂ (Swept []) l l :=
  List.forall₂_same.mpr fun o _ => by simp [Swept]

theorem swept_ids {done l l' : List Order} (h : List.Forall₂ (Swept done) l l') :
    l'.map Order.id = l.map Order.id := by
  induction h with
  | nil => rfl
  | cons hrow _ ih => rw [List.map_cons, List.map_cons, hrow.id, ih]

/-- An order that is not reconciled is still found as it was. -/
theorem swept_find {done l l' : List Order} (h : List.Forall₂ (Swept done) l l')
    (hu : Table.Unique Order.id l) {x : Order} (hx : x ∈ l) (hn : x ∉ done) :
    Table.get Order.id l' x.id = some x := by
  have hmem : x ∈ l' := by
    induction h with
    | nil => cases hx
    | @cons o o' l l' hrow _ ih =>
      rcases List.mem_cons.mp hx with rfl | hx
      · rw [Swept, if_neg hn] at hrow
        rw [hrow]
        exact List.mem_cons_self
      · exact List.mem_cons_of_mem _ (ih (List.Nodup.of_cons hu) hx)
  have hu' : Table.Unique Order.id l' := by
    unfold Table.Unique
    rw [swept_ids h]
    exact hu
  exact hu'.get hmem

theorem reconciliationTimeout_eq : reconciliationTimeout = "RECONCILIATION_TIMEOUT" := by decide

/-- The commit of FAILED for one more order. -/
theorem swept_write {done l l' : List Order} (h : List.Forall₂ (Swept done) l l')
    (hu : Table.Unique Order.id l) {x : Order} (hx : x ∈ l) (hn : x ∉ done) (hp : x.status = .pending)
    (now : Nat) : List.Forall₂ (Swept (done ++ [x])) l
      (Table.modify Order.id l' x.id (Order.set (overdue x) now)) := by
  have hset : (Order.set (overdue x) now x) = { x with
      status := .failed, failureReason := some "RECONCILIATION_TIMEOUT", updatedAt := now } := by
    have hw : overdue x ≠ {} := by simp [overdue, hp]
    rw [Order.set, if_neg hw]
    by_cases hr : x.failureReason = some "RECONCILIATION_TIMEOUT"
    · simp [overdue, hp, reconciliationTimeout_eq, hr]
    · simp [overdue, hp, reconciliationTimeout_eq, hr]
  rw [Table.modify, List.forall₂_map_right_iff]
  have hmem : ∀ o ∈ l, o.id = x.id → o = x := fun o ho he => hu.eq ho hx he
  clear hu hx
  induction h with
  | nil => exact .nil
  | @cons o o' l l' hrow _ ih =>
    refine .cons ?_ (ih fun o ho => hmem o (List.mem_cons_of_mem _ ho))
    by_cases he : o = x
    · subst he
      rw [Swept, if_neg hn] at hrow
      subst hrow
      rw [Swept, if_pos (by simp), if_pos rfl, hset]
      exact ⟨now, rfl⟩
    · have hid : o'.id ≠ x.id := by
        rw [hrow.id]
        exact fun hid => he (hmem o List.mem_cons_self hid)
      rw [if_neg hid]
      unfold Swept at hrow ⊢
      simpa [he] using hrow

/-! ## The invariant -/

/-- Where the pass is, between `done` and `rest`. -/
def PassAt (s₀ s : Sys) (j : Nat) (done rest : List Order) (p : Pass) : Prop :=
  match p.pc with
  | .next => p.alive = true ∧ p.todo = rest.map Order.id ∧ p.snap = s.db ∧
      releases j s = releases j s₀ ++ done.flatMap (owed s₀.db)
  | .release order items todo => p.alive = true ∧
      (∃ rest', rest = order :: rest' ∧ p.todo = rest'.map Order.id) ∧
      items = loadItems s₀.db order.id ∧ ∃ released,
        released ++ todo = (if order.stockReserved then items else []) ∧
        releases j s = releases j s₀ ++ done.flatMap (owed s₀.db) ++
          released.map fun i => (order.id, i.line)
  | .refresh _ _ => p.alive = true ∧ p.todo = rest.map Order.id ∧
      releases j s = releases j s₀ ++ done.flatMap (owed s₀.db)
  -- it may have died here
  | .announce _ _ => p.todo = rest.map Order.id ∧ p.snap = s.db ∧
      releases j s = releases j s₀ ++ done.flatMap (owed s₀.db)
  | .clear _ _ => p.alive = true ∧ p.todo = rest.map Order.id ∧ p.snap = s.db ∧
      releases j s = releases j s₀ ++ done.flatMap (owed s₀.db)

structure Sweep (cfg : Config) (s₀ : Sys) (j : Nat) (s : Sys) (done rest : List Order) (p : Pass) :
    Prop where
  pass : s.passes[j]? = some p
  split : done ++ rest = stuck cfg.order s₀
  items : s.db.items = s₀.db.items
  rows : List.Forall₂ (Swept done) s₀.db.orders s.db.orders
  work : PassAt s₀ s j done rest p

variable {done rest : List Order} {p : Pass}

/-- Others take a step. -/
theorem Sweep.frame (h : Sweep cfg s₀ j s done rest p) (hp : s'.passes[j]? = s.passes[j]?)
    (hdb : s'.db = s.db) (hr : releases j s' = releases j s) : Sweep cfg s₀ j s' done rest p where
  pass := hp.trans h.pass
  split := h.split
  items := by rw [hdb]; exact h.items
  rows := by rw [hdb]; exact h.rows
  work := by
    have hw := h.work
    unfold PassAt at hw ⊢
    rw [hdb, hr]
    exact hw

/-- A step of another process leaves the pass and its releases alone. -/
theorem other_step {l : Lbl} (hj : j < s.passes.length) (hl : l.ofPass j = false)
    (h : step cfg s l = some s') : s'.passes[j]? = s.passes[j]? ∧ releases j s' = releases j s := by
  -- what another caller adds to the log
  have hlog : ∀ (c : Caller) (e : Eff) (t : Sys), c ≠ .pass j → t.trace = s.trace ++ e.issued s c →
      releases j t = releases j s := by
    intro c e t hc ht
    have hnil : (e.issued s c).filterMap (Issued.release j) = [] := by
      refine List.filterMap_eq_nil_iff.mpr fun x hx => ?_
      unfold Issued.release
      split
      · rename_i k l hk _
        rw [issued_caller hx] at hk
        rw [if_neg]
        rintro rfl
        exact hc hk
      · rfl
    rw [releases, ht, List.filterMap_append, hnil, List.append_nil, releases]
  cases l with
  | saga i a =>
    cases step_saga h with
    | prelude g g' e =>
      exact ⟨by simp only [apply_passes], hlog (.saga i) e _ (by simp) (apply_trace s (.saga i) e)⟩
    | saga g oid pc pc' e =>
      exact ⟨by simp only [apply_passes], hlog (.saga i) e _ (by simp) (apply_trace s (.saga i) e)⟩
  | pass k a =>
    have hkj : k ≠ j := of_decide_eq_false hl
    obtain ⟨q, q', e, hq, -, -, rfl⟩ := step_pass h
    refine ⟨List.getElem?_set_ne hkj, hlog (.pass k) e _ ?_ (apply_trace s (.pass k) e)⟩
    simpa using hkj
  | crashPass k =>
    have hkj : k ≠ j := of_decide_eq_false hl
    obtain ⟨q, -, rfl⟩ := Option.map_eq_some_iff.mp h
    exact ⟨List.getElem?_set_ne hkj, rfl⟩
  | recon =>
    cases h
    exact ⟨List.getElem?_append_left hj, rfl⟩
  | delivery k a =>
    obtain ⟨q, q', e, -, -, -, rfl⟩ := step_delivery h
    exact ⟨by simp only [apply_passes], hlog (.delivery k) e _ (by simp) (apply_trace s (.delivery k) e)⟩
  | pay l =>
    simp only [step] at h
    split at h
    · obtain ⟨q, -, rfl⟩ := Option.map_eq_some_iff.mp h
      exact ⟨rfl, rfl⟩
    · cases h
  | crash i | crashDelivery i =>
    obtain ⟨q, -, rfl⟩ := Option.map_eq_some_iff.mp h
    exact ⟨rfl, rfl⟩
  | request r | deliver | cart u lines | tick =>
    cases h
    exact ⟨rfl, rfl⟩

def Eff.released : Eff → List (String × Line)
  | .release l oid _ => [(oid, l)]
  | _ => []

/-- What a step of the pass adds to its releases. -/
theorem releases_append {e : Eff} (h : s'.trace = s.trace ++ e.issued s (.pass j)) :
    releases j s' = releases j s ++ e.released := by
  rw [releases, h, List.filterMap_append, releases]
  congr 1
  cases e <;> simp [Eff.issued, Issued.release, Eff.released]

/-- **Step lemma**: the pass takes a step. -/
theorem Sweep.move {a : Act} {p' : Pass} {e : Eff} (h : Sweep cfg s₀ j s done rest p)
    (hu : Table.Unique Order.id s₀.db.orders) (hal : p.alive = true) (hm : PassMoves s p a p' e)
    (hpasses : s'.passes = s.passes.set j p') (hdb : s'.db = e.onDb s.now s.db)
    (htrace : s'.trace = s.trace ++ e.issued s (.pass j)) :
    ∃ done' rest', Sweep cfg s₀ j s' done' rest' p' := by
  have hsel : ∀ x ∈ rest, x ∈ s₀.db.orders ∧ x.status = .pending ∧ x ∉ done := by
    intro x hx
    have hmem : x ∈ stuck cfg.order s₀ := h.split ▸ List.mem_append_right done hx
    have hnd : (done ++ rest).Nodup := h.split ▸ (hu.nodup.filter _)
    have hx' := List.mem_filter.mp hmem
    simp only [decide_eq_true_eq] at hx'
    exact ⟨hx'.1, hx'.2.1, fun hd => List.disjoint_of_nodup_append hnd hd hx⟩
  have hpass : s'.passes[j]? = some p' := by
    rw [hpasses]
    exact Procs.set_self h.pass
  have hrel := releases_append htrace
  -- the tables stay, unless this is the commit
  have hkeep : e.onDb s.now s.db = s.db → s'.db.items = s₀.db.items ∧
      List.Forall₂ (Swept done) s₀.db.orders s'.db.orders := by
    intro he
    rw [hdb, he]
    exact ⟨h.items, h.rows⟩
  have hw := h.work
  unfold PassAt at hw
  cases hm with
  | took oid todo order hpc htodo hfind =>
    rw [hpc] at hw
    obtain ⟨-, hrest, hsnap, hr⟩ := hw
    rw [htodo] at hrest
    cases hcase : rest with
    | nil => rw [hcase] at hrest; cases hrest
    | cons x rest' =>
      subst hcase
      obtain ⟨rfl, rfl⟩ := List.cons.inj hrest
      -- the row is the one selected
      obtain ⟨hx, -, hn⟩ := hsel x List.mem_cons_self
      have hxo : order = x := by
        rw [hsnap] at hfind
        exact Option.some.inj (hfind.symm.trans (swept_find h.rows hu hx hn))
      subst hxo
      obtain ⟨hitems, hrows⟩ := hkeep rfl
      refine ⟨done, order :: rest', hpass, h.split, hitems, hrows, ?_⟩
      simp only [PassAt, takeUp, hsnap]
      refine ⟨hal, ⟨rest', rfl, rfl⟩, ?_, [], rfl, ?_⟩
      · simp only [loadItems, h.items]
      · rw [hrel, hr]
        simp [Eff.released]
  | released order items i todo d hpc =>
    rw [hpc] at hw
    obtain ⟨-, hrest, hload, released, hreleased, hr⟩ := hw
    obtain ⟨hitems, hrows⟩ := hkeep rfl
    refine ⟨done, rest, hpass, h.split, hitems, hrows, hal, hrest, hload, released ++ [i], ?_, ?_⟩
    · simpa using hreleased
    · rw [hrel, hr]
      simp [Eff.released]
  | failed order items hpc =>
    rw [hpc] at hw
    obtain ⟨-, ⟨rest', rfl, htodo⟩, hload, released, hreleased, hr⟩ := hw
    obtain ⟨hx, hpend, hn⟩ := hsel order List.mem_cons_self
    refine ⟨done ++ [order], rest', hpass, by simpa using h.split, ?_, ?_, hal, htodo, ?_⟩
    · rw [hdb]
      exact h.items
    · rw [hdb]
      exact swept_write h.rows hu hx hn hpend s.now
    · -- every item of the order has been released, or none was owed
      rw [List.append_nil] at hreleased
      have howed : released.map (fun i => (order.id, i.line)) = owed s₀.db order := by
        rw [hreleased, owed]
        split
        · simp [hload, linesOf]
        · rfl
      rw [hrel, hr, howed]
      simp [Eff.released]
  | loaded oid items order hpc hfind =>
    rw [hpc] at hw
    obtain ⟨hitems, hrows⟩ := hkeep rfl
    exact ⟨done, rest, hpass, h.split, hitems, hrows, hw.2.1, hdb.symm, hrel.trans (by simp [hw.2.2, Eff.released])⟩
  | announced order items logged hpc =>
    rw [hpc] at hw
    obtain ⟨hitems, hrows⟩ := hkeep rfl
    exact ⟨done, rest, hpass, h.split, hitems, hrows, hal, hw.1, hw.2.1.trans hdb.symm,
      hrel.trans (by simp [hw.2.2, Eff.released])⟩
  | cleared order items d hpc =>
    rw [hpc] at hw
    obtain ⟨hitems, hrows⟩ := hkeep rfl
    exact ⟨done, rest, hpass, h.split, hitems, hrows, hal, hw.2.1, hw.2.2.1.trans hdb.symm,
      hrel.trans (by simp [hw.2.2.2, Eff.released])⟩

/-- **Step lemma.** -/
theorem sweep_step {l : Lbl} (h : Sweep cfg s₀ j s done rest p)
    (hu : Table.Unique Order.id s₀.db.orders) (hst : soleStep cfg j s l = some s') :
    ∃ done' rest' p', Sweep cfg s₀ j s' done' rest' p' := by
  obtain ⟨t, hstep, ht⟩ := Option.bind_eq_some_iff.mp hst
  split at ht
  · rename_i hguard
    cases ht
    obtain ⟨hraise, hsole⟩ := Bool.and_eq_true_iff.mp hguard
    by_cases hl : l.ofPass j = true
    · cases l with
      | pass k a =>
        cases of_decide_eq_true hl
        obtain ⟨q, q', e, hq, hal, hm, rfl⟩ := step_pass hstep
        rw [h.pass] at hq
        cases hq
        have hmove : ∃ done' rest', Sweep cfg s₀ j
            { s.apply (.pass j) e with passes := s.passes.set j q' } done' rest' q' :=
          h.move hu hal hm rfl (apply_db s (.pass j) e) (apply_trace s (.pass j) e)
        obtain ⟨done', rest', h'⟩ := hmove
        exact ⟨done', rest', q', h'⟩
      | crashPass k =>
        -- the publish raises
        cases of_decide_eq_true hl
        obtain ⟨q, hq, rfl⟩ := Option.map_eq_some_iff.mp hstep
        rw [h.pass] at hq
        cases hq
        refine ⟨done, rest, _, Procs.set_self h.pass, h.split, h.items, h.rows, ?_⟩
        have hw := h.work
        simp only [raises, publishing, h.pass, ne_eq, not_true_eq_false, decide_false, Bool.false_or,
          Option.any_some] at hraise
        unfold PassAt at hw ⊢
        cases hpc : p.pc with
        | announce order items =>
          rw [hpc] at hw
          exact hw
        | _ => rw [hpc] at hraise; cases hraise
      | _ => cases hl
    · have hdb : s'.db = s.db := by
        rw [Bool.not_eq_true] at hl
        simpa [hl] using hsole
      have hj : j < s.passes.length := Procs.lt_of h.pass
      obtain ⟨hp, hr⟩ := other_step hj (Bool.not_eq_true _ ▸ hl) hstep
      exact ⟨done, rest, p, h.frame hp hdb hr⟩
  · cases ht

theorem sweep_start (hst : step cfg s₀ .recon = some s) :
    ∃ p, Sweep cfg s₀ s₀.passes.length s [] (stuck cfg.order s₀) p := by
  cases hst
  refine ⟨_, Procs.spawn_new, rfl, rfl, swept_refl _, rfl, rfl, rfl, ?_⟩
  simp [releases]

theorem sweep_run {s₁ : Sys} {ls : List Lbl} (hu : Table.Unique Order.id s₀.db.orders)
    (h : ∃ done rest p, Sweep cfg s₀ j s₁ done rest p) (hr : (soleLts cfg j s₁).Run s₁ ls s) :
    ∃ done rest p, Sweep cfg s₀ j s done rest p := by
  refine hr.keeps (P := fun t => ∃ done rest p, Sweep cfg s₀ j t done rest p) ?_ h
  rintro t l t' hst ⟨done, rest, p, h⟩
  exact sweep_step h hu hst

/-- **A pass works on a prefix.** Whatever orders table `run_pass` finds, and
wherever it ends: the orders it selected split into those it has committed
FAILED, each having had one release for each line item if its stock was reserved
and none otherwise, and those it has not touched; every other row is as it was,
and unless the publish raised none is left. -/
theorem pass_prefix (cfg : Config) {s₀ s₁ s : Sys} (hu : Table.Unique Order.id s₀.db.orders)
    (hstart : step cfg s₀ .recon = some s₁) {ls : List Lbl}
    (hr : (soleLts cfg s₀.passes.length s₁).Run s₁ ls s) {p : Pass}
    (hp : s.passes[s₀.passes.length]? = some p) (hend : p.ended = true) :
    ∃ done rest, (∀ o, o ∈ done ++ rest ↔ o ∈ s₀.db.orders ∧ o.status = .pending ∧
        o.createdAt + cfg.order.pendingOrderTimeoutSeconds < s₀.now) ∧
      (done ++ rest).Nodup ∧
      List.Forall₂ (Swept done) s₀.db.orders s.db.orders ∧ s.db.items = s₀.db.items ∧
      releases s₀.passes.length s = releases s₀.passes.length s₀ ++ done.flatMap (owed s₀.db) ∧
      (p.alive = true → rest = []) := by
  obtain ⟨p₀, h0⟩ := sweep_start hstart
  obtain ⟨done, rest, q, h⟩ := sweep_run hu ⟨_, _, p₀, h0⟩ hr
  rw [h.pass] at hp
  cases hp
  have hw := h.work
  refine ⟨done, rest, ?_, h.split ▸ hu.nodup.filter _, h.rows, h.items, ?_, ?_⟩
  · intro o
    rw [h.split, stuck, List.mem_filter, decide_eq_true_eq]
  · unfold PassAt at hw
    cases hpc : p.pc with
    | next =>
      rw [hpc] at hw
      exact hw.2.2.2
    | announce order items =>
      rw [hpc] at hw
      exact hw.2.2
    | release order items todo => rw [hpc] at hw; simp [Pass.ended, hw.1, hpc] at hend
    | refresh oid items => rw [hpc] at hw; simp [Pass.ended, hw.1, hpc] at hend
    | clear order items => rw [hpc] at hw; simp [Pass.ended, hw.1, hpc] at hend
  · intro hal
    simp only [Pass.ended, hal, Bool.not_true, Bool.false_or, Bool.and_eq_true, decide_eq_true_eq] at hend
    unfold PassAt at hw
    rw [hend.1] at hw
    have hnil : rest.map Order.id = [] := hw.2.1.symm.trans hend.2
    exact List.map_eq_nil_iff.mp hnil

/-- Three orders are overdue, the first with its stock reserved; one is PAID. -/
def overdueTable : Sys :=
  { start shop with
    db := ⟨[⟨"o1", "u1", .pending, 40, "k1", true, none, false, 0, 0⟩,
      ⟨"o2", "u1", .paid, 10, "k2", true, none, false, 0, 1⟩,
      ⟨"o3", "u2", .pending, 10, "k3", false, none, false, 5, 5⟩,
      ⟨"o4", "u2", .pending, 30, "k4", true, none, false, 6, 6⟩],
      [⟨"o1", "p1", 1⟩, ⟨"o2", "p1", 1⟩, ⟨"o1", "p2", 1⟩, ⟨"o3", "p1", 1⟩, ⟨"o4", "p2", 1⟩]⟩
    now := 100 }

/-- One release is lost on the way; the publish of the second order raises. -/
def raisingPass : List Lbl :=
  let next := Lbl.pass 0
  [next .next, next (.release .answered), next (.release (.dropped (.httpError "ConnectError"))),
    next .commit, next .load, next (.publish true), next (.clear .answered), next .next, next .commit,
    next .load, .crashPass 0]

/-- The pass has died, and released the two items of `o1`. -/
def diedAfterTwo (s : Sys) : Bool :=
  (s.passes[0]?).any Pass.ended && releases 0 s = [("o1", ⟨"p1", 1⟩), ("o1", ⟨"p2", 1⟩)]

theorem pass_prefix_raising : ∃ s done rest, diedAfterTwo s = true ∧
    (∀ o, o ∈ done ++ rest ↔ o ∈ overdueTable.db.orders ∧ o.status = .pending ∧ o.createdAt + 60 < 100) ∧
    List.Forall₂ (Swept done) overdueTable.db.orders s.db.orders ∧
    releases 0 s = done.flatMap (owed overdueTable.db) := by
  obtain ⟨s₁, hstart⟩ : ∃ s₁, step {} overdueTable .recon = some s₁ := ⟨_, rfl⟩
  obtain ⟨s, hr, hs⟩ : ∃ s, (soleLts {} 0 s₁).Run s₁ raisingPass s ∧ diedAfterTwo s = true := by
    cases hstart
    exact LTS.exists_run_of_exec raisingPass (by decide +kernel)
  obtain ⟨p, hp, hend⟩ := (Option.any_eq_true _ _).mp (Bool.and_eq_true_iff.mp hs).1
  obtain ⟨done, rest, hsel, -, hrows, -, hrel, -⟩ := pass_prefix {} (by unfold Table.Unique; decide) hstart hr hp hend
  exact ⟨s, done, rest, hs, hsel, hrows, hrel⟩

end Gestalt.Checkout
