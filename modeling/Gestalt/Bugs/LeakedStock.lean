import Gestalt.Bugs.OverCredit

/-!
# Crash recovery forgets reserved units

Status: open.

Behaviour: `create_order` reserves its lines one call at a time and commits
`stock_reserved` once, after the loop
(services/order-service/app/routers/orders.py:117-156). A run that crashes
before that commit, or while it gives back what it had reserved before a refused
line, leaves a PENDING order that holds units and does not say so. The pass takes
it for one "with nothing to compensate" and commits FAILED without a release
(services/order-service/app/reconciliation.py:38-48).

Documented: reconciliation.py:4-7, such an order "either had stock reserved
(release it) or didn't (nothing to compensate)".

Counterexample: `crashReserving`, where the run crashes after the first of its
two reservations; and `crashRollback`, where it crashes before it gives back the
one line it holds.

Fix: commit the line as reserved before (or with) each reservation, and release
every line of a crashed order that may be held, with an idempotent release.
-/
namespace Gestalt.Checkout

open Gestalt.Orders (Order OrderItem Line linesOf)

variable {cfg : Config} {cat : Catalog.Products} {s s' : Sys}

/-! ## The runs that go wrong -/

/-- The timeout passes, and a whole pass over the one order, which it takes for
one with nothing to release. -/
def emptyPass : List Lbl :=
  List.replicate 61 .tick ++ [.recon, .pass 0 .next, .pass 0 .commit, .pass 0 .load, .pass 0 (.publish true),
    .pass 0 (.clear .answered)]

/-- The run crashes between its two reservations. -/
def crashReserving : List Lbl :=
  pens ++ upToReserve 0 "o1" ++ [.saga 0 (.reserve .answered), .crash 0] ++ emptyPass

/-- The second line is refused; the run crashes before it gives the first one back. -/
def crashRollback : List Lbl :=
  [.request ⟨"u1", some "k1", some [twoPens, twoInks]⟩] ++ upToReserve 0 "o1" ++
    [.saga 0 (.reserve .answered), .saga 0 (.reserve .answered), .crash 0] ++ emptyPass

/-- The run, one of the recovery setting, ends with every pass through, no order
PENDING, and units missing. -/
def Leaked (ls : List Lbl) : Prop :=
  ∃ s, ((lts {} shop).restrict fun s l => crashRecovery s l = true).Run (start shop) ls s ∧
    (∀ q ∈ s.passes, q.todo = [] ∧ q.pc = .next) ∧ (∀ o ∈ s.db.orders, o.status ≠ .pending) ∧
    Catalog.stockOf s.cat "p1" + paidQty s "p1" < Catalog.stockOf shop "p1"

theorem leaked_of {ls : List Lbl} (h : ((LTS.execG (fun s l => crashRecovery s l = true) (step {})
    (start shop) ls).any fun s => decide ((∀ q ∈ s.passes, q.todo = [] ∧ q.pc = .next) ∧
      (∀ o ∈ s.db.orders, o.status ≠ .pending) ∧
      Catalog.stockOf s.cat "p1" + paidQty s "p1" < Catalog.stockOf shop "p1")) = true) : Leaked ls := by
  obtain ⟨s, hr, hs⟩ := LTS.exists_run_of_execG ls h
  exact ⟨s, hr, of_decide_eq_true hs⟩

/-- **Counterexample.** A crash in the reservation loop, and one in the rollback. -/
theorem stock_leaked : Leaked crashReserving ∧ Leaked crashRollback :=
  ⟨leaked_of (by decide +kernel), leaked_of (by decide +kernel)⟩

/-! ## When they do not -/

/-- The order's run holds nothing. -/
def Sys.emptyHanded (s : Sys) (oid : String) : Bool :=
  s.sagas.all fun g => match g.phase with
    | .saga oid' pc => oid' ≠ oid || pc.holding g.rawItems = []
    | _ => true

/-- Releases reach catalog-service; no reservation that takes effect is reported
as failed; and a pass commits FAILED only for an order whose run has crashed,
and which it saw with `stock_reserved` or whose run holds nothing. -/
def compensates (s : Sys) (l : Lbl) : Bool :=
  releaseHandled l && !ambiguousReserve s l && match l with
    | .pass j .commit =>
      match s.passes[j]? with
      | some ⟨_, _, .release order _ [], _⟩ =>
        s.crashed order.id && (order.stockReserved || s.emptyHanded order.id)
      | _ => true
    | _ => true

def compensatingLts (cfg : Config) (cat : Catalog.Products) : LTS Sys Lbl :=
  (lts cfg cat).restrict fun s l => compensates s l = true

theorem compensates_commit {j : Nat} {q : Pass} {order : Order} {items : List OrderItem}
    (h : compensates s (.pass j .commit) = true) (hj : s.passes[j]? = some q)
    (hpc : q.pc = .release order items []) :
    s.crashed order.id = true ∧ (order.stockReserved = true ∨ s.emptyHanded order.id = true) := by
  obtain ⟨snap, todo, pc, alive⟩ := q
  simp only at hpc
  subst hpc
  simpa [compensates, hj, releaseHandled, ambiguousReserve] using h

theorem emptyHanded_run {oid : String} (h : s.emptyHanded oid = true) {i : Nat} {g : Saga} {pc : Pc}
    (hg : s.sagas[i]? = some g) (hp : g.phase = .saga oid pc) : pc.holding g.rawItems = [] := by
  have := List.all_eq_true.mp h g (List.mem_of_getElem? hg)
  simpa [hp] using this

structure Compensated (s : Sys) : Prop where
  /-- what a pass has still to release, and what the passes have released, cover the order -/
  part : ∀ (j : Nat) (q : Pass) (order : Order) (items todo : List OrderItem), s.passes[j]? = some q →
    q.pc = .release order items todo → order.stockReserved = true → ∀ p,
    qty (items.map OrderItem.line) p ≤ passNet s order.id p + qty (todo.map OrderItem.line) p
  /-- the passes have released what a FAILED order's run holds -/
  failed : ∀ (i : Nat) (g : Saga) (oid : String) (pc : Pc), s.sagas[i]? = some g →
    g.phase = .saga oid pc → ∀ o ∈ s.db.orders, o.id = oid → o.status = .failed →
    (g.alive = true → pc.outcome = some .failed) ∧ ∀ p, qty (pc.holding g.rawItems) p ≤ passNet s oid p

theorem passNet_nonneg (h : (lts cfg cat).Reachable s) (oid p : String) : 0 ≤ passNet s oid p := by
  have hind : (lts cfg cat).Inductive fun s => 0 ≤ passNet s oid p := by
    refine ⟨?_, fun s l s' I hst => Int.le_trans I (passNet_le hst oid p)⟩
    intro s hs; subst hs; exact Int.le_refl _
  exact hind.reachable s h

/-- A run that has reserved all its lines holds no more than those. -/
theorem AccountOk.holding_le {i : Nat} {g : Saga} {pc : Pc} (A : AccountOk s i g pc)
    (hpos : ∀ l ∈ g.rawItems, 0 < l.quantity) (hm : pc.marked ≠ some false) (p : String) :
    qty (pc.holding g.rawItems) p ≤ qty g.rawItems p := by
  cases pc with
  | release b todo reason =>
    cases b with
    | partialRollback => exact absurd rfl hm
    | paymentFailed =>
      obtain ⟨released, hr⟩ := A.rest todo reason rfl
      have h0 : 0 ≤ qty released p :=
        qty_nonneg (fun l hl => hpos l (by rw [← hr]; exact List.mem_append_left _ hl)) p
      rw [Pc.holding, ← hr, qty_append]
      omega
  | ended b f =>
    cases b with
    | true => exact Int.le_refl _
    | false => exact qty_nonneg hpos p
  | created => exact absurd rfl hm
  | reserve held todo => exact absurd rfl hm
  | _ => exact Int.le_refl _

/-- What a release that takes effect adds. -/
theorem PassRelease.gain {j : Nat} {d : Delivery} {q : Pass} {order : Order} {items : List OrderItem}
    {it : OrderItem} {todo : List OrderItem} (hr : PassRelease s j d q order items it todo s')
    (hd : d.handled = true) (hknown : 0 < it.quantity ∧ Catalog.Exists s.cat it.productId) (p : String) :
    passNet s' order.id p = passNet s order.id p + if it.productId = p then it.quantity else 0 := by
  rw [hr.adds, if_pos rfl]
  have hsucc := Catalog.release_succeeds order.id hknown.1 hknown.2
  simp only [Issued.delta, hd, hsucc, Bool.and_self, if_true, OrderItem.line]
  rfl

/-- The items of an order its row says is reserved. -/
theorem pass_items_known (hs : (lts cfg cat).Reachable s) {j : Nat} {q : Pass} {order : Order}
    {items todo : List OrderItem} (hj : s.passes[j]? = some q) (hpc : q.pc = .release order items todo)
    (hres : order.stockReserved = true) : ∀ it ∈ items, 0 < it.quantity ∧ Catalog.Exists s.cat it.productId := by
  obtain ⟨-, hlines, -, hr⟩ := (passes_reachable hs j q hj).work order items todo hpc
  intro it hit
  exact reserved_known hs order.id (hr hres) it.line (by rw [← hlines]; exact List.mem_map_of_mem hit)

theorem part_step {l : Lbl} (hs : (lts cfg cat).Reachable s) (C : Compensated s)
    (hl : releaseHandled l = true) (h : step cfg s l = some s') {j : Nat} {q' : Pass} {order : Order}
    {items todo : List OrderItem} (hj : s'.passes[j]? = some q') (hpc : q'.pc = .release order items todo)
    (hres : order.stockReserved = true) (p : String) :
    qty (items.map OrderItem.line) p ≤ passNet s' order.id p + qty (todo.map OrderItem.line) p := by
  have hgrow := passNet_le h order.id p
  rcases releasing_origin h hj hpc with ⟨q, hq, hqpc⟩ | hfresh | ⟨d, q, it, rfl, hq, hqpc⟩
  · have := C.part j q order items todo hq hqpc hres p
    omega
  · rw [if_pos hres] at hfresh
    have := passNet_nonneg (hs.step h) order.id p
    rw [hfresh]; omega
  · -- one line released
    have hbefore := C.part j q order items (it :: todo) hq hqpc hres p
    obtain ⟨-, -, ⟨released, hwork⟩, -⟩ := (passes_reachable hs j q hq).work order items (it :: todo) hqpc
    rw [if_pos hres] at hwork
    have hknown := pass_items_known hs hq hqpc hres it (by rw [← hwork]; simp)
    rcases pass_step h with ⟨-, hno⟩ | ⟨j', d', q1, o1, is1, i1, t1, he, hr⟩
    · exact absurd rfl (hno j d)
    · simp only [Lbl.pass.injEq, Act.release.injEq] at he
      obtain ⟨rfl, rfl⟩ := he
      have hq1 := hr.pass
      rw [hq, Option.some.injEq] at hq1; subst hq1
      have hpc1 := hr.pc
      rw [hqpc] at hpc1; cases hpc1
      have hgain := hr.gain hl hknown p
      simp only [List.map_cons, qty_cons, OrderItem.line] at hbefore ⊢
      rw [hgain]; omega

/-- The commit of FAILED by a pass. -/
theorem pass_failed (hs : (lts cfg cat).Reachable s) (C : Compensated s) {j : Nat} {q : Pass} {order : Order}
    {items : List OrderItem} (hj : s.passes[j]? = some q) (hpc : q.pc = .release order items [])
    (hcov : order.stockReserved = true ∨ s.emptyHanded order.id = true) {i : Nat} {g : Saga} {pc : Pc}
    (hg : s.sagas[i]? = some g) (hp : g.phase = .saga order.id pc) (p : String) :
    qty (pc.holding g.rawItems) p ≤ passNet s order.id p := by
  rcases hcov with hres | hempty
  · have hpart := C.part j q order items [] hj hpc hres p
    obtain ⟨-, hlines, -, hr⟩ := (passes_reachable hs j q hj).work order items [] hpc
    obtain ⟨-, -, -, -, -, hraw, -⟩ := ((keys_reachable hs).saga i g hg).own order.id pc hp
    have hpos : ∀ l ∈ g.rawItems, 0 < l.quantity := by
      intro l hl
      exact (reserved_known hs order.id (hr hres) l (by rw [hraw]; exact hl)).1
    have hmark : pc.marked ≠ some false := by
      intro hm
      obtain ⟨o, ho, hid, hst⟩ := hr hres
      have := (rows_reachable hs i g order.id pc hg hp o ho hid).marked false hm
      rw [hst] at this; cases this
    have hle := (accounts_reachable hs i g order.id pc hg hp).holding_le hpos hmark p
    rw [hlines, hraw, List.map_nil, qty_nil] at hpart
    omega
  · rw [emptyHanded_run hempty hg hp]
    exact passNet_nonneg hs order.id p

/-- **Step lemma.** -/
theorem compensated_step {l : Lbl} (hs : (lts cfg cat).Reachable s) (C : Compensated s)
    (hl : compensates s l = true) (h : step cfg s l = some s') : Compensated s' := by
  have K := keys_reachable hs
  have K' := keys_reachable (hs.step h)
  have hrel : releaseHandled l = true := (Bool.and_eq_true_iff.mp (Bool.and_eq_true_iff.mp hl).1).1
  refine ⟨fun j q' order items todo hj hpc hres => part_step hs C hrel h hj hpc hres, ?_⟩
  intro i g' oid pc' hg' hp' o' ho' hid' hst'
  have hgrow := passNet_le h oid
  have h0 := passNet_nonneg (hs.step h) oid
  -- a run that has committed FAILED holds nothing
  have hdone : pc'.outcome = some .failed → (g'.alive = true → pc'.outcome = some .failed) ∧
      ∀ p, qty (pc'.holding g'.rawItems) p ≤ passNet s' oid p := by
    intro hout
    refine ⟨fun _ => hout, fun p => ?_⟩
    rw [holding_failed hout]; exact h0 p
  have hold : ∀ o ∈ s.db.orders, o.id = oid → ∃ g pc, s.sagas[i]? = some g ∧ RunFrom s g oid pc g' pc' :=
    fun o ho hid => hid ▸ run_before K h hg' (hid ▸ hp') ho
  cases row_step K h ho' with
  | new hpend => rw [hpend] at hst'; cases hst'
  | kept o ho hid hst =>
    obtain ⟨g, pc, hg, hfrom⟩ := hold o ho (hid.trans hid')
    have hp := hfrom.phase
    obtain ⟨hal, hle⟩ := C.failed i g oid pc hg hp o ho (hid.trans hid') (hst.trans hst')
    cases ha : g.alive with
    | true => exact hdone (hfrom.outcome (hal ha))
    | false =>
      have he := hfrom.dead ha
      subst he
      rw [hp] at hp'; cases hp'
      refine ⟨fun hal' => ?_, fun p => Int.le_trans (hle p) (hgrow p)⟩
      rw [ha] at hal'; cases hal'
  | run k g pc pc1 a e o hg hal hp hm hg1 ho he =>
    subst he
    rw [onRow_id] at hid'
    subst hid'
    obtain ⟨rfl, rfl, rfl⟩ := K'.run_eq hg1 hg' rfl hp'
    -- FAILED before, by the run itself; or its commit of FAILED
    have hbefore : o.status = .failed → pc1.outcome = some .failed := by
      intro hf
      exact hm.outcome ((C.failed k g o.id pc hg hp o ho rfl hf).1 hal)
    refine hdone ?_
    cases hm with
    | failed b reason => rfl
    | marked held => exact hbefore (by simpa [Eff.onRow] using hst')
    | paid => simp [Eff.onRow] at hst'
    | _ => exact hbefore hst'
  | pass j q order items o hl' hj hpc ho hid hoid hst hres =>
    subst hl'
    obtain ⟨hcrash, hcov⟩ := compensates_commit hl hj hpc
    have hoo : oid = order.id := hid'.symm.trans (hid.symm.trans hoid)
    subst hoo
    obtain ⟨g, pc, hg, hfrom⟩ := hold o ho hoid
    have hp := hfrom.phase
    have ha := crashed_run hcrash hg hp
    have he := hfrom.dead ha
    subst he
    rw [hp] at hp'; cases hp'
    refine ⟨fun hal' => ?_, fun p => Int.le_trans (pass_failed hs C hj hpc hcov hg hp p) (hgrow p)⟩
    rw [ha] at hal'; cases hal'

theorem compensated_reachable (h : (compensatingLts cfg cat).Reachable s) : Compensated s := by
  refine LTS.reachable_induct ?_ ?_ h
  · intro s hs; subst hs
    refine ⟨fun j q order items todo hj => ?_, fun i g oid pc hg => ?_⟩
    · simp [start] at hj
    · simp [start] at hg
  · intro s l s' hr C hst; exact compensated_step hr.unrestrict C hst.2 hst.1

/-- **No stock leak**, in every run in which releases succeed, no reservation that
takes effect is reported as failed, and a pass commits FAILED only for an order
whose run has crashed, and which it saw with `stock_reserved` or whose run holds
nothing. -/
theorem no_stock_leak (cfg : Config) (cat : Catalog.Products) (s : Sys)
    (h : (compensatingLts cfg cat).Reachable s) (hdone : ∀ o ∈ s.db.orders, o.status ≠ .pending) :
    (∀ p, Catalog.stockOf cat p ≤ Catalog.stockOf s.cat p + paidQty s p) ∧
    ∀ o ∈ s.db.orders, o.status = .failed → ∀ p, 0 ≤ orderNet s o.id p := by
  have hs := h.unrestrict
  have hamb : ∀ x ∈ s.trace, x.ambiguous = false :=
    unambiguous_reachable (h.mono fun s l hl => by
      have := (Bool.and_eq_true_iff.mp (Bool.and_eq_true_iff.mp hl).1).2
      simpa using this)
  have hrel : ∀ i, Released s i :=
    released_reachable (h.mono fun s l hl => (Bool.and_eq_true_iff.mp (Bool.and_eq_true_iff.mp hl).1).1)
  -- what is left in the account of an order of a known status
  have hbal : ∀ o ∈ s.db.orders, ∀ p, 0 ≤ balance s o p := by
    intro o ho p
    obtain ⟨i, g, pc, hg, hp, hrow, hlines⟩ := row_owner hs ho
    have hex := (accounts_reachable hs i g o.id pc hg hp).exact hamb (hrel i) p
    unfold balance
    rw [orderNet_eq hs hg hp p]
    cases hst : o.status with
    | pending => exact absurd hst (hdone o ho)
    | paid =>
      have hheld := holding_paid (hrow.paid hst) g.rawItems
      have := passNet_nonneg hs o.id p
      rw [hheld] at hex
      rw [if_pos rfl, hlines]; omega
    | failed =>
      have := ((compensated_reachable h).failed i g o.id pc hg hp o ho rfl hst).2 p
      rw [if_neg (by simp)]; omega
  refine ⟨fun p => ?_, fun o ho hst p => ?_⟩
  · have hsum : 0 ≤ (s.db.orders.map fun o => balance s o p).sum := by
      apply List.sum_nonneg
      intro x hx
      obtain ⟨o, ho, rfl⟩ := List.mem_map.mp hx
      exact hbal o ho p
    have := books_paid hs p
    omega
  · have hb := hbal o ho p
    unfold balance at hb
    rw [if_neg (by simp [hst])] at hb
    omega

/-- `no_stock_leak` after `recovered`: the run had committed `stock_reserved`. -/
theorem no_stock_leak_recovered : ∃ s : Sys, s.passes.length = 1 ∧
    Catalog.stockOf shop "p1" ≤ Catalog.stockOf s.cat "p1" + paidQty s "p1" := by
  have hrun : ∃ s, (compensatingLts {} shop).Reachable s ∧
      (s.passes.length = 1 && s.db.orders.all fun o => o.status ≠ .pending) = true :=
    LTS.reachable_of_execG recovered rfl (by decide +kernel)
  obtain ⟨s, hr, hs⟩ := hrun
  obtain ⟨hlen, hdone⟩ := Bool.and_eq_true_iff.mp hs
  have hdone : ∀ o ∈ s.db.orders, o.status ≠ .pending :=
    fun o ho => of_decide_eq_true (List.all_eq_true.mp hdone o ho)
  exact ⟨s, of_decide_eq_true hlen, (no_stock_leak {} shop s hr hdone).1 "p1"⟩

end Gestalt.Checkout
