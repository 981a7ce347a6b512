import Gestalt.L4Checkout.Charges
import Gestalt.L4Checkout.Recovery

/-!
# Crash recovery releases twice

Status: open.

Behaviour: a reconciliation pass releases every item of a PENDING order with
`stock_reserved` (services/order-service/app/reconciliation.py:40-44). The
column is not cleared when a release has been sent: `create_order` releases all
lines after a declined charge and only then commits FAILED
(services/order-service/app/routers/orders.py:162-168), and so does the pass
itself. A crash between the first release and that commit leaves a PENDING order
with `stock_reserved`, whose lines the next pass releases again. So does a pass
that selected the order before its run committed PAID or FAILED and crashed.

Documented: IMPLEMENTATION_DECISIONS.md:484-488, the column is there so that a
release is never sent that would "incorrectly over-credit stock".

Counterexample: `crashReleasing`, where the run crashes after one of its two
releases; and `passCrashes`, where the run crashes before its charge and the
first pass crashes after one of its two releases.

Fix: give a release an idempotency key (the order and the line), which
catalog-service applies once; or commit per line what has been released.
-/
namespace Gestalt.Checkout

open Gestalt.Orders (Db Order OrderItem Line Core cores linesOf)

variable {cfg : Config} {cat : Catalog.Products} {s s' : Sys}

/-! ## The runs that go wrong -/

/-- The timeout passes, and pass `j` releases the lines of its order. -/
def nextPass (j : Nat) : List Lbl :=
  List.replicate 61 .tick ++ [.recon, .pass j .next, .pass j (.release .answered)]

/-- The charge is declined; the run crashes between its two releases. -/
def crashReleasing : List Lbl :=
  pens ++ upToCharge 0 "o1" ++ serveCharge 0 none ++
    [.saga 0 .settle, .saga 0 (.release .answered), .crash 0] ++ nextPass 0 ++ [.pass 0 (.release .answered)]

/-- The run crashes before its charge; the first pass crashes between its two releases. -/
def passCrashes : List Lbl :=
  pens ++ (upToCharge 0 "o1").dropLast ++ [.crash 0] ++ nextPass 0 ++ [.crashPass 0, .recon, .pass 1 .next,
    .pass 1 (.release .answered), .pass 1 (.release .answered)]

/-- The run, one of the recovery setting, ends with more units than there were. -/
def OverCredited (ls : List Lbl) : Prop :=
  ∃ s, ((lts {} shop).restrict fun s l => crashRecovery s l = true).Run (start shop) ls s ∧
    Catalog.stockOf shop "p1" < Catalog.stockOf s.cat "p1" + paidQty s "p1"

theorem overCredited_of {ls : List Lbl} (h : ((LTS.execG (fun s l => crashRecovery s l = true) (step {})
    (start shop) ls).any fun s =>
      decide (Catalog.stockOf shop "p1" < Catalog.stockOf s.cat "p1" + paidQty s "p1")) = true) :
    OverCredited ls := by
  obtain ⟨s, hr, hs⟩ := LTS.exists_run_of_execG ls h
  exact ⟨s, hr, of_decide_eq_true hs⟩

/-- **Counterexample.** A crash between the releases of a run, and of a pass. -/
theorem stock_over_credited : OverCredited crashReleasing ∧ OverCredited passCrashes :=
  ⟨overCredited_of (by decide +kernel), overCredited_of (by decide +kernel)⟩

/-! ## When they do not -/

/-- The order's run has crashed holding all its lines. -/
def Sys.heldByCrashed (s : Sys) (oid : String) : Bool :=
  s.sagas.any fun g => !g.alive && match g.phase with
    | .saga oid' pc => oid' = oid && pc.holding g.rawItems = g.rawItems
    | _ => false

/-- A pass sends a release for an order only if the order's run has crashed
holding all its lines, the order is not PAID, and no other pass has sent one. -/
def owedRelease (s : Sys) : Lbl → Bool
  | .pass j (.release _) =>
    match s.passes[j]? with
    | some ⟨_, _, .release order _ _, _⟩ =>
      s.heldByCrashed order.id && ((Orders.find s.db order.id).all fun o => o.status ≠ .paid) &&
        s.trace.all fun x => x.orderId = order.id → x.caller.isPass = true → x.isRelease = true →
          x.caller = .pass j
    | _ => true
  | _ => true

def owedLts (cfg : Config) (cat : Catalog.Products) : LTS Sys Lbl :=
  (lts cfg cat).restrict fun s l => owedRelease s l = true

/-- Pass `j` has released a part of the order, and may release the rest. -/
structure Part (s : Sys) (g : Saga) (oid : String) (pc : Pc) (j : Nat) : Prop where
  dead : g.alive = false
  held : pc.holding g.rawItems = g.rawItems
  unpaid : ∀ o ∈ s.db.orders, o.id = oid → o.status ≠ .paid
  sent : ∃ x ∈ s.trace, x.orderId = oid ∧ x.isRelease = true ∧ x.caller = .pass j
  part : ∃ q released todo, s.passes[j]? = some q ∧ released ++ todo = g.rawItems ∧ q.Owes oid todo ∧
    ∀ p, passNet s oid p ≤ qty released p

/-- Of each order the passes have released nothing, or one of them a part. -/
def Credit (s : Sys) : Prop :=
  ∀ (i : Nat) (g : Saga) (oid : String) (pc : Pc), s.sagas[i]? = some g → g.phase = .saga oid pc →
    (∀ p, passNet s oid p = 0) ∨ ∃ j, Part s g oid pc j

/-- A step that releases nothing for the order. -/
theorem Part.step {l : Lbl} {i : Nat} {g : Saga} {oid : String} {pc : Pc} {j : Nat}
    (h : step cfg s l = some s') (K : Keys s.db s.sagas) (Q : Passes s) (P : Part s g oid pc j)
    (hg : s.sagas[i]? = some g) (hp : g.phase = .saga oid pc) (hnet : ∀ p, passNet s' oid p = passNet s oid p)
    (hn : ∀ (q : Pass) (d : Delivery), s.passes[j]? = some q → l = .pass j (.release d) →
      ∀ order items rest, q.pc = .release order items rest → order.id ≠ oid) : Part s' g oid pc j := by
  obtain ⟨q, released, todo, hj, hsplit, ho, hle⟩ := P.part
  obtain ⟨q', hj', ho'⟩ := owes_step Q h hj ho (hn q · hj)
  obtain ⟨c, e, -, -, htr⟩ := step_effect h
  refine ⟨P.dead, P.held, ?_, ?_, q', released, todo, hj', hsplit, ho', fun p => (hnet p) ▸ hle p⟩
  · intro o' hmem hid hpaid
    subst hid
    rcases paid_origin K h hmem hpaid with ⟨o, ho, hid, hst⟩ | ⟨k, g', pc', hk, hp', hal⟩
    · exact P.unpaid o ho hid hst
    · obtain ⟨-, rfl, -⟩ := K.run_eq hk hg hp' hp
      rw [P.dead] at hal; cases hal
  · obtain ⟨x, hx, hrest⟩ := P.sent
    exact ⟨x, by rw [htr]; exact List.mem_append_left _ hx, hrest⟩

/-- What the condition says of the order a pass releases for. -/
theorem owedRelease_order {j : Nat} {d : Delivery} {q : Pass} {order : Order} {items rest : List OrderItem}
    (h : owedRelease s (.pass j (.release d)) = true) (hj : s.passes[j]? = some q)
    (hpc : q.pc = .release order items rest) :
    (∃ (i : Nat) (g : Saga) (pc : Pc), s.sagas[i]? = some g ∧ g.alive = false ∧
      g.phase = .saga order.id pc ∧ pc.holding g.rawItems = g.rawItems) ∧
    (∀ o, Orders.find s.db order.id = some o → o.status ≠ .paid) ∧
    ∀ x ∈ s.trace, x.orderId = order.id → x.caller.isPass = true → x.isRelease = true →
      x.caller = .pass j := by
  obtain ⟨snap, todo, pc, alive⟩ := q
  simp only at hpc
  subst hpc
  simp only [owedRelease, hj, Bool.and_eq_true] at h
  obtain ⟨⟨hheld, hpaid⟩, hsole⟩ := h
  refine ⟨?_, fun o ho => ?_, fun x hx => of_decide_eq_true (List.all_eq_true.mp hsole x hx)⟩
  · obtain ⟨g, hg, hh⟩ := List.any_eq_true.mp hheld
    obtain ⟨i, hi⟩ := List.getElem?_of_mem hg
    rw [Bool.and_eq_true, Bool.not_eq_true'] at hh
    obtain ⟨hdead, hh⟩ := hh
    split at hh
    · rename_i oid' pc hp
      rw [Bool.and_eq_true, decide_eq_true_eq, decide_eq_true_eq] at hh
      exact ⟨i, g, pc, hi, hdead, hh.1 ▸ hp, hh.2⟩
    · cases hh
  · rw [ho] at hpaid
    exact of_decide_eq_true hpaid

/-- A pass releases one more line of an order it may release for. -/
theorem Part.release {j : Nat} {d : Delivery} {q : Pass} {order : Order} {items : List OrderItem}
    {it : OrderItem} {rest : List OrderItem} {g : Saga} {pc : Pc}
    (hr : PassRelease s j d q order items it rest s') (hd : g.alive = false)
    (hheld : pc.holding g.rawItems = g.rawItems) (hpos : ∀ l ∈ g.rawItems, 0 < l.quantity)
    (hunpaid : ∀ o ∈ s.db.orders, o.id = order.id → o.status ≠ .paid)
    {released : List Line} (hsplit : released ++ (it :: rest).map OrderItem.line = g.rawItems)
    (hle : ∀ p, passNet s order.id p ≤ qty released p) : Part s' g order.id pc j := by
  refine ⟨hd, hheld, hr.db ▸ hunpaid, ?_, { q with pc := .release order items rest },
    released ++ [it.line], rest.map OrderItem.line, ?_, ?_, .inl ⟨order, items, rest, rfl, rfl, rfl⟩,
    fun p => ?_⟩
  · exact ⟨_, by rw [hr.trace]; exact List.mem_append_right _ (List.mem_singleton.mpr rfl), rfl, rfl, rfl⟩
  · rw [hr.passes]; exact Procs.set_self hr.pass
  · rw [List.append_assoc]; exact hsplit
  · have hq : 0 < it.line.quantity := hpos it.line (by rw [← hsplit]; simp)
    have := hle p
    rw [hr.adds, if_pos rfl, qty_append, qty_cons, qty_nil]
    simp only [Issued.delta]
    split
    · split <;> omega
    · split <;> omega

/-- The order a pass releases a line of: the first line, or one more of the same pass. -/
theorem Credit.release {j : Nat} {d : Delivery} {q : Pass} {order : Order} {items : List OrderItem}
    {it : OrderItem} {rest : List OrderItem} {i : Nat} {g : Saga} {pc : Pc} (hs : (lts cfg cat).Reachable s)
    (I : Credit s) (hl : owedRelease s (.pass j (.release d)) = true)
    (hr : PassRelease s j d q order items it rest s') (hg : s.sagas[i]? = some g)
    (hp : g.phase = .saga order.id pc) : Part s' g order.id pc j := by
  have K := keys_reachable hs
  obtain ⟨⟨k, gk, pck, hk, hkd, hkp, hheld⟩, hpaid, hsole⟩ := owedRelease_order hl hr.pass hr.pc
  obtain ⟨rfl, rfl, rfl⟩ := K.run_eq hg hk hp hkp
  have hpos : ∀ l ∈ g.rawItems, 0 < l.quantity := by
    intro l hl
    exact ((accounts_reachable hs i g order.id pc hg hp).known l (by rw [hheld]; exact hl)).1
  have hunpaid : ∀ o ∈ s.db.orders, o.id = order.id → o.status ≠ .paid :=
    fun o ho he => hpaid o (he ▸ (Orders.unique_ids K.ids).get ho)
  obtain ⟨-, hlines, ⟨released, hwork⟩, -⟩ :=
    (passes_reachable hs j q hr.pass).work order items (it :: rest) hr.pc
  have hraw : items.map OrderItem.line = g.rawItems := by
    obtain ⟨-, -, -, -, -, hl, -⟩ := (K.saga i g hg).own order.id pc hp
    exact hlines.trans hl
  rcases I i g order.id pc hg hp with hz | ⟨j', P⟩
  · have hsplit : released.map OrderItem.line ++ (it :: rest).map OrderItem.line = g.rawItems := by
      rw [← List.map_append, hwork, ← hraw]
      split
      · rfl
      · rename_i hres; simp [hres] at hwork
    refine Part.release hr hkd hheld hpos hunpaid hsplit fun p => ?_
    rw [hz p]
    exact qty_nonneg (fun l hl => hpos l (by rw [← hsplit]; exact List.mem_append_left _ hl)) p
  · -- no other pass has sent a release for it
    obtain ⟨x, hx, hxo, hxr, hxc⟩ := P.sent
    have hjj := hsole x hx hxo (by rw [hxc]; rfl) hxr
    rw [hxc, Caller.pass.injEq] at hjj
    subst hjj
    obtain ⟨q', rel, todo, hj', hsplit, howes, hle⟩ := P.part
    rw [hr.pass, Option.some.injEq] at hj'; subst hj'
    rcases howes with ⟨order', items', rest', hpc', -, hrest⟩ | ⟨-, hne⟩
    · rw [hr.pc] at hpc'; cases hpc'
      exact Part.release hr hkd hheld hpos hunpaid (hrest ▸ hsplit) hle
    · exact absurd rfl (hne order items (it :: rest) hr.pc)

theorem credit_step {l : Lbl} (hs : (lts cfg cat).Reachable s) (I : Credit s)
    (hl : owedRelease s l = true) (h : step cfg s l = some s') : Credit s' := by
  have K := keys_reachable hs
  have Q := passes_reachable hs
  rcases pass_step h with ⟨hq, hno⟩ | ⟨j, d, q, order, items, it, rest, rfl, hr⟩
  · -- the passes move nothing
    intro i g' oid pc' hg' hp'
    rcases run_origin K h hg' hp' with ⟨g, pc, hg, hfrom⟩ | hnew
    · have hp := hfrom.phase
      rcases I i g oid pc hg hp with hz | ⟨j, P⟩
      · exact .inl fun p => (hq.keeps oid p).trans (hz p)
      · have he := hfrom.dead P.dead
        subst he
        rw [hp] at hp'; cases hp'
        exact .inr ⟨j, P.step h K Q hg hp (hq.keeps oid) fun q d _ he => absurd he (hno j d)⟩
    · -- nothing is booked for a new order
      refine .inl fun p => (hq.keeps oid p).trans (tally_eq_zero fun x hx hP => ?_)
      by_contra h0
      obtain ⟨⟨c, hc, hid⟩, -⟩ := booked_reachable hs x hx p h0
      exact hnew c hc (hid.trans (of_decide_eq_true hP).2)
  · -- pass `j` releases one line of `order`
    intro i g oid pc hg hp
    rw [hr.sagas] at hg
    by_cases hid : order.id = oid
    · subst hid
      exact .inr ⟨j, I.release hs hl hr hg hp⟩
    · have hnet : ∀ p, passNet s' oid p = passNet s oid p := by
        intro p
        rw [hr.adds, if_neg hid, Int.add_zero]
      rcases I i g oid pc hg hp with hz | ⟨j', P⟩
      · exact .inl fun p => (hnet p).trans (hz p)
      · refine .inr ⟨j', P.step h K Q hg hp hnet ?_⟩
        intro q' d' hq' he order' items' rest' hpc'
        simp only [Lbl.pass.injEq] at he
        rw [← he.1, hr.pass, Option.some.injEq] at hq'; subst hq'
        rw [hr.pc] at hpc'; cases hpc'
        exact hid

theorem credit_reachable (h : (owedLts cfg cat).Reachable s) : Credit s := by
  refine LTS.reachable_induct ?_ ?_ h
  · intro s hs i g oid pc hg; subst hs; simp [start] at hg
  · intro s l s' hr I hst; exact credit_step hr.unrestrict I hst.2 hst.1

/-- **No over-credit**, in every run in which a pass sends a release for an order
only if the order's run has crashed holding all its lines, the order is not
PAID, and no other pass has sent one. -/
theorem no_over_credit (cfg : Config) (cat : Catalog.Products) (s : Sys)
    (h : (owedLts cfg cat).Reachable s) (p : String) :
    Catalog.stockOf s.cat p + paidQty s p ≤ Catalog.stockOf cat p := by
  have hbal : ∀ x ∈ s.db.orders.map fun o => balance s o p, x ≤ 0 := by
    intro x hx
    obtain ⟨o, ho, rfl⟩ := List.mem_map.mp hx
    obtain ⟨i, g, pc, hg, hp, hrow, hlines⟩ := row_owner h.unrestrict ho
    have hacc := accounts_reachable h.unrestrict i g o.id pc hg hp
    have hholds := hacc.holds p
    unfold balance
    rw [orderNet_eq h.unrestrict hg hp p]
    rcases credit_reachable h i g o.id pc hg hp with hz | ⟨j, P⟩
    · rw [hz p]
      split
      · -- PAID: the run holds the order's lines
        rename_i hst
        rw [holding_paid (hrow.paid hst)] at hholds
        rw [hlines]; omega
      · have := qty_nonneg (fun l hl => (hacc.known l hl).1) p
        omega
    · -- what was released and what is left are what the run holds
      obtain ⟨q, released, todo, -, hsplit, -, hle⟩ := P.part
      have hpos : ∀ l ∈ g.rawItems, 0 < l.quantity := fun l hl => (hacc.known l (by rw [P.held]; exact hl)).1
      have htodo : 0 ≤ qty todo p :=
        qty_nonneg (fun l hl => hpos l (by rw [← hsplit]; exact List.mem_append_right _ hl)) p
      have hle := hle p
      rw [P.held, ← hsplit, qty_append] at hholds
      rw [if_neg (P.unpaid o ho rfl)]
      omega
  have hsum : (s.db.orders.map fun o => balance s o p).sum ≤ 0 := by
    simpa using List.sum_le_card_nsmul _ 0 hbal
  have := books_paid h.unrestrict p
  omega

/-- The run crashes before its charge, and a pass releases its lines. -/
def recovered : List Lbl :=
  pens ++ (upToCharge 0 "o1").dropLast ++ [.crash 0] ++ nextPass 0 ++ [.pass 0 (.release .answered), .pass 0 .commit]

/-- `no_over_credit` after `recovered`: all units are back. -/
theorem no_over_credit_recovered : ∃ s : Sys, Catalog.stockOf s.cat "p1" = 5 ∧
    Catalog.stockOf s.cat "p1" + paidQty s "p1" ≤ Catalog.stockOf shop "p1" := by
  have hrun : ∃ s, (owedLts {} shop).Reachable s ∧ decide (Catalog.stockOf s.cat "p1" = 5) = true :=
    LTS.reachable_of_execG recovered rfl (by decide +kernel)
  obtain ⟨s, hr, hs⟩ := hrun
  exact ⟨s, of_decide_eq_true hs, no_over_credit {} shop s hr "p1"⟩

end Gestalt.Checkout
