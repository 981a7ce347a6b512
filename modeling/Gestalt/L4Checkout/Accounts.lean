import Gestalt.Core.Tally
import Gestalt.L4Checkout.Passes

/-!
# Stock accounts

Stock moves only by the reservations and releases in the log, so the stock of a
product is its initial stock plus what the log adds up to (`stocked_reachable`),
and that splits by order (`books`): what an order has moved is what its own run
moved plus what the passes moved for it (`orderNet_eq`).

What a run has moved is known from its program point (`Accounts`): minus at
least the units it is holding; if its releases all took effect, minus exactly
those and those of reservations that took effect but were reported as failed.
-/
namespace Gestalt.Checkout

open Gestalt.Orders (Db Order OrderItem Line Core cores linesOf)

variable {cfg : Config} {cat : Catalog.Products} {s s' : Sys}

/-! ## Quantities and movements -/

/-- The units of a product in a list of lines. -/
def qty (lines : List Line) (p : String) : Int :=
  (lines.map fun l => if l.productId = p then l.quantity else 0).sum

@[simp] theorem qty_nil (p : String) : qty [] p = 0 := rfl

theorem qty_cons (l : Line) (ls : List Line) (p : String) :
    qty (l :: ls) p = (if l.productId = p then l.quantity else 0) + qty ls p := rfl

theorem qty_append (ls ls' : List Line) (p : String) : qty (ls ++ ls') p = qty ls p + qty ls' p := by
  simp [qty]

theorem qty_nonneg {ls : List Line} (h : ∀ l ∈ ls, 0 < l.quantity) (p : String) : 0 ≤ qty ls p := by
  apply List.sum_nonneg
  intro x hx
  obtain ⟨l, hl, rfl⟩ := List.mem_map.mp hx
  have := h l hl
  split <;> omega

/-- What a call did to the stock of a product. -/
def Issued.delta (p : String) (x : Issued) : Int :=
  if x.applied then
    match x.call with
    | .reserve l => if l.productId = p then -l.quantity else 0
    | .release l => if l.productId = p then l.quantity else 0
    | _ => 0
  else 0

/-- A reservation that took effect and was reported as failed. -/
def Issued.ambiguous (x : Issued) : Bool :=
  match x.call with
  | .reserve _ => x.applied && !x.acked
  | _ => false

def Caller.isPass : Caller → Bool
  | .pass _ => true
  | _ => false

/-- What run `i` has moved. -/
def runNet (s : Sys) (i : Nat) (p : String) : Int :=
  tally (fun x => x.caller = .saga i) (Issued.delta p) s.trace

/-- The part of it by reservations reported as failed. -/
def ambiguousNet (s : Sys) (i : Nat) (p : String) : Int :=
  tally (fun x => x.caller = .saga i ∧ x.ambiguous = true) (Issued.delta p) s.trace

/-- What the passes have moved for an order. -/
def passNet (s : Sys) (oid : String) (p : String) : Int :=
  tally (fun x => x.caller.isPass = true ∧ x.orderId = oid) (Issued.delta p) s.trace

/-- What has been moved for an order. -/
def orderNet (s : Sys) (oid : String) (p : String) : Int :=
  tally (fun x => x.orderId = oid) (Issued.delta p) s.trace

/-! ## Stock is the initial stock plus the log -/

theorem stock_effect (s : Sys) (c : Caller) (e : Eff) (p : String) :
    Catalog.stockOf (e.onCat s.cat) p =
      Catalog.stockOf s.cat p + ((e.issued s c).map (Issued.delta p)).sum := by
  cases e with
  | reserve l oid d =>
    simp only [Eff.onCat, Eff.issued, Issued.delta, List.map_cons, List.map_nil, List.sum_cons,
      List.sum_nil, Int.add_zero]
    cases hd : d.handled with
    | false => simp
    | true =>
      rw [if_pos rfl, Catalog.stockOf_reserve]
      cases hs : Catalog.succeeds (Catalog.reserve s.cat l.productId l.quantity oid) with
      | false => simp
      | true => by_cases hp : p = l.productId <;> simp [hp, eq_comm, Int.sub_eq_add_neg]
  | release l oid d =>
    simp only [Eff.onCat, Eff.issued, Issued.delta, List.map_cons, List.map_nil, List.sum_cons,
      List.sum_nil, Int.add_zero]
    cases hd : d.handled with
    | false => simp
    | true =>
      rw [if_pos rfl, Catalog.stockOf_release]
      cases hs : Catalog.succeeds (Catalog.release s.cat l.productId l.quantity oid) with
      | false => simp
      | true => by_cases hp : p = l.productId <;> simp [hp, eq_comm]
  | charge oid amount key f => simp [Eff.onCat, Eff.issued, Issued.delta]
  | publish ev logged => simp [Eff.onCat, Eff.issued, Issued.delta]
  | clearCart u ids oid d => simp [Eff.onCat, Eff.issued, Issued.delta]
  | _ => exact (Int.add_zero _).symm

theorem stocked_reachable (h : (lts cfg cat).Reachable s) (p : String) :
    Catalog.stockOf s.cat p = Catalog.stockOf cat p + (s.trace.map (Issued.delta p)).sum := by
  have hind : (lts cfg cat).Inductive fun s =>
      Catalog.stockOf s.cat p = Catalog.stockOf cat p + (s.trace.map (Issued.delta p)).sum := by
    refine ⟨?_, ?_⟩
    · intro s hs; subst hs; exact (Int.add_zero _).symm
    · intro s l s' I hst
      obtain ⟨c, e, -, hcat, htr⟩ := step_effect hst
      rw [hcat, htr, stock_effect s c e p, I, List.map_append, List.sum_append, Int.add_assoc]
  exact hind.reachable s h

/-- No reservation takes more than there is. -/
theorem stock_nonneg_step {l : Lbl} {p : String} (h : step cfg s l = some s')
    (h0 : 0 ≤ Catalog.stockOf s.cat p) : 0 ≤ Catalog.stockOf s'.cat p := by
  obtain ⟨c, e, -, hcat, -⟩ := step_effect h
  rw [hcat]
  cases e with
  | reserve l oid d =>
    simp only [Eff.onCat]
    split
    · rcases Catalog.reserve_cases s.cat l.productId l.quantity oid with ⟨-, -, hq, hex, ht⟩ | ⟨-, ht⟩
      · rw [ht, Catalog.stockOf_addStock hex]
        split
        · rename_i hp; subst hp; omega
        · omega
      · rw [ht]; exact h0
    · exact h0
  | release l oid d =>
    simp only [Eff.onCat]
    split
    · rcases Catalog.release_cases s.cat l.productId l.quantity oid with ⟨-, hq, hex, ht⟩ | ⟨-, ht⟩
      · rw [ht, Catalog.stockOf_addStock hex]
        split <;> omega
      · rw [ht]; exact h0
    · exact h0
  | _ => exact h0

theorem stock_nonneg (h : (lts cfg cat).Reachable s) {p : String} (h0 : 0 ≤ Catalog.stockOf cat p) :
    0 ≤ Catalog.stockOf s.cat p := by
  have hind : (lts cfg cat).Inductive fun s => 0 ≤ Catalog.stockOf s.cat p := by
    refine ⟨?_, fun s l s' I hst => stock_nonneg_step hst I⟩
    intro s hs; subst hs; exact h0
  exact hind.reachable s h

/-! ## The log by order -/

/-- Every movement is for a committed order, and is a run's or a pass's. -/
def Booked (s : Sys) : Prop :=
  ∀ x ∈ s.trace, ∀ p, x.delta p ≠ 0 → (∃ c ∈ cores s.db, c.id = x.orderId) ∧
    ((∃ i, x.caller = .saga i) ∨ x.caller.isPass = true)

theorem silent_delta {e : Eff} {c : Caller} (h : e.silent = true) :
    ∀ x ∈ e.issued s c, ∀ p, x.delta p = 0 := by
  intro x hx p
  cases e with
  | publish ev logged =>
    simp only [Eff.issued, List.mem_singleton] at hx
    subst hx
    simp [Issued.delta]
  | quiet => cases hx
  | write oid w => cases hx
  | _ => cases h

theorem booked_step {l : Lbl} (K : Keys s.db s.sagas) (Q : Passes s) (B : Booked s)
    (h : step cfg s l = some s') : Booked s' := by
  have hrow : ∀ oid, (∃ c ∈ cores s.db, c.id = oid) → ∃ c ∈ cores s'.db, c.id = oid := by
    intro oid hc
    obtain ⟨c, hc, hid⟩ := hc
    exact ⟨c, cores_step h c hc, hid⟩
  -- an old entry, or one of this step's
  have hext : ∀ (c : Caller) (e : Eff), s'.trace = s.trace ++ e.issued s c →
      (∀ x ∈ e.issued s c, ∀ p, x.delta p ≠ 0 → (∃ c ∈ cores s.db, c.id = x.orderId) ∧
        ((∃ i, x.caller = .saga i) ∨ x.caller.isPass = true)) → Booked s' := by
    intro c e ht hnew x hx p hp
    rw [ht, List.mem_append] at hx
    rcases hx with hx | hx
    · exact ⟨hrow _ (B x hx p hp).1, (B x hx p hp).2⟩
    · exact ⟨hrow _ (hnew x hx p hp).1, (hnew x hx p hp).2⟩
  have hold : s'.trace = s.trace → Booked s' := by
    intro ht x hx p hp
    rw [ht] at hx
    exact ⟨hrow _ (B x hx p hp).1, (B x hx p hp).2⟩
  cases step_shape h with
  | run i a s' hrun =>
    cases hrun with
    | prelude g g' e hg hal hne hm =>
      refine hext (.saga i) e rfl ?_
      rw [hm.issued]
      intro x hx; cases hx
    | saga g oid pc pc' e hg hal hp hm =>
      have hown := (K.saga i g hg).own oid pc hp
      refine hext (.saga i) e rfl ?_
      intro x hx q _
      have hid' := hm.issued hown x hx
      obtain ⟨c, hc, hid, -⟩ := hown
      exact ⟨⟨c, hc, hid.trans hid'.symm⟩, .inl ⟨i, issued_caller hx⟩⟩
  | other l c e s' hb hpass =>
    refine hext c e hb.trace ?_
    cases hpass with
    | recon => intro x hx; cases hx
    | crash => intro x hx; cases hx
    | none _ _ _ _ hsil => exact fun x hx p hp => absurd (silent_delta hsil x hx p) hp
    | pass j a q q' _ _ hq hal hm =>
      intro x hx p hp
      cases hm with
      | released order items it todo d hpc =>
        simp only [Eff.issued, List.mem_singleton] at hx
        subst hx
        exact ⟨⟨order.core, ((Q j q hq).work order items _ hpc).1, rfl⟩, .inr rfl⟩
      | announced order items logged => exact absurd (silent_delta (by rfl) x hx p) hp
      | cleared order items d =>
        simp only [Eff.issued, List.mem_singleton] at hx
        subst hx
        simp [Issued.delta] at hp
      | _ => cases hx
  | _ => exact hold rfl

theorem booked_reachable (h : (lts cfg cat).Reachable s) : Booked s := by
  refine LTS.reachable_induct ?_ ?_ h
  · intro s hs x hx; subst hs; cases hx
  · intro s l s' hr B hst
    exact booked_step (keys_reachable hr) (passes_reachable hr) B hst

/-- **The books.** Stock is the initial stock plus what each order moved. -/
theorem books (h : (lts cfg cat).Reachable s) (p : String) : Catalog.stockOf s.cat p =
    Catalog.stockOf cat p + (s.db.orders.map fun o => orderNet s o.id p).sum := by
  have hids : (s.db.orders.map Order.id).Nodup := Orders.unique_ids (keys_reachable h).ids
  have hsum := sum_by_key hids Issued.orderId (Issued.delta p) (l := s.trace) (by
    intro x hx hp
    obtain ⟨c, hc, hid⟩ := (booked_reachable h x hx p hp).1
    obtain ⟨o, ho, rfl⟩ := Orders.mem_cores.mp hc
    exact hid ▸ List.mem_map_of_mem ho)
  rw [stocked_reachable h p, hsum, List.map_map]
  rfl

/-- The units of a product in PAID orders. -/
def paidQty (s : Sys) (p : String) : Int :=
  ((s.db.orders.filter fun o => o.status = .paid).map fun o => qty (linesOf s.db o.id) p).sum

/-- What an order has moved, beyond what a PAID order takes. -/
def balance (s : Sys) (o : Order) (p : String) : Int :=
  orderNet s o.id p + if o.status = .paid then qty (linesOf s.db o.id) p else 0

/-- **The books, closed.** Stock and the PAID orders' units are the initial stock
plus the balances. -/
theorem books_paid (h : (lts cfg cat).Reachable s) (p : String) : Catalog.stockOf s.cat p + paidQty s p =
    Catalog.stockOf cat p + (s.db.orders.map fun o => balance s o p).sum := by
  have hpaid : paidQty s p = (s.db.orders.map fun o =>
      if o.status = .paid then qty (linesOf s.db o.id) p else 0).sum := by
    unfold paidQty
    rw [sum_filter]
    simp [tally]
  unfold balance
  rw [books h p, hpaid, List.sum_map_add, Int.add_assoc]

/-- What an order moved, its run and the passes moved. -/
theorem orderNet_eq (h : (lts cfg cat).Reachable s) {i : Nat} {g : Saga} {oid : String} {pc : Pc}
    (hg : s.sagas[i]? = some g) (hp : g.phase = .saga oid pc) (p : String) :
    orderNet s oid p = runNet s i p + passNet s oid p := by
  have K := keys_reachable h
  have I := issues_reachable h
  refine tally_add fun x hx => ?_
  by_cases h0 : x.delta p = 0
  · simp [h0]
  · have hc : x.caller = .saga i → x.orderId = oid := by
      intro hc
      obtain ⟨g', pc', hg', hp'⟩ := I x hx i hc
      rw [hg, Option.some.injEq] at hg'; subst hg'
      rw [hp] at hp'; cases hp'; rfl
    rcases (booked_reachable h x hx p h0).2 with ⟨j, hj⟩ | hj
    · have hij : x.orderId = oid → j = i := by
        intro ho
        obtain ⟨g', pc', hg', hp'⟩ := I x hx j hj
        exact K.one j i g' g oid pc' pc hg' hg (ho ▸ hp') hp
      by_cases hji : j = i
      · subst hji; simp [hj, hc hj, Caller.isPass]
      · have hno : x.orderId ≠ oid := fun ho => hji (hij ho)
        simp [hj, hno, hji, Caller.isPass]
    · have hnot : x.caller ≠ .saga i := by
        intro he; rw [he] at hj; cases hj
      simp [hj, hnot]

/-! ## What a run is holding -/

/-- The lines whose units the run has taken and not given back. -/
def Pc.holding (rawItems : List Line) : Pc → List Line
  | .created => []
  | .reserve held _ => held
  | .release _ todo _ => todo
  | .charge => rawItems
  | .await _ => rawItems
  | .pay => rawItems
  | .ended true _ => rawItems
  | .ended false _ => []

theorem holding_paid {pc : Pc} (h : pc.outcome = some .paid) (rawItems : List Line) :
    pc.holding rawItems = rawItems := by
  cases pc with
  | ended b f => cases b <;> first | rfl | cases h
  | _ => cases h

theorem holding_failed {pc : Pc} (h : pc.outcome = some .failed) (rawItems : List Line) :
    pc.holding rawItems = [] := by
  cases pc with
  | ended b f => cases b <;> first | rfl | cases h
  | _ => cases h

/-- A release that did not take effect. -/
def Issued.unreleased (x : Issued) : Bool :=
  match x.call with
  | .release _ => !x.applied
  | _ => false

/-- Every release run `i` has sent took effect. -/
def Released (s : Sys) (i : Nat) : Prop := ∀ x ∈ s.trace, x.caller = .saga i → x.unreleased = false

structure AccountOk (s : Sys) (i : Nat) (g : Saga) (pc : Pc) : Prop where
  /-- it has taken what it is holding -/
  holds : ∀ p, runNet s i p + qty (pc.holding g.rawItems) p ≤ 0
  net : Released s i → ∀ p, runNet s i p + qty (pc.holding g.rawItems) p = ambiguousNet s i p
  known : ∀ l ∈ pc.holding g.rawItems, 0 < l.quantity ∧ Catalog.Exists s.cat l.productId
  split : ∀ held todo, pc = .reserve held todo → held ++ todo = g.rawItems
  rest : ∀ todo reason, pc = .release .paymentFailed todo reason → ∃ released, released ++ todo = g.rawItems

def Accounts (s : Sys) : Prop :=
  ∀ (i : Nat) (g : Saga) (oid : String) (pc : Pc), s.sagas[i]? = some g → g.phase = .saga oid pc →
    AccountOk s i g pc

/-- The movements of one step, and the part of them by ambiguous reservations. -/
def Eff.moved (s : Sys) (i : Nat) (p : String) (e : Eff) : Int :=
  tally (fun x => x.caller = .saga i) (Issued.delta p) (e.issued s (.saga i))

def Eff.movedAmbiguous (s : Sys) (i : Nat) (p : String) (e : Eff) : Int :=
  tally (fun x => x.caller = .saga i ∧ x.ambiguous = true) (Issued.delta p) (e.issued s (.saga i))

/-- A step that reserves and releases nothing. -/
theorem SagaMoves.balance_idle {i : Nat} {g : Saga} {oid : String} {pc pc' : Pc} {a : Act} {e : Eff}
    (h : SagaMoves s g oid pc a pc' e) (hsplit : ∀ held todo, pc = .reserve held todo → held ++ todo = g.rawItems)
    (h1 : ∀ l d, e ≠ .reserve l oid d) (h2 : ∀ l d, e ≠ .release l oid d) (p : String) :
    e.moved s i p = 0 ∧ e.movedAmbiguous s i p = 0 ∧
      qty (pc'.holding g.rawItems) p = qty (pc.holding g.rawItems) p := by
  unfold Eff.moved Eff.movedAmbiguous
  cases h with
  | reserved held l todo d => exact absurd rfl (h1 l d)
  | refused held l todo d => exact absurd rfl (h1 l d)
  | released b l todo reason d => exact absurd rfl (h2 l d)
  | marked held =>
    have hs := hsplit held [] rfl
    rw [List.append_nil] at hs
    exact ⟨rfl, rfl, by rw [Pc.holding, Pc.holding, hs]⟩
  | created order logged => simp [Eff.issued, tally_singleton, Issued.delta, Pc.holding]
  | sent order => simp [Eff.issued, tally_singleton, Issued.delta, Pc.holding]
  | unsent order f reason => simp [Eff.issued, tally_singleton, Issued.delta, Pc.holding]
  | announced b order ev logged =>
    cases b <;> simp [Eff.issued, tally_singleton, Issued.delta, Pc.holding]
  | cleared b order d => cases b <;> simp [Eff.issued, tally_singleton, Issued.delta, Pc.holding]
  | loaded b order => cases b <;> exact ⟨rfl, rfl, rfl⟩
  | _ => exact ⟨rfl, rfl, rfl⟩

/-- What a run has taken or given back in a step is what it holds more or less. -/
theorem SagaMoves.balance {i : Nat} {g : Saga} {oid : String} {pc pc' : Pc} {a : Act} {e : Eff}
    (h : SagaMoves s g oid pc a pc' e) (A : AccountOk s i g pc) (p : String) :
    e.moved s i p + qty (pc'.holding g.rawItems) p ≤ qty (pc.holding g.rawItems) p ∧
    ((∀ x ∈ e.issued s (.saga i), x.unreleased = false) →
      e.moved s i p + qty (pc'.holding g.rawItems) p =
        e.movedAmbiguous s i p + qty (pc.holding g.rawItems) p) := by
  -- a step that moves nothing
  have hidle : (∀ l d, e ≠ .reserve l oid d) → (∀ l d, e ≠ .release l oid d) →
      e.moved s i p + qty (pc'.holding g.rawItems) p ≤ qty (pc.holding g.rawItems) p ∧
      ((∀ x ∈ e.issued s (.saga i), x.unreleased = false) →
        e.moved s i p + qty (pc'.holding g.rawItems) p =
          e.movedAmbiguous s i p + qty (pc.holding g.rawItems) p) := by
    intro h1 h2
    obtain ⟨hm, ha, hq⟩ := h.balance_idle (i := i) A.split h1 h2 p
    rw [hm, ha, hq]
    exact ⟨by omega, fun _ => rfl⟩
  cases h with
  | reserved held l todo d hok =>
    obtain ⟨rfl, hsucc⟩ := seen_ok hok
    have hsucc : Catalog.succeeds (Catalog.reserve s.cat l.productId l.quantity oid) = true := hsucc
    simp only [Eff.moved, Eff.movedAmbiguous, Eff.issued, tally_singleton, Issued.delta, Issued.ambiguous,
      Pc.holding, qty_append, qty_cons, qty_nil, hok, hsucc, Delivery.handled]
    by_cases hp : l.productId = p <;> simp [hp]
  | refused held l todo d reason hok =>
    have hpos : Catalog.succeeds (Catalog.reserve s.cat l.productId l.quantity oid) = true →
        0 < l.quantity := fun hs => (Catalog.reserve_ok hs).1
    simp only [Eff.moved, Eff.movedAmbiguous, Eff.issued, tally_singleton, Issued.delta, Issued.ambiguous,
      Pc.holding, hok]
    cases hs : d.handled && Catalog.succeeds (Catalog.reserve s.cat l.productId l.quantity oid) with
    | false => simp
    | true =>
      have hq := hpos (Bool.and_eq_true_iff.mp hs).2
      by_cases hp : l.productId = p <;> simp [hp]
      omega
  | released b l todo reason d =>
    obtain ⟨hq, hex⟩ := A.known l (by simp [Pc.holding])
    simp only [Eff.moved, Eff.movedAmbiguous, Eff.issued, tally_singleton, Issued.delta, Issued.ambiguous,
      Issued.unreleased, Pc.holding, qty_cons, Catalog.release_succeeds oid hq hex, List.mem_singleton]
    cases d.handled with
    | true => by_cases hp : l.productId = p <;> simp [hp]
    | false =>
      by_cases hp : l.productId = p
      · simp [hp]; omega
      · simp [hp]
  | _ => exact hidle (by simp) (by simp)

theorem SagaMoves.held {i : Nat} {g : Saga} {oid : String} {pc pc' : Pc} {a : Act} {e : Eff}
    (h : SagaMoves s g oid pc a pc' e) (A : AccountOk s i g pc) :
    ∀ l ∈ pc'.holding g.rawItems, 0 < l.quantity ∧ Catalog.Exists s.cat l.productId := by
  cases h with
  | created order logged => simp [Pc.holding]
  | reserved held l todo d hok =>
    have hr : Catalog.succeeds (Catalog.reserve s.cat l.productId l.quantity oid) = true := (seen_ok hok).2
    obtain ⟨hq, -, hex⟩ := Catalog.reserve_ok hr
    intro l' hl'
    rcases List.mem_append.mp hl' with hl' | hl'
    · exact A.known l' hl'
    · rw [List.mem_singleton.mp hl']; exact ⟨hq, hex⟩
  | marked held =>
    have hsplit := A.split held [] rfl
    rw [List.append_nil] at hsplit
    intro l hl
    exact A.known l (by rw [← hsplit] at hl; exact hl)
  | released b l todo reason d => exact fun l' hl' => A.known l' (List.mem_cons_of_mem l hl')
  | failed b reason => simp [Pc.holding]
  | loaded b order => cases b <;> exact A.known
  | announced b order ev logged => cases b <;> exact A.known
  | cleared b order d => cases b <;> exact A.known
  | _ => exact A.known

/-- A loop works through the run's items. -/
theorem SagaMoves.loop {i : Nat} {g : Saga} {oid : String} {pc pc' : Pc} {a : Act} {e : Eff}
    (h : SagaMoves s g oid pc a pc' e) (A : AccountOk s i g pc) :
    (∀ held todo, pc' = .reserve held todo → held ++ todo = g.rawItems) ∧
    ∀ todo reason, pc' = .release .paymentFailed todo reason → ∃ released, released ++ todo = g.rawItems := by
  cases h with
  | created order logged =>
    refine ⟨?_, by simp⟩
    intro held todo he; cases he; rfl
  | reserved held l todo d hok =>
    refine ⟨?_, by simp⟩
    intro held' todo' he
    simp only [Pc.reserve.injEq] at he
    obtain ⟨rfl, rfl⟩ := he
    rw [List.append_assoc]
    exact A.split held (l :: todo) rfl
  | released b l todo reason d =>
    refine ⟨by simp, ?_⟩
    intro todo' reason' he
    simp only [Pc.release.injEq] at he
    obtain ⟨rfl, rfl, rfl⟩ := he
    obtain ⟨released, hr⟩ := A.rest (l :: todo) reason rfl
    exact ⟨released ++ [l], by rw [List.append_assoc]; exact hr⟩
  | unsent order f reason | declined j call answer reason | gaveUp j f reason =>
    refine ⟨by simp, ?_⟩
    intro todo' reason' he
    simp only [Pc.release.injEq] at he
    obtain ⟨-, rfl, -⟩ := he
    exact ⟨[], rfl⟩
  | _ => exact ⟨by simp, by simp⟩

/-- A step of another process. -/
theorem AccountOk.frame {t : Sys} {j : Nat} {g : Saga} {pc : Pc} {c : Caller} {e : Eff} (A : AccountOk s j g pc)
    (hc : c ≠ .saga j) (hcat : t.cat = e.onCat s.cat) (htr : t.trace = s.trace ++ e.issued s c) :
    AccountOk t j g pc := by
  have hz : ∀ x ∈ e.issued s c, x.caller ≠ .saga j := fun x hx => by rw [issued_caller hx]; exact hc
  have hn : ∀ p, runNet t j p = runNet s j p := by
    intro p
    unfold runNet
    rw [htr, tally_append, tally_eq_zero (l := e.issued s c), Int.add_zero]
    intro x hx hx'
    exact absurd (of_decide_eq_true hx') (hz x hx)
  have ha : ∀ p, ambiguousNet t j p = ambiguousNet s j p := by
    intro p
    unfold ambiguousNet
    rw [htr, tally_append, tally_eq_zero (l := e.issued s c), Int.add_zero]
    intro x hx hx'
    exact absurd (of_decide_eq_true hx').1 (hz x hx)
  refine ⟨fun p => by rw [hn]; exact A.holds p, fun hr p => ?_, fun l hl => ?_, A.split, A.rest⟩
  · rw [hn, ha]
    exact A.net (fun x hx => hr x (by rw [htr]; exact List.mem_append_left _ hx)) p
  · rw [hcat, exists_onCat]; exact A.known l hl

/-- A run that has made no call yet. -/
theorem AccountOk.fresh {j : Nat} {g : Saga} (hz : ∀ x ∈ s.trace, x.caller ≠ .saga j) :
    AccountOk s j g .created := by
  have hn : ∀ (P : Issued → Bool) (p : String), (∀ x, P x = true → x.caller = .saga j) →
      tally P (Issued.delta p) s.trace = 0 := by
    intro P p hP
    exact tally_eq_zero fun x hx hx' => absurd (hP x hx') (hz x hx)
  refine ⟨fun p => ?_, fun _ p => ?_, by simp [Pc.holding], by simp, by simp⟩
  · unfold runNet
    rw [hn _ p fun x hx => of_decide_eq_true hx]; exact Int.le_refl _
  · unfold runNet ambiguousNet
    rw [hn _ p fun x hx => of_decide_eq_true hx, hn _ p fun x hx => (of_decide_eq_true hx).1]
    rfl

/-- A step of the run itself. -/
theorem AccountOk.move {t : Sys} {i : Nat} {g : Saga} {oid : String} {pc pc' : Pc} {a : Act} {e : Eff}
    (A : AccountOk s i g pc) (hm : SagaMoves s g oid pc a pc' e) (hcat : t.cat = e.onCat s.cat)
    (htr : t.trace = s.trace ++ e.issued s (.saga i)) :
    AccountOk t i { g with phase := .saga oid pc' } pc' := by
  obtain ⟨hsp, hre⟩ := hm.loop A
  refine ⟨fun p => ?_, fun hr p => ?_, fun l hl => ?_, hsp, hre⟩
  · have hb := (hm.balance A p).1
    have hn := A.holds p
    unfold runNet at hn ⊢
    unfold Eff.moved at hb
    simp only [htr, tally_append]
    omega
  · have hr0 : Released s i := fun x hx => hr x (by rw [htr]; exact List.mem_append_left _ hx)
    have hr1 : ∀ x ∈ e.issued s (.saga i), x.unreleased = false :=
      fun x hx => hr x (by rw [htr]; exact List.mem_append_right _ hx) (issued_caller hx)
    have hb := (hm.balance A p).2 hr1
    have hn := A.net hr0 p
    unfold runNet ambiguousNet at hn ⊢
    unfold Eff.moved Eff.movedAmbiguous at hb
    simp only [htr, tally_append]
    omega
  · rw [hcat, exists_onCat]; exact hm.held A l hl

/-- **Step lemma.** -/
theorem accounts_step {l : Lbl} (I : Issues s) (A : Accounts s) (h : step cfg s l = some s') :
    Accounts s' := by
  -- a run in a step that neither touches the catalog nor logs a call
  have hquiet : ∀ (t : Sys) (j : Nat) (g : Saga) (pc : Pc), t.cat = s.cat → t.trace = s.trace →
      AccountOk s j g pc → AccountOk t j g pc := fun t j g pc hcat htr hA =>
    hA.frame (c := .pass 0) (e := .quiet) (by simp) hcat (htr.trans (List.append_nil _).symm)
  cases step_shape h with
  | spawn r =>
    intro j d oid pc hj hp
    rcases Procs.spawn_cases hj with hj | ⟨-, rfl⟩
    · exact hquiet _ j d pc rfl rfl (A j d oid pc hj hp)
    · cases hp
  | run i a s' hrun =>
    cases hrun with
    | prelude g g' e hg hal hne hm =>
      intro j d oid pc hj hp
      rcases Procs.set_cases hg hj with ⟨rfl, rfl⟩ | ⟨hji, hj⟩
      · -- the run commits: it has made no call yet
        cases hm with
        | committed order hpc =>
          cases hp
          refine .fresh fun x hx hc => ?_
          have hx : x ∈ s.trace ++ [] := hx
          rw [List.append_nil] at hx
          obtain ⟨g0, pc0, hg0, hp0⟩ := I x hx j hc
          rw [hg, Option.some.injEq] at hg0; subst hg0
          exact hne _ _ hp0
        | _ => cases hp
      · exact (A j d oid pc hj hp).frame (by simpa using Ne.symm hji) (apply_cat s (.saga i) e) rfl
    | saga g oid pc pc' e hg hal hp hm =>
      intro j d oid' pc0 hj hp0
      rcases Procs.set_cases hg hj with ⟨rfl, rfl⟩ | ⟨hji, hj⟩
      · cases hp0
        exact (A j g oid pc hg hp).move hm (apply_cat s (.saga j) e) rfl
      · exact (A j d oid' pc0 hj hp0).frame (by simpa using Ne.symm hji) (apply_cat s (.saga i) e) rfl
  | crash i g hg =>
    intro j d oid pc hj hp
    rcases Procs.set_cases hg hj with ⟨rfl, rfl⟩ | ⟨-, hj⟩
    · obtain ⟨h0, h1, h2, h3, h4⟩ := A j g oid pc hg hp
      exact ⟨h0, h1, h2, h3, h4⟩
    · exact hquiet _ j d pc rfl rfl (A j d oid pc hj hp)
  | pay l p hl hp =>
    intro j d oid pc hj hp
    exact hquiet _ j d pc rfl rfl (A j d oid pc hj hp)
  | other l c e s' hb _ =>
    intro j d oid pc hj hp
    rw [hb.sagas] at hj
    exact (A j d oid pc hj hp).frame (hb.caller j) hb.cat hb.trace

theorem accounts_reachable (h : (lts cfg cat).Reachable s) : Accounts s := by
  refine LTS.reachable_induct ?_ ?_ h
  · intro s hs i g oid pc hg; subst hs; simp [start] at hg
  · intro s l s' hr A hst
    exact accounts_step (issues_reachable hr) A hst

/-- A run whose calls were all unambiguous and effective has moved what it holds. -/
theorem AccountOk.exact {i : Nat} {g : Saga} {pc : Pc} (A : AccountOk s i g pc)
    (hamb : ∀ x ∈ s.trace, x.ambiguous = false) (hrel : Released s i) (p : String) :
    runNet s i p + qty (pc.holding g.rawItems) p = 0 := by
  rw [A.net hrel p]
  refine tally_eq_zero fun x hx hP => ?_
  have hx' := hamb x hx
  rw [(of_decide_eq_true hP).2] at hx'
  cases hx'

/-! ## Calls that take effect -/

/-- The step is a reservation that takes effect and is reported to its run as failed. -/
def ambiguousReserve (s : Sys) : Lbl → Bool
  | .saga i (.reserve d) =>
    match s.sagas[i]? with
    | some ⟨_, _, .saga oid (.reserve _ (l :: _)), _⟩ =>
      d ≠ .answered && d.handled && Catalog.succeeds (Catalog.reserve s.cat l.productId l.quantity oid)
    | _ => false
  | _ => false

/-- A release that is sent reaches catalog-service. -/
def releaseHandled : Lbl → Bool
  | .saga _ (.release d) => d.handled
  | .pass _ (.release d) => d.handled
  | _ => true

theorem SagaMoves.unambiguous {i : Nat} {g : Saga} {oid : String} {pc pc' : Pc} {a : Act} {e : Eff}
    {c : Caller} (h : SagaMoves s g oid pc a pc' e) (hg : s.sagas[i]? = some g)
    (hp : g.phase = .saga oid pc) (hl : ambiguousReserve s (.saga i a) = false) :
    ∀ x ∈ e.issued s c, x.ambiguous = false := by
  obtain ⟨req, rawItems, phase, alive⟩ := g
  simp only at hp
  subst hp
  intro x hx
  cases h with
  | reserved held l todo d hok =>
    simp only [Eff.issued, List.mem_singleton] at hx
    subst hx
    simp [Issued.ambiguous, hok]
  | refused held l todo d reason hok =>
    simp only [Eff.issued, List.mem_singleton] at hx
    subst hx
    simp only [ambiguousReserve, hg] at hl
    cases hd : d.handled with
    | false => simp [Issued.ambiguous]
    | true =>
      by_cases ha : d = .answered
      · subst ha
        have hok : Catalog.succeeds (Catalog.reserve s.cat l.productId l.quantity oid) = false := hok
        simp [Issued.ambiguous, hok]
      · simp only [ha, hd, ne_eq, not_false_eq_true, decide_true, Bool.true_and] at hl
        simp [Issued.ambiguous, hl]
  | _ =>
    simp only [Eff.issued, List.not_mem_nil, List.mem_singleton] at hx <;> subst hx <;> rfl

/-- No reservation has been reported as failed that took effect. -/
theorem unambiguous_reachable
    (h : ((lts cfg cat).restrict fun s l => ambiguousReserve s l = false).Reachable s) :
    ∀ x ∈ s.trace, x.ambiguous = false := by
  refine LTS.reachable_induct (I := fun s => ∀ x ∈ s.trace, x.ambiguous = false) ?_ ?_ h
  · intro s hs x hx; subst hs; cases hx
  · intro s l s' hr I hst x hx
    cases step_shape hst.1 with
    | run i a s' hrun =>
      cases hrun with
      | prelude g g' e hg hal hne hm =>
        simp only [apply_trace, hm.issued, List.append_nil] at hx
        exact I x hx
      | saga g oid pc pc' e hg hal hp hm =>
        simp only [apply_trace, List.mem_append] at hx
        rcases hx with hx | hx
        · exact I x hx
        · exact hm.unambiguous hg hp hst.2 x hx
    | other l c e s' hb _ =>
      rw [hb.trace, List.mem_append] at hx
      rcases hx with hx | hx
      · exact I x hx
      · have he := hb.eff
        cases e <;> simp only [Eff.issued, List.not_mem_nil, List.mem_singleton] at hx <;>
          first | (subst hx; rfl) | cases he
    | _ => exact I x hx

theorem SagaMoves.releases {i : Nat} {g : Saga} {oid : String} {pc pc' : Pc} {a : Act} {e : Eff}
    {c : Caller} (h : SagaMoves s g oid pc a pc' e) (A : AccountOk s i g pc)
    (hl : releaseHandled (.saga i a) = true) : ∀ x ∈ e.issued s c, x.unreleased = false := by
  intro x hx
  cases h with
  | released b l todo reason d =>
    obtain ⟨hq, hex⟩ := A.known l (by simp [Pc.holding])
    have hd : d.handled = true := hl
    simp only [Eff.issued, List.mem_singleton] at hx
    subst hx
    simp [Issued.unreleased, hd, Catalog.release_succeeds oid hq hex]
  | _ =>
    simp only [Eff.issued, List.not_mem_nil, List.mem_singleton] at hx <;> subst hx <;> rfl

/-- Every release of a run has taken effect. -/
theorem released_reachable (h : ((lts cfg cat).restrict fun _ l => releaseHandled l = true).Reachable s) :
    ∀ i, Released s i := by
  refine LTS.reachable_induct (I := fun s => ∀ i, Released s i) ?_ ?_ h
  · intro s hs i x hx; subst hs; cases hx
  · intro s l s' hr I hst i x hx hc
    cases step_shape hst.1 with
    | run j a s' hrun =>
      cases hrun with
      | prelude g g' e hg hal hne hm =>
        simp only [apply_trace, hm.issued, List.append_nil] at hx
        exact I i x hx hc
      | saga g oid pc pc' e hg hal hp hm =>
        simp only [apply_trace, List.mem_append] at hx
        rcases hx with hx | hx
        · exact I i x hx hc
        · exact hm.releases (accounts_reachable hr.unrestrict j g oid pc hg hp) hst.2 x hx
    | other l c e s' hb _ =>
      rw [hb.trace, List.mem_append] at hx
      rcases hx with hx | hx
      · exact I i x hx hc
      · exact absurd ((issued_caller hx).symm.trans hc) (hb.caller i)
    | _ => exact I i x hx hc

end Gestalt.Checkout
