import Gestalt.L4Checkout.Accounts

/-!
# Crash recovery: what the passes release

After a crash the reconciliation pass takes the run's place. It decides from the
row: with `stock_reserved` it releases every item, without it none, and then it
commits FAILED. `pass_step` says what a step adds to what the passes have moved:
nothing, or one release. `Owes` is what a pass may still release for an order;
it takes each order up once, so after its commit that is nothing.

`crashRecovery` delimits the setting in which recovery is meant to work: every
call to catalog-service is answered, and a pass turns only to orders whose run
has crashed.
-/
namespace Gestalt.Checkout

open Gestalt.Orders (Db Order OrderItem Line Core cores linesOf)

variable {cfg : Config} {cat : Catalog.Products} {s s' : Sys}

/-- No live run owns the order. -/
def Sys.crashed (s : Sys) (oid : String) : Bool :=
  s.sagas.all fun g => !g.alive || match g.phase with
    | .saga oid' _ => oid' ≠ oid
    | _ => true

/-- Every call to catalog-service is answered, and passes turn to crashed runs' orders. -/
def crashRecovery (s : Sys) : Lbl → Bool
  | .saga _ (.reserve d) => d = .answered
  | .saga _ (.release d) => d = .answered
  | .pass _ (.release d) => d = .answered
  | .pass j .next => (s.passes[j]?).all fun p => p.todo.head?.all s.crashed
  | _ => true

theorem crashed_run {oid : String} (h : s.crashed oid = true) {i : Nat} {g : Saga} {pc : Pc}
    (hg : s.sagas[i]? = some g) (hp : g.phase = .saga oid pc) : g.alive = false := by
  have := List.all_eq_true.mp h g (List.mem_of_getElem? hg)
  simpa [hp] using this

/-! ## Where a status and a mark come from -/

/-- Only an order's live run writes PAID. -/
theorem paid_origin {l : Lbl} (K : Keys s.db s.sagas) (h : step cfg s l = some s') {o' : Order}
    (ho' : o' ∈ s'.db.orders) (hp' : o'.status = .paid) :
    (∃ o ∈ s.db.orders, o.id = o'.id ∧ o.status = .paid) ∨
      ∃ (i : Nat) (g : Saga) (pc : Pc), s.sagas[i]? = some g ∧ g.phase = .saga o'.id pc ∧ g.alive = true := by
  cases row_step K h ho' with
  | new hpend => rw [hpend] at hp'; cases hp'
  | kept o ho hid hst => exact .inl ⟨o, ho, hid, hst.trans hp'⟩
  | run i g pc pc' a e o hg hal hp hm hg' ho he =>
    subst he
    rw [onRow_id]
    exact .inr ⟨i, g, pc, hg, hp, hal⟩
  | pass j q order items o hl hj hpc ho hid hoid hst => rw [hst] at hp'; cases hp'

/-- Only the end of the reservation loop sets `stock_reserved`. -/
theorem reserved_origin {l : Lbl} (K : Keys s.db s.sagas) (h : step cfg s l = some s') {oid : String}
    (hr : Reserved s'.db oid) : Reserved s.db oid ∨
      ∃ (i : Nat) (g : Saga) (held : List Line), s.sagas[i]? = some g ∧ g.phase = .saga oid (.reserve held []) := by
  obtain ⟨o', ho', rfl, hres⟩ := hr
  cases row_step K h ho' with
  | new _ hno => rw [hno] at hres; cases hres
  | kept o ho hid _ hst => exact .inl ⟨o, ho, hid, hst.trans hres⟩
  | pass j q order items o hl hj hpc ho hid hoid _ hst => exact .inl ⟨o, ho, hid, hst.trans hres⟩
  | run i g pc pc' a e o hg hal hp hm hg' ho he =>
    subst he
    rw [onRow_id]
    -- a step that leaves the mark
    have hkeep : (e.onRow s.now o).stockReserved = o.stockReserved → Reserved s.db o.id :=
      fun hst => ⟨o, ho, rfl, hst ▸ hres⟩
    cases hm with
    | marked held => exact .inr ⟨i, g, held, hg, hp⟩
    | failed b reason => exact .inl (hkeep (by simp [Eff.onRow, failing]))
    | paid => exact .inl (hkeep (by simp [Eff.onRow]))
    | _ => exact .inl (hkeep rfl)

/-- The lines of a reserved order are of known products and positive quantities. -/
theorem reserved_known (h : (lts cfg cat).Reachable s) : ∀ oid, Reserved s.db oid →
    ∀ l ∈ linesOf s.db oid, 0 < l.quantity ∧ Catalog.Exists s.cat l.productId := by
  refine LTS.reachable_induct (I := fun s => ∀ oid, Reserved s.db oid →
    ∀ l ∈ linesOf s.db oid, 0 < l.quantity ∧ Catalog.Exists s.cat l.productId) ?_ ?_ h
  · intro s hs oid hres
    subst hs
    obtain ⟨o, ho, -⟩ := hres
    cases ho
  · intro s l s' hr I hst oid hres
    have K := keys_reachable hr
    obtain ⟨-, e, -, hcat, -⟩ := step_effect hst
    have hrow : ∃ c ∈ cores s.db, c.id = oid := by
      rcases reserved_origin K hst hres with ⟨o, ho, hid, -⟩ | ⟨i, g, held, hg, hp⟩
      · exact ⟨o.core, Orders.mem_core ho, hid⟩
      · obtain ⟨c, hc, hid, -⟩ := (K.saga i g hg).own oid _ hp
        exact ⟨c, hc, hid⟩
    obtain ⟨c, hc, rfl⟩ := hrow
    rw [lines_step K hst c hc]
    simp only [hcat, exists_onCat]
    rcases reserved_origin K hst hres with hold | ⟨i, g, held, hg, hp⟩
    · exact I c.id hold
    · -- the loop is through: it holds all lines
      have A := accounts_reachable hr i g c.id _ hg hp
      have hsplit := A.split held [] rfl
      rw [List.append_nil] at hsplit
      obtain ⟨-, -, -, -, -, hl, -⟩ := (K.saga i g hg).own c.id _ hp
      rw [hl, ← hsplit]
      exact A.known

/-! ## What the passes have moved -/

def Issued.isRelease (x : Issued) : Bool :=
  match x.call with
  | .release _ => true
  | _ => false

/-- Pass `j` sends one release. -/
structure PassRelease (s : Sys) (j : Nat) (d : Delivery) (q : Pass) (order : Order)
    (items : List OrderItem) (i : OrderItem) (todo : List OrderItem) (s' : Sys) : Prop where
  pass : s.passes[j]? = some q
  pc : q.pc = .release order items (i :: todo)
  passes : s'.passes = s.passes.set j { q with pc := .release order items todo }
  sagas : s'.sagas = s.sagas
  db : s'.db = s.db
  trace : s'.trace = s.trace ++ (Eff.release i.line order.id d).issued s (.pass j)

/-- A step extends the log by no release of a pass, and nothing a pass moves. -/
def PassQuiet (s s' : Sys) : Prop :=
  ∃ new, s'.trace = s.trace ++ new ∧ ∀ x ∈ new, x.caller.isPass = true → ∀ p, x.delta p = 0

theorem PassQuiet.keeps (h : PassQuiet s s') (oid p : String) : passNet s' oid p = passNet s oid p := by
  obtain ⟨new, ht, hnew⟩ := h
  unfold passNet
  rw [ht, tally_append, tally_eq_zero (l := new), Int.add_zero]
  exact fun x hx hP => hnew x hx (of_decide_eq_true hP).1 p

/-- A step moves nothing for the passes, or is one release of a pass. -/
theorem pass_step {l : Lbl} (h : step cfg s l = some s') :
    (PassQuiet s s' ∧ ∀ j d, l ≠ .pass j (.release d)) ∨
    ∃ j d q order items i todo, l = .pass j (.release d) ∧ PassRelease s j d q order items i todo s' := by
  by_cases hl : ∃ j d, l = .pass j (.release d)
  · obtain ⟨j, d, rfl⟩ := hl
    obtain ⟨q, q', e, hq, -, hm, rfl⟩ := step_pass h
    cases hm with
    | released order items i todo d hpc =>
      exact .inr ⟨j, d, q, order, items, i, todo, rfl, hq, hpc, rfl,
        apply_sagas s (.pass j) (.release i.line order.id d), apply_db s (.pass j) (.release i.line order.id d), rfl⟩
  · refine .inl ⟨?_, fun j d he => hl ⟨j, d, he⟩⟩
    have hsame : s'.trace = s.trace → PassQuiet s s' := by
      intro ht
      exact ⟨[], by rw [ht, List.append_nil], by simp⟩
    cases step_shape h with
    | run i a s' hrun =>
      have hsaga : ∀ (e : Eff), ∀ x ∈ e.issued s (.saga i), x.caller.isPass = true → ∀ p, x.delta p = 0 := by
        intro e x hx hc
        rw [issued_caller hx] at hc; cases hc
      cases hrun with
      | prelude g g' e => exact ⟨_, rfl, hsaga e⟩
      | saga g oid pc pc' e => exact ⟨_, rfl, hsaga e⟩
    | other l c e s' hb hpass =>
      cases hpass with
      | recon => exact ⟨_, hb.trace, by intro x hx; cases hx⟩
      | crash => exact ⟨_, hb.trace, by intro x hx; cases hx⟩
      | none _ _ _ _ hsil => exact ⟨_, hb.trace, fun x hx _ => silent_delta hsil x hx⟩
      | pass j a q q' _ _ hq hal hm hp =>
        cases hm with
        | released order items i todo d hpc => exact absurd ⟨j, d, rfl⟩ hl
        | announced order items logged => exact ⟨_, hb.trace, fun x hx _ => silent_delta (by rfl) x hx⟩
        | cleared order items d =>
          refine ⟨_, hb.trace, fun x hx _ p => ?_⟩
          simp only [Eff.issued, List.mem_singleton] at hx
          subst hx
          simp [Issued.delta]
        | _ => exact ⟨_, hb.trace, by intro x hx; cases hx⟩
    | _ => exact hsame rfl

/-- What one release of a pass adds to an order's account. -/
theorem PassRelease.adds {j : Nat} {d : Delivery} {q : Pass} {order : Order} {items : List OrderItem}
    {i : OrderItem} {todo : List OrderItem} (h : PassRelease s j d q order items i todo s')
    (oid p : String) : passNet s' oid p = passNet s oid p +
      if order.id = oid then Issued.delta p ⟨.pass j, .release i.line, order.id, d.handled &&
        Catalog.succeeds (Catalog.release s.cat i.productId i.quantity order.id),
        (d.seen (wire (Catalog.release s.cat i.productId i.quantity order.id).1)).ok⟩ else 0 := by
  unfold passNet
  rw [h.trace, tally_append]
  simp [Eff.issued, tally_singleton, Caller.isPass, OrderItem.line]

theorem passNet_le {l : Lbl} (h : step cfg s l = some s') (oid p : String) :
    passNet s oid p ≤ passNet s' oid p := by
  rcases pass_step h with ⟨hq, -⟩ | ⟨j, d, q, order, items, i, todo, -, hr⟩
  · exact Int.le_of_eq (hq.keeps oid p).symm
  · rw [hr.adds]
    split
    · simp only [Issued.delta]
      split
      · rename_i happ
        have hs := (Bool.and_eq_true_iff.mp happ).2
        have hq : 0 < i.quantity := by
          rcases Catalog.release_cases s.cat i.productId i.quantity order.id with ⟨-, hq, -⟩ | ⟨hf, -⟩
          · exact hq
          · rw [hf] at hs; cases hs
        split
        · simp only [OrderItem.line]; omega
        · omega
      · omega
    · omega

/-! ## What a pass may still release -/

/-- What the pass may still release for the order is `todo`, or nothing. -/
def Pass.Owes (q : Pass) (oid : String) (todo : List Line) : Prop :=
  (∃ order items rest, q.pc = .release order items rest ∧ order.id = oid ∧
    rest.map OrderItem.line = todo) ∨
  oid ∉ q.todo ∧ ∀ order items rest, q.pc = .release order items rest → order.id ≠ oid

theorem PassMoves.owes {q q' : Pass} {a : Act} {e : Eff} {oid : String} {todo : List Line}
    (hm : PassMoves s q a q' e) (hq : PassOk s.db q) (ho : q.Owes oid todo)
    (hn : ∀ l d, e ≠ .release l oid d) : q'.Owes oid todo := by
  -- a pass that is not releasing now
  have hidle : oid ∉ q.todo → q'.todo = q.todo → (∀ order items rest, q'.pc ≠ .release order items rest) →
      q'.Owes oid todo := by
    intro h1 h2 h3
    exact .inr ⟨h2 ▸ h1, fun order items rest hp => absurd hp (h3 order items rest)⟩
  -- nor was before
  have hbefore : (∀ order items rest, q.pc ≠ .release order items rest) → oid ∉ q.todo := by
    intro h
    rcases ho with ⟨order, items, rest, hp, -⟩ | ⟨h1, -⟩
    · exact absurd hp (h order items rest)
    · exact h1
  cases hm with
  | took oid' rest order hpc ht hf =>
    have hnot := hbefore (by simp [hpc])
    rw [ht, List.mem_cons, not_or] at hnot
    refine .inr ⟨hnot.2, fun order' items' rest' hp => ?_⟩
    simp only [takeUp, PassPc.release.injEq] at hp
    obtain ⟨rfl, -, -⟩ := hp
    rw [(Orders.find_some hf).2]
    exact Ne.symm hnot.1
  | released order items i rest d hpc =>
    have hne : order.id ≠ oid := by
      intro he
      subst he
      exact hn i.line d rfl
    rcases ho with ⟨order', items', rest', hp, hid, -⟩ | ⟨h1, -⟩
    · rw [hpc] at hp; cases hp
      exact absurd hid hne
    · refine .inr ⟨h1, fun order' items' rest' hp => ?_⟩
      cases hp; exact hne
  | failed order items hpc =>
    refine hidle ?_ rfl (by simp)
    rcases ho with ⟨order', items', rest', hp, rfl, -⟩ | ⟨h1, -⟩
    · exact hq.once.2 order' items' rest' hp
    · exact h1
  | loaded oid' items order hpc hf => exact hidle (hbefore (by simp [hpc])) rfl (by simp)
  | announced order items logged hpc => exact hidle (hbefore (by simp [hpc])) rfl (by simp)
  | cleared order items d hpc => exact hidle (hbefore (by simp [hpc])) rfl (by simp)

/-- A pass that is releasing was, or has just taken its order up, or has just
released a line of it. -/
theorem releasing_origin {l : Lbl} (h : step cfg s l = some s') {j : Nat} {q' : Pass} {order : Order}
    {items todo : List OrderItem} (hj : s'.passes[j]? = some q') (hpc : q'.pc = .release order items todo) :
    (∃ q, s.passes[j]? = some q ∧ q.pc = .release order items todo) ∨
      (todo = if order.stockReserved then items else []) ∨
      ∃ d q i, l = .pass j (.release d) ∧ s.passes[j]? = some q ∧ q.pc = .release order items (i :: todo) := by
  have hsame : s'.passes = s.passes → ∃ q, s.passes[j]? = some q ∧ q.pc = .release order items todo := by
    intro hp
    exact ⟨q', hp ▸ hj, hpc⟩
  cases step_shape h with
  | run i a s' hrun =>
    cases hrun with
    | prelude g g' e => exact .inl (hsame (apply_passes s (.saga i) e))
    | saga g oid pc pc' e => exact .inl (hsame (apply_passes s (.saga i) e))
  | other l c e s' hb hpass =>
    cases hpass with
    | none _ _ _ _ _ hp => exact .inl (hsame hp)
    | recon _ _ hp =>
      rw [hp] at hj
      rcases Procs.spawn_cases hj with hj | ⟨-, rfl⟩
      · exact .inl ⟨q', hj, hpc⟩
      · cases hpc
    | crash k r _ _ hr hp =>
      rw [hp] at hj
      rcases Procs.set_cases hr hj with ⟨rfl, rfl⟩ | ⟨-, hj⟩
      · exact .inl ⟨r, hr, hpc⟩
      · exact .inl ⟨q', hj, hpc⟩
    | pass k a r r' _ _ hr hal hm hp =>
      rw [hp] at hj
      rcases Procs.set_cases hr hj with ⟨rfl, rfl⟩ | ⟨-, hj⟩
      · cases hm with
        | took oid rest order' _ _ hf =>
          simp only [takeUp, PassPc.release.injEq] at hpc
          obtain ⟨rfl, rfl, rfl⟩ := hpc
          exact .inr (.inl rfl)
        | released order' items' i todo' d hpc' =>
          simp only [PassPc.release.injEq] at hpc
          obtain ⟨rfl, rfl, rfl⟩ := hpc
          exact .inr (.inr ⟨d, r, i, rfl, hr, hpc'⟩)
        | _ => cases hpc
      · exact .inl ⟨q', hj, hpc⟩
  | _ => exact .inl (hsame rfl)

/-- A step that is not a release for the order leaves what a pass may release for it. -/
theorem owes_step {l : Lbl} (Q : Passes s) (h : step cfg s l = some s') {j : Nat} {q : Pass}
    {oid : String} {todo : List Line} (hj : s.passes[j]? = some q) (ho : q.Owes oid todo)
    (hn : ∀ d, l = .pass j (.release d) → ∀ order items rest, q.pc = .release order items rest →
      order.id ≠ oid) :
    ∃ q', s'.passes[j]? = some q' ∧ q'.Owes oid todo := by
  have hsame : s'.passes = s.passes → ∃ q', s'.passes[j]? = some q' ∧ q'.Owes oid todo := by
    intro hp
    exact ⟨q, hp ▸ hj, ho⟩
  cases step_shape h with
  | run i a s' hrun =>
    cases hrun with
    | prelude g g' e => exact hsame (apply_passes s (.saga i) e)
    | saga g oid pc pc' e => exact hsame (apply_passes s (.saga i) e)
  | other l c e s' hb hpass =>
    cases hpass with
    | none _ _ _ _ _ hp => exact hsame hp
    | recon _ _ hp => exact ⟨q, by rw [hp]; exact Procs.spawn_old hj, ho⟩
    | crash k r _ _ hr hp =>
      rw [hp]
      by_cases hk : k = j
      · subst hk
        rw [hj, Option.some.injEq] at hr; subst hr
        exact ⟨_, Procs.set_self hj, ho⟩
      · exact ⟨q, by rw [List.getElem?_set_ne hk]; exact hj, ho⟩
    | pass k a r r' _ _ hr hal hm hp =>
      rw [hp]
      by_cases hk : k = j
      · subst hk
        rw [hj, Option.some.injEq] at hr; subst hr
        refine ⟨_, Procs.set_self hj, hm.owes (Q k q hj) ho ?_⟩
        intro l d he
        subst he
        cases hm with
        | released order items i rest d hpc => exact hn d rfl order items (i :: rest) hpc rfl
      · exact ⟨q, by rw [List.getElem?_set_ne hk]; exact hj, ho⟩
  | _ => exact hsame rfl

end Gestalt.Checkout
