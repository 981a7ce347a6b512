import Gestalt.L4Checkout.Keys

/-!
# A run and the row it owns

What is true of an order's row given where its run stands: `AtRow R`, for a
relation `R` of the run's `alive`, its program point and its row. `AtRow.step`
is the rule to prove one: `R` holds of a new row, the run's own steps carry it
along, a crash keeps it, and so does what the background passes write.

`RowOk` holds whatever the passes do: `stock_reserved` follows the run, and PAID
is written by the run alone.
-/
namespace Gestalt.Checkout

open Gestalt.Orders (Db Order OrderItem OrderStatus Line Write Core cores linesOf)

variable {cfg : Config} {cat : Catalog.Products} {s s' : Sys}

/-- What the run has committed. -/
def Pc.outcome : Pc → Option OrderStatus
  | .ended true _ => some .paid
  | .ended false _ => some .failed
  | _ => none

/-- `stock_reserved`, where the program point tells. -/
def Pc.marked : Pc → Option Bool
  | .created => some false
  | .reserve _ _ => some false
  | .release .partialRollback _ _ => some false
  | .release .paymentFailed _ _ => some true
  | .charge => some true
  | .await _ => some true
  | .pay => some true
  | .ended true _ => some true
  | .ended false _ => none

theorem SagaMoves.outcome {g : Saga} {oid : String} {pc pc' : Pc} {a : Act} {e : Eff}
    {st : OrderStatus} (h : SagaMoves s g oid pc a pc' e) (hout : pc.outcome = some st) :
    pc'.outcome = some st := by
  cases h with
  | loaded b => cases b <;> exact hout
  | announced b => cases b <;> exact hout
  | cleared b => cases b <;> exact hout
  | _ => cases hout

/-! ## What a step does to a row -/

/-- What an effect does to one row. -/
def Eff.onRow (now : Nat) (o : Order) : Eff → Order
  | .write oid w => if o.id = oid then o.set w now else o
  | _ => o

theorem onDb_orders {e : Eff} (h : e.inserts = false) (now : Nat) (db : Db) :
    (e.onDb now db).orders = db.orders.map fun o => e.onRow now o := by
  cases e with
  | insert order lines => cases h
  | write oid w => rfl
  | _ => exact (List.map_id' db.orders).symm

@[simp] theorem onRow_id (e : Eff) (now : Nat) (o : Order) : (e.onRow now o).id = o.id := by
  cases e with
  | write oid w => simp only [Eff.onRow]; split <;> simp
  | _ => rfl

/-- A run writes no row but its own. -/
theorem SagaMoves.onRow_other {g : Saga} {oid : String} {pc pc' : Pc} {a : Act} {e : Eff}
    (h : SagaMoves s g oid pc a pc' e) {o : Order} (ho : o.id ≠ oid) (now : Nat) :
    e.onRow now o = o := by
  cases h <;> first | rfl | exact if_neg ho

/-- A background step that writes no status leaves a row's status and mark. -/
theorem onRow_silent {e : Eff} (h : e.silent = true) (now : Nat) (o : Order) :
    (e.onRow now o).status = o.status ∧ (e.onRow now o).stockReserved = o.stockReserved := by
  cases e with
  | write oid w =>
    simp only [Eff.silent, decide_eq_true_eq] at h
    simp only [Eff.onRow]
    split
    · simp [h.1, h.2]
    · simp
  | _ => exact ⟨rfl, rfl⟩

/-- What a step of a pass writes into a row. -/
theorem PassMoves.onRow {p p' : Pass} {a : Act} {e : Eff} (h : PassMoves s p a p' e) (now : Nat)
    (o : Order) : (e.onRow now o).stockReserved = o.stockReserved ∧
      ((e.onRow now o).status = o.status ∨ (e.onRow now o).status = .failed ∧ a = .commit ∧
        ∃ order items, p.pc = .release order items [] ∧ o.id = order.id) := by
  cases h with
  | failed order items hpc =>
    simp only [Eff.onRow]
    split
    · rename_i ho
      refine ⟨by simp [overdue], ?_⟩
      by_cases hf : order.status = .failed
      · exact .inl (by simp [overdue, hf])
      · exact .inr ⟨by simp [overdue, hf], trivial, order, items, hpc, ho⟩
    · simp
  | _ => exact ⟨rfl, .inl rfl⟩

/-- What any background step writes into a row. -/
theorem Background.onRow {c : Caller} {e : Eff} (h : Background s c e s') (o : Order) :
    (e.onRow s.now o).stockReserved = o.stockReserved ∧
      ((e.onRow s.now o).status = .paid → o.status = .paid) := by
  have he := h.eff
  cases e with
  | write oid w =>
    simp only [Eff.background, decide_eq_true_eq] at he
    simp only [Eff.onRow]
    split
    · cases hw : w.status with
      | none => simp [hw, he.2]
      | some st =>
        refine ⟨by simp [he.2], fun hp => ?_⟩
        simp only [Orders.set_status, hw, Option.getD_some] at hp
        exact absurd (hw.trans (congrArg some hp)) he.1
    · exact ⟨rfl, id⟩
  | _ => exact ⟨rfl, id⟩

/-! ## Where a run and a row come from -/

/-- How run `g` at `pc` became run `g'` at `pc'` in one step. -/
structure RunFrom (s : Sys) (g : Saga) (oid : String) (pc : Pc) (g' : Saga) (pc' : Pc) : Prop where
  phase : g.phase = .saga oid pc
  req : g'.req = g.req
  dead : g.alive = false → g' = g
  moves : pc' = pc ∨ ∃ a e, SagaMoves s g oid pc a pc' e

theorem RunFrom.outcome {g g' : Saga} {oid : String} {pc pc' : Pc} {st : OrderStatus}
    (h : RunFrom s g oid pc g' pc') (hout : pc.outcome = some st) : pc'.outcome = some st := by
  rcases h.moves with rfl | ⟨a, e, hm⟩
  · exact hout
  · exact hm.outcome hout

/-- A run past its commit was there before the step, or has just inserted its order. -/
theorem run_origin {l : Lbl} (K : Keys s.db s.sagas) (h : step cfg s l = some s') {i : Nat} {g' : Saga}
    {oid : String} {pc' : Pc} (hg' : s'.sagas[i]? = some g') (hp' : g'.phase = .saga oid pc') :
    (∃ g pc, s.sagas[i]? = some g ∧ RunFrom s g oid pc g' pc') ∨ ∀ c ∈ cores s.db, c.id ≠ oid := by
  -- a run this step does not move
  have hsame : s.sagas[i]? = some g' → ∃ g pc, s.sagas[i]? = some g ∧ RunFrom s g oid pc g' pc' :=
    fun hg => ⟨g', pc', hg, hp', rfl, fun _ => rfl, .inl rfl⟩
  cases step_shape h with
  | spawn r =>
    rcases Procs.spawn_cases hg' with hg | ⟨-, rfl⟩
    · exact .inl (hsame hg)
    · cases hp'
  | run j a s' hrun =>
    cases hrun with
    | prelude g g1 e hg hal hne hm =>
      rcases Procs.set_cases hg hg' with ⟨rfl, rfl⟩ | ⟨-, hj⟩
      · cases hm with
        | committed order hpc =>
          obtain ⟨-, -, -, hnew⟩ := (K.saga i g hg).lock order hpc hal
          cases hp'
          exact .inr fun c hc => (hnew c hc).1
        | _ => cases hp'
      · exact .inl (hsame hj)
    | saga g oid' pc pc1 e hg hal hp hm =>
      rcases Procs.set_cases hg hg' with ⟨rfl, rfl⟩ | ⟨-, hj⟩
      · cases hp'
        exact .inl ⟨g, pc, hg, hp, rfl, fun hd => absurd hal (by simp [hd]), .inr ⟨a, e, hm⟩⟩
      · exact .inl (hsame hj)
  | crash j g hg =>
    rcases Procs.set_cases hg hg' with ⟨rfl, rfl⟩ | ⟨-, hj⟩
    · refine .inl ⟨g, pc', hg, hp', rfl, fun hd => ?_, .inl rfl⟩
      cases g; simp only at hd; subst hd; rfl
    · exact .inl (hsame hj)
  | pay l p hl hp => exact .inl (hsame hg')
  | other l c e s' hb _ => exact .inl (hsame (hb.sagas ▸ hg'))

/-- The run of an order that was there before the step. -/
theorem run_before {l : Lbl} (K : Keys s.db s.sagas) (h : step cfg s l = some s') {i : Nat} {g' : Saga}
    {pc' : Pc} {o : Order} (hg' : s'.sagas[i]? = some g') (hp' : g'.phase = .saga o.id pc')
    (ho : o ∈ s.db.orders) : ∃ g pc, s.sagas[i]? = some g ∧ RunFrom s g o.id pc g' pc' := by
  rcases run_origin K h hg' hp' with hrun | hnew
  · exact hrun
  · exact absurd rfl (hnew o.core (Orders.mem_core ho))

inductive RowStep (s s' : Sys) (l : Lbl) (o' : Order) : Prop
  | new : o'.status = .pending → o'.stockReserved = false → RowStep s s' l o'
  | kept (o : Order) : o ∈ s.db.orders → o.id = o'.id → o.status = o'.status →
      o.stockReserved = o'.stockReserved → RowStep s s' l o'
  /-- its run's step -/
  | run (i : Nat) (g : Saga) (pc pc' : Pc) (a : Act) (e : Eff) (o : Order) : s.sagas[i]? = some g →
      g.alive = true → g.phase = .saga o.id pc → SagaMoves s g o.id pc a pc' e →
      s'.sagas[i]? = some { g with phase := .saga o.id pc' } → o ∈ s.db.orders →
      o' = e.onRow s.now o → RowStep s s' l o'
  /-- a pass commits FAILED -/
  | pass (j : Nat) (q : Pass) (order : Order) (items : List OrderItem) (o : Order) : l = .pass j .commit →
      s.passes[j]? = some q → q.pc = .release order items [] → o ∈ s.db.orders → o.id = o'.id →
      o.id = order.id → o'.status = .failed → o.stockReserved = o'.stockReserved → RowStep s s' l o'

theorem row_step {l : Lbl} (K : Keys s.db s.sagas) (h : step cfg s l = some s') {o' : Order}
    (ho' : o' ∈ s'.db.orders) : RowStep s s' l o' := by
  cases step_shape h with
  | run i a s' hrun =>
    cases hrun with
    | prelude g g' e hg hal hne hm =>
      simp only [apply_db] at ho'
      cases hm with
      | committed order hpc =>
        obtain ⟨-, -, ⟨hpend, hres⟩, -⟩ := (K.saga i g hg).lock order hpc hal
        simp only [Eff.onDb, Orders.insert, List.mem_append, List.mem_singleton] at ho'
        rcases ho' with ho | rfl
        · exact .kept o' ho rfl rfl rfl
        · exact .new hpend hres
      | _ => exact .kept o' ho' rfl rfl rfl
    | saga g oid pc pc' e hg hal hp hm =>
      simp only [apply_db] at ho'
      rw [onDb_orders hm.inserts, List.mem_map] at ho'
      obtain ⟨o, ho, rfl⟩ := ho'
      by_cases hid : o.id = oid
      · subst hid
        exact .run i g pc pc' a e o hg hal hp hm (Procs.set_self hg) ho rfl
      · rw [hm.onRow_other hid]
        exact .kept o ho rfl rfl rfl
  | other l c e s' hb hpass =>
    rw [hb.db, onDb_orders hb.inserts, List.mem_map] at ho'
    obtain ⟨o, ho, rfl⟩ := ho'
    have hid := (onRow_id e s.now o).symm
    have hres := (hb.onRow o).1.symm
    cases hpass with
    | recon => exact .kept o ho hid rfl hres
    | crash => exact .kept o ho hid rfl hres
    | none _ _ _ _ hsil => exact .kept o ho hid (onRow_silent hsil s.now o).1.symm hres
    | pass j a p p' _ _ hj hal hm =>
      rcases (hm.onRow s.now o).2 with hst | ⟨hst, rfl, order, items, hpc, hoid⟩
      · exact .kept o ho hid hst.symm hres
      · exact .pass j p order items o rfl hj hpc ho hid hoid hst hres
  | _ => exact .kept o' ho' rfl rfl rfl

/-! ## The rule -/

/-- `R` holds between every run past its commit and the row it owns. -/
def AtRow (R : Bool → Pc → Order → Prop) (s : Sys) : Prop :=
  ∀ (i : Nat) (g : Saga) (oid : String) (pc : Pc), s.sagas[i]? = some g → g.phase = .saga oid pc →
    ∀ o ∈ s.db.orders, o.id = oid → R g.alive pc o

/-- **Row rule.** -/
theorem AtRow.step {R : Bool → Pc → Order → Prop} {l : Lbl} (K : Keys s.db s.sagas) (I : AtRow R s)
    (hnew : ∀ o : Order, o.status = .pending → o.stockReserved = false → R true .created o)
    (hmove : ∀ (g : Saga) (oid : String) (pc pc' : Pc) (a : Act) (e : Eff) (o : Order),
      SagaMoves s g oid pc a pc' e → o.id = oid → R true pc o → R true pc' (e.onRow s.now o))
    (hcrash : ∀ (b : Bool) (pc : Pc) (o : Order), R b pc o → R false pc o)
    (hback : ∀ (c : Caller) (e : Eff) (i : Nat) (g : Saga) (pc : Pc) (o : Order), Background s c e s' →
      Passing cfg s l c e s' → s.sagas[i]? = some g → g.phase = .saga o.id pc → o ∈ s.db.orders →
      R g.alive pc o → R g.alive pc (e.onRow s.now o))
    (h : step cfg s l = some s') : AtRow R s' := by
  cases step_shape h with
  | spawn r =>
    intro i g oid pc hg hp o ho hid
    rcases Procs.spawn_cases hg with hg | ⟨-, rfl⟩
    · exact I i g oid pc hg hp o ho hid
    · cases hp
  | run i a s' hrun =>
    cases hrun with
    | prelude g g' e hg hal hne hm =>
      intro j d oid pc hj hp o ho hid
      simp only [apply_db] at ho
      cases hm with
      | committed order hpc =>
        obtain ⟨-, -, ⟨hpend, hres⟩, hnewid⟩ := (K.saga i g hg).lock order hpc hal
        simp only [Eff.onDb, Orders.insert, List.mem_append, List.mem_singleton] at ho
        rcases Procs.set_cases hg hj with ⟨rfl, rfl⟩ | ⟨-, hj0⟩
        · cases hp
          rcases ho with ho | rfl
          · exact absurd hid (hnewid o.core (Orders.mem_core ho)).1
          · rw [show ({ g with phase := .saga o.id .created } : Saga).alive = true from hal]
            exact hnew o hpend hres
        · rcases ho with ho | rfl
          · exact I j d oid pc hj0 hp o ho hid
          · -- the new id is nobody else's
            obtain ⟨c, hc, hcid, -⟩ := (K.saga j d hj0).own oid pc hp
            exact absurd (hcid.trans hid.symm) (hnewid c hc).1
      | _ =>
        rcases Procs.set_cases hg hj with ⟨rfl, rfl⟩ | ⟨-, hj⟩
        · cases hp
        · exact I j d oid pc hj hp o ho hid
    | saga g oid pc pc' e hg hal hp hm =>
      intro j d oid' pc0 hj hp0 o' ho' hid'
      simp only [apply_db] at ho'
      rw [onDb_orders hm.inserts, List.mem_map] at ho'
      obtain ⟨o, ho, rfl⟩ := ho'
      rw [onRow_id] at hid'
      rcases Procs.set_cases hg hj with ⟨rfl, rfl⟩ | ⟨hne, hj⟩
      · cases hp0
        have hok := I j g oid pc hg hp o ho hid'
        rw [hal] at hok
        rw [show ({ g with phase := .saga oid pc' } : Saga).alive = true from hal]
        exact hmove g oid pc pc' a e o hm hid' hok
      · -- another run's row: the write is not to it
        have hoid : o.id ≠ oid := by
          intro he
          exact hne (K.one j i d g oid pc0 pc hj hg (by rw [hp0, ← hid', he]) hp)
        rw [hm.onRow_other hoid]
        exact I j d oid' pc0 hj hp0 o ho hid'
  | crash i g hg =>
    intro j d oid pc hj hp o ho hid
    rcases Procs.set_cases hg hj with ⟨rfl, rfl⟩ | ⟨-, hj⟩
    · exact hcrash g.alive pc o (I j g oid pc hg hp o ho hid)
    · exact I j d oid pc hj hp o ho hid
  | pay l p hl hp => exact I
  | other l c e s' hb hpass =>
    intro i g oid pc hg hp o' ho' hid'
    rw [hb.sagas] at hg
    rw [hb.db, onDb_orders hb.inserts, List.mem_map] at ho'
    obtain ⟨o, ho, rfl⟩ := ho'
    rw [onRow_id] at hid'
    subst hid'
    exact hback c e i g pc o hb hpass hg hp ho (I i g o.id pc hg hp o ho rfl)

/-! ## What holds whatever the passes do -/

structure RowOk (pc : Pc) (o : Order) : Prop where
  marked : ∀ b, pc.marked = some b → o.stockReserved = b
  paid : o.status = .paid → pc.outcome = some .paid

theorem SagaMoves.row {g : Saga} {oid : String} {pc pc' : Pc} {a : Act} {e : Eff} {o : Order}
    (h : SagaMoves s g oid pc a pc' e) (ho : o.id = oid) (hok : RowOk pc o) :
    RowOk pc' (e.onRow s.now o) := by
  -- nothing written, and the same outcome and mark
  have hsame : ∀ pc' : Pc, pc'.outcome = pc.outcome → pc'.marked = pc.marked → RowOk pc' o := by
    intro pc' h1 h2
    exact ⟨by rw [h2]; exact hok.marked, by rw [h1]; exact hok.paid⟩
  cases h with
  | marked held =>
    simp only [Eff.onRow, if_pos ho]
    refine ⟨fun b hb => by cases hb; simp, fun hp => ?_⟩
    rw [Orders.set_status] at hp
    cases hok.paid hp
  | failed b reason =>
    simp only [Eff.onRow, if_pos ho]
    refine ⟨fun b hb => by (cases hb), fun hp => ?_⟩
    simp [failing] at hp
  | paid =>
    simp only [Eff.onRow, if_pos ho]
    refine ⟨fun b hb => ?_, fun _ => rfl⟩
    cases hb; simpa using hok.marked true rfl
  | loaded b order => cases b <;> exact hsame _ rfl rfl
  | announced b order ev logged => cases b <;> exact hsame _ rfl rfl
  | cleared b order d => cases b <;> exact hsame _ rfl rfl
  | released b l todo reason d => cases b <;> exact hsame _ rfl rfl
  | _ => exact hsame _ rfl rfl

theorem rows_reachable (h : (lts cfg cat).Reachable s) : AtRow (fun _ => RowOk) s := by
  refine LTS.reachable_induct ?_ ?_ h
  · intro s hs i g oid pc hg; subst hs; simp [start] at hg
  · intro s l s' hr I hst
    refine AtRow.step (keys_reachable hr) I ?_ ?_ (fun _ _ _ h => h) ?_ hst
    · intro o hpend hres
      refine ⟨fun b hb => ?_, fun hp => ?_⟩
      · cases hb; exact hres
      · rw [hpend] at hp; cases hp
    · intro g oid pc pc' a e o hm ho hok
      exact hm.row ho hok
    · intro c e i g pc o hb _ _ _ _ hok
      obtain ⟨h1, h2⟩ := hb.onRow o
      exact ⟨by rw [h1]; exact hok.marked, fun hp => hok.paid (h2 hp)⟩

/-- The run of an order, and what its row says of it. -/
theorem row_owner (h : (lts cfg cat).Reachable s) {o : Order} (ho : o ∈ s.db.orders) :
    ∃ (i : Nat) (g : Saga) (pc : Pc), s.sagas[i]? = some g ∧ g.phase = .saga o.id pc ∧ RowOk pc o ∧
      linesOf s.db o.id = g.rawItems := by
  have K := keys_reachable h
  obtain ⟨i, g, pc, hg, hp⟩ := K.owner o.core (Orders.mem_core ho)
  obtain ⟨-, -, -, -, -, hl, -⟩ := (K.saga i g hg).own o.id pc hp
  exact ⟨i, g, pc, hg, hp, rows_reachable h i g o.id pc hg hp o ho rfl, hl⟩

/-! ## `stock_reserved` stays -/

/-- The order's row says that all its lines are reserved. -/
def Reserved (db : Db) (oid : String) : Prop := ∃ o ∈ db.orders, o.id = oid ∧ o.stockReserved = true

theorem reserved_step {l : Lbl} {oid : String} (hr : Reserved s.db oid) (h : step cfg s l = some s') :
    Reserved s'.db oid := by
  obtain ⟨o, ho, hid, hres⟩ := hr
  -- a step that adds no row and clears no mark
  have hkeep : ∀ e : Eff, e.inserts = false → s'.db = e.onDb s.now s.db →
      (e.onRow s.now o).stockReserved = true → Reserved s'.db oid := by
    intro e hins hdb hm
    refine ⟨e.onRow s.now o, ?_, (onRow_id e s.now o).trans hid, hm⟩
    rw [hdb, onDb_orders hins]
    exact List.mem_map_of_mem ho
  cases step_shape h with
  | run i a s' hrun =>
    cases hrun with
    | prelude g g' e hg hal hne hm =>
      cases hm with
      | committed order hpc =>
        refine ⟨o, ?_, hid, hres⟩
        simp only [apply_db, Eff.onDb, Orders.insert]
        exact List.mem_append_left _ ho
      | _ => exact ⟨o, ho, hid, hres⟩
    | saga g oid' pc pc' e hg hal hp hm =>
      refine hkeep e hm.inserts (apply_db s (.saga i) e) ?_
      cases hm <;> simp only [Eff.onRow, failing] <;> first | exact hres | (split <;> simp [hres])
  | other l c e s' hb _ => exact hkeep e hb.inserts hb.db ((hb.onRow o).1.trans hres)
  | _ => exact ⟨o, ho, hid, hres⟩

end Gestalt.Checkout
