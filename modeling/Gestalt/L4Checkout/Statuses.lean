import Gestalt.L4Checkout.Rows

/-!
# Status follows the run

Two writers set `orders.status`: the run that inserted the order, and the
reconciliation pass. Each decided on what it had read earlier, and each UPDATE
applies to whatever the row is by then. As long as no pass commits FAILED for
an order whose run is still undecided or whose row is PAID (`settledPass`), the
row follows the run: PENDING until the run's own outcome, that outcome
afterwards, and FAILED only by a pass once the run is gone (`StatusOk`).
-/
namespace Gestalt.Checkout

open Gestalt.Orders (Order OrderItem)

variable {cfg : Config} {cat : Catalog.Products} {s s' : Sys}

/-- The order's run is alive and has not committed PAID or FAILED. -/
def Sys.undecided (s : Sys) (oid : String) : Bool :=
  s.sagas.any fun g => g.alive && match g.phase with
    | .saga oid' pc => oid' = oid && pc.outcome = none
    | _ => false

/-- No pass commits FAILED for an order that its run may still decide, or that is PAID. -/
def settledPass (s : Sys) : Lbl → Bool
  | .pass j .commit =>
    match s.passes[j]? with
    | some ⟨_, _, .release order _ [], _⟩ =>
      !s.undecided order.id && (Orders.find s.db order.id).all fun o => o.status ≠ .paid
    | _ => true
  | _ => true

/-- The row of a run at `pc`. -/
structure StatusOk (alive : Bool) (pc : Pc) (o : Order) : Prop where
  decided : ∀ st, pc.outcome = some st → o.status = st
  undecided : pc.outcome = none → o.status = .pending ∨ o.status = .failed ∧ alive = false

theorem StatusOk.pending {pc : Pc} {o : Order} (h : StatusOk true pc o) (hn : pc.outcome = none) :
    o.status = .pending := by
  rcases h.undecided hn with h | ⟨-, h⟩
  · exact h
  · cases h

/-- The run moves on, and its row with it. -/
theorem SagaMoves.status {g : Saga} {oid : String} {pc pc' : Pc} {a : Act} {e : Eff} {o : Order}
    (h : SagaMoves s g oid pc a pc' e) (ho : o.id = oid) (hok : StatusOk true pc o) :
    StatusOk true pc' (e.onRow s.now o) := by
  -- nothing written, and the same outcome
  have hsame : ∀ pc' : Pc, pc'.outcome = pc.outcome → StatusOk true pc' o := by
    intro pc' h1
    exact ⟨by rw [h1]; exact hok.decided, by rw [h1]; exact hok.undecided⟩
  cases h with
  | marked held =>
    simp only [Eff.onRow, if_pos ho]
    refine ⟨?_, ?_⟩
    · intro st hst; cases hst
    · intro _; left; rw [Orders.set_status]; exact hok.pending rfl
  | failed b reason =>
    simp only [Eff.onRow, if_pos ho]
    refine ⟨?_, ?_⟩
    · intro st hst; cases hst; simp [failing]
    · intro hn; cases hn
  | paid =>
    simp only [Eff.onRow, if_pos ho]
    refine ⟨?_, ?_⟩
    · intro st hst; cases hst; simp
    · intro hn; cases hn
  | loaded b order => cases b <;> exact hsame _ rfl
  | announced b order ev logged => cases b <;> exact hsame _ rfl
  | cleared b order d => cases b <;> exact hsame _ rfl
  | _ => exact hsame _ rfl

/-! ## The step lemma -/

theorem settledPass_commit {j : Nat} {p : Pass} {order : Order} {items : List OrderItem}
    (h : settledPass s (.pass j .commit) = true) (hp : s.passes[j]? = some p)
    (hpc : p.pc = .release order items []) :
    s.undecided order.id = false ∧ ∀ o, Orders.find s.db order.id = some o → o.status ≠ .paid := by
  obtain ⟨snap, todo, pc, alive⟩ := p
  simp only at hpc
  subst hpc
  simp only [settledPass, hp, Bool.and_eq_true, Bool.not_eq_true'] at h
  refine ⟨h.1, fun o ho => ?_⟩
  rw [ho] at h
  exact of_decide_eq_true h.2

/-- The owner of a decided order is gone, or past its outcome. -/
theorem undecided_eq_false {oid : String} (h : s.undecided oid = false) {i : Nat} {g : Saga} {pc : Pc}
    (hg : s.sagas[i]? = some g) (hp : g.phase = .saga oid pc) (hout : pc.outcome = none) :
    g.alive = false := by
  unfold Sys.undecided at h
  have := List.any_eq_false.mp h g (List.mem_of_getElem? hg)
  simpa [hp, hout] using this

/-- **Step lemma.** -/
theorem statuses_step {l : Lbl} (K : Keys s.db s.sagas) (I : AtRow StatusOk s)
    (hl : settledPass s l = true) (h : step cfg s l = some s') : AtRow StatusOk s' := by
  refine AtRow.step K I ?_ ?_ ?_ ?_ h
  · intro o hpend _
    refine ⟨?_, fun _ => .inl hpend⟩
    intro st hst; cases hst
  · intro g oid pc pc' a e o hm ho hok
    exact hm.status ho hok
  · intro b pc o hok
    refine ⟨hok.decided, fun hn => ?_⟩
    rcases hok.undecided hn with h | ⟨h, -⟩
    · exact .inl h
    · exact .inr ⟨h, rfl⟩
  · intro c e i g pc o hb hpass hg hp ho hok
    -- a row whose status stays
    have hkeep : (e.onRow s.now o).status = o.status → StatusOk g.alive pc (e.onRow s.now o) := by
      intro h1
      exact ⟨by rw [h1]; exact hok.decided, by rw [h1]; exact hok.undecided⟩
    cases hpass with
    | recon => exact hok
    | crash => exact hok
    | none _ _ _ _ hsil => exact hkeep (onRow_silent hsil s.now o).1
    | pass j a p p' _ _ hj hal hm =>
      obtain ⟨-, hst⟩ := hm.onRow s.now o
      rcases hst with hst | ⟨hst, rfl, order, items, hpc, hoid⟩
      · exact hkeep hst
      · obtain ⟨hund, hpaid⟩ := settledPass_commit hl hj hpc
        have hfind : Orders.find s.db order.id = some o := by
          rw [← hoid]
          exact (Orders.unique_ids K.ids).get ho
        refine ⟨?_, ?_⟩
        · intro st hout
          have hdec := hok.decided st hout
          rw [hst]
          cases st with
          | failed => rfl
          | paid => exact absurd hdec (hpaid o hfind)
          | pending => cases pc <;> first | cases hout | (rename_i b _; cases b <;> cases hout)
        · intro hout
          exact .inr ⟨hst, undecided_eq_false hund hg (hoid ▸ hp) hout⟩

/-- The runs in which passes commit FAILED only for decided orders. -/
def settledLts (cfg : Config) (cat : Catalog.Products) : LTS Sys Lbl :=
  (lts cfg cat).restrict fun s l => settledPass s l = true

theorem statuses_reachable (h : (settledLts cfg cat).Reachable s) : AtRow StatusOk s := by
  refine LTS.reachable_induct ?_ ?_ h
  · intro s hs i g oid pc hg
    subst hs
    simp [start] at hg
  · intro s l s' hr I hst
    exact statuses_step (keys_reachable hr.unrestrict) I hst.2 hst.1

end Gestalt.Checkout
