import Gestalt.L4Checkout.Rows

/-!
# What a reconciliation pass works on

A pass reads from snapshots. A snapshot may be old, but an order in it is still
the same order, with the same line items, and what it says is reserved is:
`PassOk`. The columns that may have changed since are `status` and an unset
`stock_reserved`, and with them what the pass should be doing.
-/
namespace Gestalt.Checkout

open Gestalt.Orders (Db Order OrderItem Core cores linesOf)

variable {cfg : Config} {cat : Catalog.Products} {s s' : Sys}

structure PassOk (db : Db) (p : Pass) : Prop where
  snap : ∀ c ∈ cores p.snap, c ∈ cores db ∧ linesOf p.snap c.id = linesOf db c.id
  reserved : ∀ oid, Reserved p.snap oid → Reserved db oid
  /-- what is left to release is a rest of the order's items, or nothing was owed -/
  work : ∀ order items todo, p.pc = .release order items todo → order.core ∈ cores db ∧
    items.map OrderItem.line = linesOf db order.id ∧
    (∃ released, released ++ todo = if order.stockReserved then items else []) ∧
    (order.stockReserved = true → Reserved db order.id)
  /-- it takes an order up once -/
  once : p.todo.Nodup ∧ ∀ order items todo, p.pc = .release order items todo → order.id ∉ p.todo

def Passes (s : Sys) : Prop := ∀ (j : Nat) (p : Pass), s.passes[j]? = some p → PassOk s.db p

theorem PassOk.frame {db db' : Db} {p : Pass} (h : PassOk db p)
    (hf : ∀ c ∈ cores db, c ∈ cores db' ∧ linesOf db' c.id = linesOf db c.id)
    (hr : ∀ oid, Reserved db oid → Reserved db' oid) : PassOk db' p where
  snap c hc := by
    obtain ⟨h1, h2⟩ := h.snap c hc
    exact ⟨(hf c h1).1, h2.trans (hf c h1).2.symm⟩
  reserved oid ho := hr oid (h.reserved oid ho)
  work order items todo hp := by
    obtain ⟨h1, h2, h3, h4⟩ := h.work order items todo hp
    exact ⟨(hf _ h1).1, h2.trans (hf _ h1).2.symm, h3, fun hres => hr order.id (h4 hres)⟩
  once := h.once

/-- A pass that is not releasing. -/
theorem PassOk.idle {db : Db} {p : Pass} (hs : ∀ c ∈ cores p.snap, c ∈ cores db ∧
      linesOf p.snap c.id = linesOf db c.id) (hr : ∀ oid, Reserved p.snap oid → Reserved db oid)
    (hn : p.todo.Nodup) (hp : ∀ order items todo, p.pc ≠ .release order items todo) : PassOk db p where
  snap := hs
  reserved := hr
  work order items todo h := absurd h (hp order items todo)
  once := ⟨hn, fun order items todo h => absurd h (hp order items todo)⟩

theorem PassOk.move {p p' : Pass} {a : Act} {e : Eff} (h : PassOk s.db p)
    (hm : PassMoves s p a p' e) : PassOk s.db p' := by
  cases hm with
  | took oid rest order hpc ht hf =>
    obtain ⟨hnot, hnd⟩ := List.nodup_cons.mp (ht ▸ h.once.1)
    obtain ⟨hmem, hid⟩ := Orders.find_some hf
    refine ⟨h.snap, h.reserved, ?_, hnd, ?_⟩
    · intro order' items todo hp
      obtain ⟨h1, h2⟩ := h.snap order.core (Orders.mem_core hmem)
      simp only [takeUp, PassPc.release.injEq] at hp
      obtain ⟨rfl, rfl, rfl⟩ := hp
      exact ⟨h1, h2, ⟨[], rfl⟩, fun hres => h.reserved order.id ⟨order, hmem, rfl, hres⟩⟩
    · intro order' items todo hp
      simp only [takeUp, PassPc.release.injEq] at hp
      obtain ⟨rfl, -, -⟩ := hp
      rw [hid]; exact hnot
  | released order items i todo d hpc =>
    refine ⟨h.snap, h.reserved, ?_, h.once.1, ?_⟩
    · intro order' items' todo' hp
      simp only [PassPc.release.injEq] at hp
      obtain ⟨rfl, rfl, rfl⟩ := hp
      obtain ⟨h1, h2, ⟨released, h3⟩, h4⟩ := h.work order items (i :: todo) hpc
      exact ⟨h1, h2, ⟨released ++ [i], by rw [List.append_assoc]; exact h3⟩, h4⟩
    · intro order' items' todo' hp
      simp only [PassPc.release.injEq] at hp
      obtain ⟨rfl, rfl, rfl⟩ := hp
      exact h.once.2 order items (i :: todo) hpc
  | loaded oid items order hpc hf => exact .idle (fun c hc => ⟨hc, rfl⟩) (fun oid h => h) h.once.1 (by simp)
  | _ => exact .idle h.snap h.reserved h.once.1 (by simp)

theorem passes_step {l : Lbl} (K : Keys s.db s.sagas) (I : Passes s) (h : step cfg s l = some s') :
    Passes s' := by
  have hf : ∀ c ∈ cores s.db, c ∈ cores s'.db ∧ linesOf s'.db c.id = linesOf s.db c.id :=
    fun c hc => ⟨cores_step h c hc, lines_step K h c hc⟩
  have hr : ∀ oid, Reserved s.db oid → Reserved s'.db oid := fun oid ho => reserved_step ho h
  have hsame : s'.passes = s.passes → Passes s' := by
    intro hp j p hj
    rw [hp] at hj
    exact (I j p hj).frame hf hr
  cases step_shape h with
  | run i a s' hrun =>
    cases hrun with
    | prelude g g' e => exact hsame (apply_passes s (.saga i) e)
    | saga g oid pc pc' e => exact hsame (apply_passes s (.saga i) e)
  | other l c e s' hb hpass =>
    cases hpass with
    | none _ _ _ _ _ hp => exact hsame hp
    | recon _ _ hp =>
      intro j p hj
      rw [hp] at hj
      rcases Procs.spawn_cases hj with hj | ⟨-, rfl⟩
      · exact (I j p hj).frame hf hr
      · have hnd : ((stuck cfg.order s).map Order.id).Nodup :=
          (Orders.unique_ids K.ids).sublist (List.filter_sublist.map Order.id)
        have h0 : PassOk s.db ⟨s.db, (stuck cfg.order s).map Order.id, .next, true⟩ :=
          .idle (fun c hc => ⟨hc, rfl⟩) (fun oid h => h) hnd (by simp)
        exact h0.frame hf hr
    | crash k q _ _ hq hp =>
      intro j p hj
      rw [hp] at hj
      rcases Procs.set_cases hq hj with ⟨-, rfl⟩ | ⟨-, hj⟩
      · obtain ⟨h1, h2, h3, h4⟩ := I k q hq
        have h0 : PassOk s.db { q with alive := false } := ⟨h1, h2, h3, h4⟩
        exact h0.frame hf hr
      · exact (I j p hj).frame hf hr
    | pass k a q q' _ _ hq hal hm hp =>
      intro j p hj
      rw [hp] at hj
      rcases Procs.set_cases hq hj with ⟨-, rfl⟩ | ⟨-, hj⟩
      · exact ((I k q hq).move hm).frame hf hr
      · exact (I j p hj).frame hf hr
  | _ => exact hsame rfl

theorem passes_reachable (h : (lts cfg cat).Reachable s) : Passes s := by
  refine LTS.reachable_induct ?_ ?_ h
  · intro s hs j p hj; subst hs; simp [start] at hj
  · intro s l s' hr I hst; exact passes_step (keys_reachable hr) I hst

end Gestalt.Checkout
