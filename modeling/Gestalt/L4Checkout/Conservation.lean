import Gestalt.L4Checkout.Accounts
import Gestalt.L4Checkout.Charges
import Gestalt.L4Checkout.Statuses

/-!
# Stock conservation

With no reconciliation pass, and every call of a run to catalog-service handled
and answered (`undisturbed`), a run's account is exact: it has moved minus what
it is holding. A run that has returned holds its lines if it ended PAID and
nothing if it ended FAILED, so the books close (`stock_conserved`).
-/
namespace Gestalt.Checkout

open Gestalt.Orders (Order linesOf)

variable {cfg : Config} {cat : Catalog.Products} {s s' : Sys}

/-- No reconciliation pass, and no call to catalog-service is lost. -/
def undisturbed : Lbl → Bool
  | .saga _ (.reserve d) => d = .answered
  | .saga _ (.release d) => d = .answered
  | .recon => false
  | .pass _ _ => false
  | _ => true

def undisturbedLts (cfg : Config) (cat : Catalog.Products) : LTS Sys Lbl :=
  (lts cfg cat).restrict fun _ l => undisturbed l = true

/-! ## Without passes -/

/-- No pass exists, and none has moved anything. -/
structure NoPass (s : Sys) : Prop where
  passes : s.passes = []
  trace : ∀ x ∈ s.trace, x.caller.isPass = true → ∀ p, x.delta p = 0

theorem noPass_step {l : Lbl} (I : NoPass s) (hl : undisturbed l = true) (h : step cfg s l = some s') :
    NoPass s' := by
  -- the step of a run
  have hrun : ∀ (i : Nat) (e : Eff), s'.passes = s.passes → s'.trace = s.trace ++ e.issued s (.saga i) →
      NoPass s' := by
    intro i e hp ht
    refine ⟨hp.trans I.passes, fun x hx hc => ?_⟩
    rw [ht, List.mem_append] at hx
    rcases hx with hx | hx
    · exact I.trace x hx hc
    · rw [issued_caller hx] at hc; cases hc
  cases step_shape h with
  | run i a s' hr =>
    cases hr with
    | prelude g g' e => exact hrun i e (apply_passes s (.saga i) e) rfl
    | saga g oid pc pc' e => exact hrun i e (apply_passes s (.saga i) e) rfl
  | other l c e s' hb hpass =>
    have hnone : ∀ (j : Nat) (q : Pass), s.passes[j]? ≠ some q := by
      intro j q; simp [I.passes]
    cases hpass with
    | recon => cases hl
    | pass j a q q' _ _ hq => exact absurd hq (hnone j q)
    | crash j q _ _ hq => exact absurd hq (hnone j q)
    | none _ _ _ _ hsil hp =>
      refine ⟨hp.trans I.passes, fun x hx hc => ?_⟩
      rw [hb.trace, List.mem_append] at hx
      rcases hx with hx | hx
      · exact I.trace x hx hc
      · exact silent_delta hsil x hx
  | _ => exact ⟨I.passes, I.trace⟩

theorem noPass_reachable (h : (undisturbedLts cfg cat).Reachable s) : NoPass s := by
  refine LTS.reachable_induct ?_ ?_ h
  · intro s hs; subst hs
    refine ⟨rfl, fun x hx => ?_⟩
    cases hx
  · intro s l s' _ I hst; exact noPass_step I hst.2 hst.1

theorem NoPass.net (I : NoPass s) (oid p : String) : passNet s oid p = 0 :=
  tally_eq_zero fun x hx hP => I.trace x hx (of_decide_eq_true hP).1 p

/-! ## The weaker conditions it implies -/

theorem undisturbed_unambiguous {l : Lbl} (h : undisturbed l = true) : ambiguousReserve s l = false := by
  cases l with
  | saga i a =>
    cases a with
    | reserve d =>
      have hd : d = .answered := of_decide_eq_true h
      subst hd
      simp only [ambiguousReserve]
      split <;> simp
    | _ => rfl
  | _ => rfl

theorem undisturbed_releaseHandled {l : Lbl} (h : undisturbed l = true) : releaseHandled l = true := by
  cases l with
  | saga i a =>
    cases a with
    | release d =>
      have hd : d = .answered := of_decide_eq_true h
      subst hd; rfl
    | _ => rfl
  | pass j a => cases h
  | _ => rfl

theorem undisturbed_settledPass {l : Lbl} (h : undisturbed l = true) : settledPass s l = true := by
  cases l with
  | pass j a => cases h
  | _ => rfl

/-! ## The theorem -/

/-- An order has moved minus what its run is holding. -/
theorem order_account (h : (undisturbedLts cfg cat).Reachable s) {i : Nat} {g : Saga} {oid : String}
    {pc : Pc} (hg : s.sagas[i]? = some g) (hp : g.phase = .saga oid pc) (p : String) :
    orderNet s oid p + qty (pc.holding g.rawItems) p = 0 := by
  have hamb : ∀ x ∈ s.trace, x.ambiguous = false :=
    unambiguous_reachable (h.mono fun _ _ => undisturbed_unambiguous)
  have hrel : Released s i := released_reachable (h.mono fun _ _ => undisturbed_releaseHandled) i
  rw [orderNet_eq h.unrestrict hg hp, (noPass_reachable h).net, Int.add_zero]
  exact (accounts_reachable h.unrestrict i g oid pc hg hp).exact hamb hrel p

/-- A run that has returned has ended its order. -/
theorem returned_order (h : (undisturbedLts cfg cat).Reachable s)
    (hret : ∀ g ∈ s.sagas, g.reply.isSome = true) {o : Order} (ho : o ∈ s.db.orders) :
    (o.status = .paid ∧ ∀ p, orderNet s o.id p + qty (linesOf s.db o.id) p = 0) ∨
      o.status = .failed ∧ ∀ p, orderNet s o.id p = 0 := by
  obtain ⟨i, g, pc, hg, hp, -, hl⟩ := row_owner h.unrestrict ho
  have hst := statuses_reachable (h.mono fun _ _ => undisturbed_settledPass) i g o.id pc hg hp o ho rfl
  have hacc := order_account h hg hp
  have hr := hret g (List.mem_of_getElem? hg)
  unfold Saga.reply at hr
  split at hr
  · rename_i hp'; rw [hp] at hp'; cases hp'
  · rename_i b out hp'
    rw [hp] at hp'
    cases hp'
    cases b with
    | true =>
      refine .inl ⟨hst.decided .paid rfl, fun p => ?_⟩
      rw [hl]; exact hacc p
    | false => exact .inr ⟨hst.decided .failed rfl, fun p => by simpa [Pc.holding] using hacc p⟩
  · cases hr

/-- **Stock conservation.** Stock is never negative, and once all runs have
returned, exactly the units of the PAID orders are gone: each order ended PAID
or FAILED, and a FAILED one has moved nothing. -/
theorem stock_conserved (cfg : Config) (cat : Catalog.Products) (s : Sys)
    (h : (undisturbedLts cfg cat).Reachable s) :
    (∀ p, 0 ≤ Catalog.stockOf cat p → 0 ≤ Catalog.stockOf s.cat p) ∧
    ((∀ g ∈ s.sagas, g.reply.isSome = true) →
      (∀ p, Catalog.stockOf cat p - Catalog.stockOf s.cat p = paidQty s p) ∧
      ∀ o ∈ s.db.orders, o.status = .paid ∨ o.status = .failed ∧ ∀ p, orderNet s o.id p = 0) := by
  refine ⟨fun p h0 => stock_nonneg h.unrestrict h0, fun hret => ⟨fun p => ?_, fun o ho => ?_⟩⟩
  · have hbal : (s.db.orders.map fun o => balance s o p).sum = 0 := by
      apply List.sum_eq_zero
      intro x hx
      obtain ⟨o, ho, rfl⟩ := List.mem_map.mp hx
      unfold balance
      rcases returned_order h hret ho with ⟨hst, hnet⟩ | ⟨hst, hnet⟩
      · rw [if_pos hst]; exact hnet p
      · rw [if_neg (by simp [hst]), Int.add_zero]; exact hnet p
    have hbooks := books_paid h.unrestrict p
    omega
  · exact (returned_order h hret ho).imp And.left id

/-- The rest of run `i`, after its order is PAID or FAILED. -/
def finish (i : Nat) : List Lbl := [.saga i .load, .saga i (.publish true), .saga i (.clear .answered)]

/-- All runs have returned; one order is PAID and one FAILED. -/
def returnedBoth (s : Sys) : Bool := paidAndFailed s && s.sagas.all fun g => g.reply.isSome

/-- `stock_conserved` after `twoOrders`: a decline gives both lines back. -/
theorem stock_conserved_twoOrders : ∃ s : Sys, returnedBoth s = true ∧
    Catalog.stockOf shop "p1" - Catalog.stockOf s.cat "p1" = paidQty s "p1" ∧
    ∀ o ∈ s.db.orders, o.status = .paid ∨ o.status = .failed ∧ ∀ p, orderNet s o.id p = 0 := by
  have hrun : ∃ s, (undisturbedLts {} shop).Reachable s ∧ returnedBoth s = true :=
    LTS.reachable_of_execG (twoOrders ++ finish 0 ++ finish 1) rfl (by decide +kernel)
  obtain ⟨s, hr, hs⟩ := hrun
  have hret : ∀ g ∈ s.sagas, g.reply.isSome = true := List.all_eq_true.mp (Bool.and_eq_true_iff.mp hs).2
  obtain ⟨h1, h2⟩ := (stock_conserved {} shop s hr).2 hret
  exact ⟨s, hs, h1 "p1", h2⟩

end Gestalt.Checkout
