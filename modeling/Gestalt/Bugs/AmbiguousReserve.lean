import Gestalt.L4Checkout.Accounts
import Gestalt.L4Checkout.Charges

/-!
# A reservation reported as failed keeps its units

Status: open.

Behaviour: `reserve_stock` folds a transport error and every status other than
200 into `{"reserved": False}` (services/order-service/app/clients.py:48-64),
and `create_order` then releases `reserved_so_far`, which the failing line is
not in (services/order-service/app/routers/orders.py:117-131). A reservation
that catalog-service committed and whose answer was lost is released by nobody.

Documented: orders.py:129, "Compensate whatever was reserved before the
failure".

Counterexample: `lostAnswer`. The second of two lines is reserved, its answer
times out. The order ends FAILED, its first line is released, the unit of the
second one is gone.

Fix: release the failing line too when the outcome is not known (a transport
error or a 5xx), with an order id that lets catalog-service see whether it holds
anything for it.
-/
namespace Gestalt.Checkout

variable {cfg : Config} {cat : Catalog.Products} {s s' : Sys}

/-! ## The run that goes wrong -/

/-- The second reservation commits, and times out. -/
def lostAnswer : List Lbl :=
  [.request ⟨"u1", some "k1", some [twoPens, oneInk]⟩] ++ upToReserve 0 "o1" ++
    [.saga 0 (.reserve .answered), .saga 0 (.reserve (.lost (.httpError "ReadTimeout"))),
      .saga 0 (.release .answered), .saga 0 .commit]

/-- Run 0 has ended FAILED and its releases took effect. -/
def failedReleased (s : Sys) : Bool :=
  s.sagas[0]?.map Saga.phase = some (.saga "o1" (.ended false .refresh)) &&
    s.trace.all fun x => x.caller = .saga 0 → x.unreleased = false

/-- **Counterexample.** A FAILED run that was not undone. -/
theorem ambiguous_reservation_kept : ∃ s : Sys, (lts {} shop).Reachable s ∧
    (∃ g, s.sagas[0]? = some g ∧ g.phase = .saga "o1" (.ended false .refresh)) ∧ Released s 0 ∧
    runNet s 0 "p2" = -1 := by
  have hrun : ∃ s, (lts {} shop).Reachable s ∧ (failedReleased s && runNet s 0 "p2" = -1) = true :=
    LTS.reachable_of_exec lostAnswer rfl (by decide +kernel)
  obtain ⟨s, hr, hs⟩ := hrun
  obtain ⟨hf, hn⟩ := Bool.and_eq_true_iff.mp hs
  obtain ⟨hp, hrel⟩ := Bool.and_eq_true_iff.mp hf
  refine ⟨s, hr, Option.map_eq_some_iff.mp (of_decide_eq_true hp), ?_, of_decide_eq_true hn⟩
  intro x hx
  exact of_decide_eq_true (List.all_eq_true.mp hrel x hx)

/-! ## When a FAILED run is undone -/

/-- A reservation that took effect took a positive quantity. -/
theorem reserved_pos (h : (lts cfg cat).Reachable s) :
    ∀ x ∈ s.trace, ∀ l, x.call = .reserve l → x.applied = true → 0 < l.quantity := by
  have hind : (lts cfg cat).Inductive fun s =>
      ∀ x ∈ s.trace, ∀ l, x.call = .reserve l → x.applied = true → 0 < l.quantity := by
    refine ⟨?_, ?_⟩
    · intro s hs x hx; subst hs; cases hx
    · intro s l s' I hst x hx
      obtain ⟨c, e, -, -, htr⟩ := step_effect hst
      rw [htr, List.mem_append] at hx
      rcases hx with hx | hx
      · exact I x hx
      · intro l' hcall happ
        cases e <;> simp only [Eff.issued, List.not_mem_nil, List.mem_singleton] at hx <;> subst hx <;>
          cases hcall
        exact (Catalog.reserve_ok (Bool.and_eq_true_iff.mp happ).2).1
  exact hind.reachable s h

/-- What an ambiguous reservation did to its product's stock. -/
theorem ambiguous_delta (h : (lts cfg cat).Reachable s) {x : Issued} (hx : x ∈ s.trace)
    (ha : x.ambiguous = true) : (∃ p, x.delta p < 0) ∧ ∀ p, x.delta p ≤ 0 := by
  have hpos := reserved_pos h x hx
  unfold Issued.ambiguous at ha
  split at ha
  · rename_i l hl
    have happ := (Bool.and_eq_true_iff.mp ha).1
    have hq := hpos l hl happ
    unfold Issued.delta
    simp only [happ, hl, if_true]
    refine ⟨⟨l.productId, by simpa using hq⟩, fun p => ?_⟩
    split <;> omega
  · cases ha

/-- **A FAILED run nets out to zero, on every product, exactly if no reservation
of it that took effect was reported to it as failed.** Its releases are taken
to succeed. -/
theorem failed_run_undone_iff (cfg : Config) (cat : Catalog.Products) (s : Sys)
    (h : (lts cfg cat).Reachable s) (i : Nat) (g : Saga) (oid : String) (f : Final)
    (hg : s.sagas[i]? = some g) (hp : g.phase = .saga oid (.ended false f)) (hrel : Released s i) :
    (∀ p, runNet s i p = 0) ↔ ∀ x ∈ s.trace, x.caller = .saga i → x.ambiguous = false := by
  have hnet : ∀ p, runNet s i p = ambiguousNet s i p := by
    intro p
    have := (accounts_reachable h i g oid _ hg hp).net hrel p
    simpa [Pc.holding] using this
  constructor
  · intro hzero x hx hc
    by_contra ha
    have ha : x.ambiguous = true := by simpa using ha
    obtain ⟨⟨p, hlt⟩, -⟩ := ambiguous_delta h hx ha
    -- the other ambiguous reservations cannot make up for it
    have hneg : ambiguousNet s i p < 0 := by
      refine tally_neg ?_ hx (by simp [hc, ha]) hlt
      intro y hy hP
      exact (ambiguous_delta h hy (of_decide_eq_true hP).2).2 p
    have := hzero p
    rw [hnet p] at this
    omega
  · intro hamb p
    rw [hnet p]
    refine tally_eq_zero fun x hx hP => ?_
    obtain ⟨hc, ha⟩ := of_decide_eq_true hP
    rw [hamb x hx hc] at ha
    cases ha

/-- The second line is refused: one unit of ink too many. -/
def refusedLine : List Lbl :=
  [.request ⟨"u1", some "k1", some [twoPens, twoInks]⟩] ++ upToReserve 0 "o1" ++
    [.saga 0 (.reserve .answered), .saga 0 (.reserve .answered), .saga 0 (.release .answered),
      .saga 0 .commit]

/-- `failed_run_undone_iff` after `refusedLine`. -/
theorem failed_run_undone_iff_refused : ∃ s : Sys, (s.trace.length = 4 ∧ failedReleased s = true) ∧
    ((∀ p, runNet s 0 p = 0) ↔ ∀ x ∈ s.trace, x.caller = .saga 0 → x.ambiguous = false) := by
  have hrun : ∃ s, (lts {} shop).Reachable s ∧ (s.trace.length = 4 && failedReleased s) = true :=
    LTS.reachable_of_exec refusedLine rfl (by decide +kernel)
  obtain ⟨s, hr, hs⟩ := hrun
  obtain ⟨hlen, hf⟩ := Bool.and_eq_true_iff.mp hs
  obtain ⟨hp, hrel⟩ := Bool.and_eq_true_iff.mp hf
  obtain ⟨g, hg, hp⟩ := Option.map_eq_some_iff.mp (of_decide_eq_true hp)
  refine ⟨s, ⟨of_decide_eq_true hlen, hf⟩, failed_run_undone_iff {} shop s hr 0 g "o1" .refresh hg hp ?_⟩
  intro x hx
  exact of_decide_eq_true (List.all_eq_true.mp hrel x hx)

end Gestalt.Checkout
