import Gestalt.Core.Inevitable
import Gestalt.L4Checkout.EventLog
import Gestalt.L4Checkout.Publish
import Gestalt.L4Checkout.Returns

/-!
# Everything comes to an end

After any crashes: the processes of order-service that are left come to their ends, in
whatever order they take their steps and whatever their calls meet with. Every step of a run,
a pass or a payment call lowers the backlog (`onward_ends`), and a process that is not through
can always take one, if need be because a client gives up on an answer (`goes_on`). So no
process waits for ever, and no loop goes on for ever (`settles`).
-/
namespace Gestalt.Checkout

open Gestalt.Orders (Db Order OrderItem Core cores linesOf)

variable {cfg : Config} {cat : Catalog.Products} {s s' : Sys}

/-! ## The steps that are left -/

/-- A step of a process that is there; no request comes in, no pass starts, nothing crashes. -/
def onward : Lbl → Bool
  | .saga _ _ => true
  | .pass _ _ => true
  | .delivery _ _ => true
  | .pay (.run _ _) => true
  | _ => false

def Onward (cfg : Config) (s s' : Sys) : Prop := ∃ l, onward l = true ∧ step cfg s l = some s'

/-! ## They are finitely many -/

/-- `left` orders are still to be taken up. -/
def PassPc.rank (left : Nat) : PassPc → Rank
  | .release _ _ todo => Gestalt.rank (5 * left + 4) todo.length
  | .refresh _ _ => Gestalt.rank (5 * left + 3) 0
  | .announce _ _ => Gestalt.rank (5 * left + 2) 0
  | .clear _ _ => Gestalt.rank (5 * left + 1) 0
  | .next => Gestalt.rank (5 * left) 0

def Pass.rank (p : Pass) : Rank := p.pc.rank p.todo.length

def DeliveryPc.rank (left : Nat) : DeliveryPc → Rank
  | .commit _ _ _ => Gestalt.rank (4 * left + 3) 0
  | .refresh _ _ _ => Gestalt.rank (4 * left + 2) 0
  | .announce _ _ _ => Gestalt.rank (4 * left + 1) 0
  | .next => Gestalt.rank (4 * left) 0

def DeliveryPass.rank (p : DeliveryPass) : Rank := p.pc.rank p.todo.length

theorem PassMoves.lowers {p p' : Pass} {a : Act} {e : Eff} (h : PassMoves s p a p' e) : p'.rank < p.rank := by
  unfold Pass.rank
  cases h with
  | took oid rest order hpc htodo hf =>
    rw [hpc, htodo]
    exact rank_stage (by simp only [List.length_cons]; omega)
  | released order items i todo d hpc =>
    rw [hpc]
    exact rank_left (Nat.lt_succ_self todo.length)
  | failed order items hpc => rw [hpc]; exact rank_stage (Nat.lt_succ_self _)
  | loaded oid items order hpc hf => rw [hpc]; exact rank_stage (Nat.lt_succ_self _)
  | announced order items logged hpc => rw [hpc]; exact rank_stage (Nat.lt_succ_self _)
  | cleared order items d hpc => rw [hpc]; exact rank_stage (Nat.lt_succ_self _)

theorem DeliveryMoves.lowers {p p' : DeliveryPass} {a : Act} {e : Eff} (h : DeliveryMoves s p a p' e) :
    p'.rank < p.rank := by
  unfold DeliveryPass.rank
  cases h with
  | took oid rest order hpc htodo hf =>
    rw [hpc, htodo]
    exact rank_stage (by simp only [List.length_cons]; omega)
  | marked order items at_ hpc => rw [hpc]; exact rank_stage (Nat.lt_succ_self _)
  | loaded oid items at_ order hpc hf => rw [hpc]; exact rank_stage (Nat.lt_succ_self _)
  | announced order items at_ logged hpc => rw [hpc]; exact rank_stage (Nat.lt_succ_self _)

/-- What is still to be done, by the runs, the passes and payment-service. -/
def backlog (s : Sys) : Multiset Rank :=
  load s + ((s.passes.map Pass.rank : List Rank) + (s.deliveries.map DeliveryPass.rank : List Rank))

/-- One part of it moves. -/
theorem backlog_part {a b x x' : Multiset Rank} {r r' : Rank} (h : x' + {r} = x + {r'}) :
    a + (x' + b) + {r} = a + (x + b) + {r'} :=
  calc a + (x' + b) + {r} = a + b + (x' + {r}) := by abel
    _ = a + b + (x + {r'}) := by rw [h]
    _ = a + (x + b) + {r'} := by abel

/-- **Step lemma.** -/
theorem backlog_descends (h : Onward cfg s s') : Relation.CutExpand (· < ·) (backlog s') (backlog s) := by
  obtain ⟨l, hl, hst⟩ := h
  -- a run or payment-service
  have hwork : works l = true → s'.passes = s.passes → s'.deliveries = s.deliveries →
      Relation.CutExpand (· < ·) (backlog s') (backlog s) := by
    intro hw hp hd
    unfold backlog
    rw [hp, hd, Relation.cutExpand_add_right]
    exact load_descends hw hst
  -- a pass leaves them alone
  have hload : (∀ i a, l ≠ .saga i a) → (∀ q, l ≠ .pay q) → load s' = load s := by
    intro hsaga hpay
    cases step_shape hst with
    | other l c e s' hb hpass => simp only [load, hb.sagas, hb.pay]
    | run i a => exact absurd rfl (hsaga i a)
    | pay q => exact absurd rfl (hpay q)
    | _ => cases hl
  cases l with
  | saga i a =>
    cases step_saga hst with
    | prelude g g' e => exact hwork rfl (apply_passes s (.saga i) e) (apply_deliveries s (.saga i) e)
    | saga g oid pc pc' e => exact hwork rfl (apply_passes s (.saga i) e) (apply_deliveries s (.saga i) e)
  | pay l =>
    simp only [step] at hst
    split at hst
    · obtain ⟨p, hp, rfl⟩ := Option.map_eq_some_iff.mp hst
      exact hwork (by cases l <;> first | rfl | cases hl) rfl rfl
    · cases hst
  | pass j a =>
    obtain ⟨p, p', e, hj, -, hm, hs'⟩ := step_pass hst
    have hpasses : s'.passes = s.passes.set j p' := by rw [hs']
    have hdel : s'.deliveries = s.deliveries := by rw [hs']; exact apply_deliveries s (.pass j) e
    refine ⟨{p'.rank}, p.rank, by simpa using hm.lowers, ?_⟩
    unfold backlog
    rw [hload (by simp) (by simp), hpasses, hdel]
    exact backlog_part (coe_map_set Pass.rank hj)
  | delivery j a =>
    obtain ⟨p, p', e, hj, -, hm, hs'⟩ := step_delivery hst
    have hdel : s'.deliveries = s.deliveries.set j p' := by rw [hs']
    have hpasses : s'.passes = s.passes := by rw [hs']; exact apply_passes s (.delivery j) e
    refine ⟨{p'.rank}, p.rank, by simpa using hm.lowers, ?_⟩
    unfold backlog
    rw [hload (by simp) (by simp), hpasses, hdel, ← add_assoc, ← add_assoc]
    simpa using backlog_part (b := 0) (coe_map_set DeliveryPass.rank hj)
  | _ => cases hl

/-- **No endless loop.** -/
theorem onward_ends (cfg : Config) : WellFounded fun s' s => Onward cfg s s' := by
  have hwf : WellFounded (Relation.CutExpand fun a b : Rank => a < b) :=
    WellFounded.cutExpand wellFounded_lt
  exact Subrelation.wf backlog_descends (InvImage.wf backlog hwf)

/-! ## And there is always one -/

/-- The database has an order with the id. -/
def Has (db : Db) (oid : String) : Prop := ∃ c ∈ cores db, c.id = oid

theorem Has.found {db : Db} {oid : String} (h : Has db oid) : ∃ o, Orders.find db oid = some o := by
  obtain ⟨c, hc, hid⟩ := h
  cases hf : Orders.find db oid with
  | some o => exact ⟨o, rfl⟩
  | none => exact absurd hid (Orders.find_none hf c hc)

theorem Has.step {l : Lbl} {oid : String} (h : Has s.db oid) (hst : step cfg s l = some s') : Has s'.db oid := by
  obtain ⟨c, hc, hid⟩ := h
  exact ⟨c, cores_step hst c hc, hid⟩

theorem has_row {db : Db} {o : Order} (h : o ∈ db.orders) : Has db o.id := ⟨o.core, Orders.mem_core h, rfl⟩

/-- What the passes are to take up is in what they have read. -/
structure Fed (s : Sys) : Prop where
  pass : ∀ (j : Nat) (p : Pass), s.passes[j]? = some p → p.alive = true → ∀ oid ∈ p.todo, Has p.snap oid
  refresh : ∀ (j : Nat) (p : Pass) (oid : String) (items : List OrderItem), s.passes[j]? = some p →
    p.alive = true → p.pc = .refresh oid items → Has s.db oid
  delivery : ∀ (j : Nat) (p : DeliveryPass), s.deliveries[j]? = some p → p.alive = true →
    ∀ oid ∈ p.todo, Has p.snap oid

theorem fed_step {l : Lbl} (hr : (lts cfg cat).Reachable s) (F : Fed s) (h : step cfg s l = some s') :
    Fed s' := by
  have hpasses := passes_reachable hr
  have hinf := informed_reachable hr
  constructor
  · intro j p' hj hal oid hoid
    cases pass_from h hj with
    | same hj' _ => exact F.pass j p' hj' hal oid hoid
    | new _ _ hp =>
      subst hp
      obtain ⟨o, ho, rfl⟩ := List.mem_map.mp hoid
      exact has_row (List.mem_filter.mp ho).1
    | crashed hd => rw [hal] at hd; cases hd
    | moved a p e _ hj' hal' hm =>
      have hold := F.pass j p hj' hal'
      cases hm with
      | took oid' rest order hpc htodo hf => exact hold oid (htodo ▸ List.mem_cons_of_mem _ hoid)
      | loaded oid' items order hpc hf =>
        obtain ⟨c, hc, hid⟩ := hold oid hoid
        exact ⟨c, ((hpasses j p hj').snap c hc).1, hid⟩
      | _ => exact hold oid hoid
  · intro j p' oid items hj hal hpc
    cases pass_from h hj with
    | same hj' _ => exact (F.refresh j p' oid items hj' hal hpc).step h
    | new _ _ hp => subst hp; cases hpc
    | crashed hd => rw [hal] at hd; cases hd
    | moved a p e _ hj' hal' hm =>
      cases hm with
      | failed order items' hpc' =>
        cases hpc
        exact Has.step ⟨order.core, ((hpasses j p hj').work order items [] hpc').1, rfl⟩ h
      | _ => cases hpc
  · intro j p' hj hal oid hoid
    cases delivery_from h hj with
    | same hj' _ => exact F.delivery j p' hj' hal oid hoid
    | new _ _ hp =>
      subst hp
      obtain ⟨o, ho, rfl⟩ := List.mem_map.mp hoid
      exact has_row (List.mem_filter.mp ho).1
    | crashed hd => rw [hal] at hd; cases hd
    | moved a p e _ hj' hal' hm =>
      have hold := F.delivery j p hj' hal'
      cases hm with
      | took oid' rest order hpc htodo hf => exact hold oid (htodo ▸ List.mem_cons_of_mem _ hoid)
      | loaded oid' items at_ order hpc hf =>
        obtain ⟨c, hc, hid⟩ := hold oid hoid
        exact ⟨c, (hinf.snap j p hj' hal' c hc).1, hid⟩
      | _ => exact hold oid hoid

theorem fed_reachable (h : (lts cfg cat).Reachable s) : Fed s := by
  refine LTS.reachable_induct ?_ (fun s l s' hr F hst => fed_step hr F hst) h
  rintro s rfl
  constructor <;> intro j p <;> simp [start]

theorem onward_saga {i : Nat} {g : Saga} {a : Act} (hg : s.sagas[i]? = some g) (hal : g.alive = true)
    (h : (stepSaga cfg s g a).isSome = true) : ∃ s', Onward cfg s s' := by
  have hstep : (step cfg s (.saga i a)).isSome = true := by
    simpa only [step, hg, hal, if_true, Option.isSome_map] using h
  obtain ⟨s', hs'⟩ := Option.isSome_iff_exists.mp hstep
  exact ⟨s', .saga i a, rfl, hs'⟩

/-- A run can go on, or the run whose commit its INSERT waits for. -/
theorem saga_goes_on (K : Keys s.db s.sagas) {i : Nat} {g : Saga} (hg : s.sagas[i]? = some g)
    (hover : g.over = false) : ∃ s', Onward cfg s s' := by
  simp only [Saga.over, Bool.or_eq_false_iff, Bool.not_eq_false'] at hover
  obtain ⟨hal, hover⟩ := hover
  cases hp : g.phase with
  | lookup =>
    refine onward_saga (a := .select) hg hal ?_
    simp only [stepSaga, hp, prelude]
    split
    · rfl
    · split <;> rfl
  | resolve =>
    refine onward_saga (a := .resolve (.status 200 none)) hg hal ?_
    simp only [stepSaga, hp, prelude]
    split
    · rfl
    · split <;> rfl
  | price todo amount =>
    cases todo with
    | cons l todo =>
      refine onward_saga (a := .price .answered) hg hal ?_
      simp only [stepSaga, hp, prelude]
      split <;> rfl
    | nil =>
      obtain ⟨oid, hoid⟩ := exists_fresh s.db
      by_cases hlock : s.locked oid g.key = true
      · obtain ⟨d, hd, hcommit⟩ := List.any_eq_true.mp hlock
        obtain ⟨j, hj⟩ := List.mem_iff_getElem?.mp hd
        obtain ⟨hdal, hcommit⟩ := Bool.and_eq_true_iff.mp hcommit
        split at hcommit
        · rename_i order hp'
          exact onward_saga hj hdal (stepSaga_commit hp')
        · cases hcommit
      · exact onward_saga hg hal (stepSaga_flush hp hlock)
  | commit order => exact onward_saga hg hal (stepSaga_commit hp)
  | reselect =>
    refine onward_saga (a := .select) hg hal ?_
    simp only [stepSaga, hp, prelude]
    split <;> rfl
  | replied answer => rw [hp] at hover; cases hover
  | saga oid pc =>
    obtain ⟨order, hfind⟩ := Option.isSome_iff_exists.mp (K.finds hg hp)
    cases pc with
    | created => exact onward_saga (a := .publish true) hg hal (by simp [stepSaga, hp, saga, hfind])
    | reserve held todo =>
      cases todo with
      | nil => exact onward_saga (a := .commit) hg hal (by simp [stepSaga, hp, saga])
      | cons l todo =>
        refine onward_saga (a := .reserve .answered) hg hal ?_
        simp only [stepSaga, hp, saga, Option.isSome_map]
        split <;> rfl
    | release b todo reason =>
      cases todo with
      | nil => exact onward_saga (a := .commit) hg hal (by simp [stepSaga, hp, saga])
      | cons l todo => exact onward_saga (a := .release .answered) hg hal (by simp [stepSaga, hp, saga])
    | charge => exact onward_saga (a := .charge none) hg hal (by simp [stepSaga, hp, saga, hfind])
    -- payment-service may have crashed: the client's timeout
    | await j => exact onward_saga (a := .giveUp (.httpError "ReadTimeout")) hg hal (by simp [stepSaga, hp, saga])
    | pay => exact onward_saga (a := .commit) hg hal (by simp [stepSaga, hp, saga])
    | ended b f =>
      cases f with
      | refresh => exact onward_saga (a := .load) hg hal (by simp [stepSaga, hp, saga, hfind])
      | announce order => exact onward_saga (a := .publish true) hg hal (by simp [stepSaga, hp, saga])
      | clear order => exact onward_saga (a := .clear .answered) hg hal (by simp [stepSaga, hp, saga])
      | done out => rw [hp] at hover; cases hover

theorem pass_goes_on (F : Fed s) {j : Nat} {p : Pass} (hj : s.passes[j]? = some p) (hover : p.over = false) :
    ∃ s', Onward cfg s s' := by
  simp only [Pass.over, Bool.or_eq_false_iff, Bool.not_eq_false'] at hover
  obtain ⟨hal, hover⟩ := hover
  have hgo : ∀ a, (stepPass s p a).isSome = true → ∃ s', Onward cfg s s' := by
    intro a ha
    have hstep : (step cfg s (.pass j a)).isSome = true := by
      simpa only [step, hj, hal, if_true, Option.isSome_map] using ha
    obtain ⟨s', hs'⟩ := Option.isSome_iff_exists.mp hstep
    exact ⟨s', .pass j a, rfl, hs'⟩
  cases hpc : p.pc with
  | next =>
    cases htodo : p.todo with
    | nil => simp [hpc, htodo] at hover
    | cons oid rest =>
      obtain ⟨order, hf⟩ := (F.pass j p hj hal oid (htodo ▸ List.mem_cons_self)).found
      exact hgo .next (by simp [stepPass, hpc, htodo, hf])
  | release order items todo =>
    cases todo with
    | nil => exact hgo .commit (by simp [stepPass, hpc])
    | cons item todo => exact hgo (.release .answered) (by simp [stepPass, hpc])
  | refresh oid items =>
    obtain ⟨order, hf⟩ := (F.refresh j p oid items hj hal hpc).found
    exact hgo .load (by simp [stepPass, hpc, hf])
  | announce order items => exact hgo (.publish true) (by simp [stepPass, hpc])
  | clear order items => exact hgo (.clear .answered) (by simp [stepPass, hpc])

theorem delivery_goes_on (F : Fed s) (I : Informed cfg cat s) {j : Nat} {p : DeliveryPass}
    (hj : s.deliveries[j]? = some p) (hover : p.over = false) : ∃ s', Onward cfg s s' := by
  simp only [DeliveryPass.over, Bool.or_eq_false_iff, Bool.not_eq_false'] at hover
  obtain ⟨hal, hover⟩ := hover
  have hgo : ∀ a, (stepDelivery s p a).isSome = true → ∃ s', Onward cfg s s' := by
    intro a ha
    have hstep : (step cfg s (.delivery j a)).isSome = true := by
      simpa only [step, hj, hal, if_true, Option.isSome_map] using ha
    obtain ⟨s', hs'⟩ := Option.isSome_iff_exists.mp hstep
    exact ⟨s', .delivery j a, rfl, hs'⟩
  cases hpc : p.pc with
  | next =>
    cases htodo : p.todo with
    | nil => simp [hpc, htodo] at hover
    | cons oid rest =>
      obtain ⟨order, hf⟩ := (F.delivery j p hj hal oid (htodo ▸ List.mem_cons_self)).found
      exact hgo .next (by simp [stepDelivery, hpc, htodo, hf])
  | commit order items at_ => exact hgo .commit (by simp [stepDelivery, hpc])
  | refresh oid items at_ =>
    obtain ⟨order, hf⟩ := Has.found (I.items j p hj hal oid items (by rw [hpc]; rfl)).1
    exact hgo .load (by simp [stepDelivery, hpc, hf])
  | announce order items at_ => exact hgo (.publish true) (by simp [stepDelivery, hpc])

/-- **No process waits for ever.** -/
theorem goes_on (hr : (lts cfg cat).Reachable s) (h : s.idle = false) : ∃ s', Onward cfg s s' := by
  have F := fed_reachable hr
  simp only [Sys.idle, Bool.and_eq_false_iff, List.all_eq_false, Bool.not_eq_true] at h
  rcases h with (⟨g, hg, hover⟩ | ⟨p, hp, hover⟩) | ⟨p, hp, hover⟩
  · obtain ⟨i, hi⟩ := List.mem_iff_getElem?.mp hg
    exact saga_goes_on (keys_reachable hr) hi hover
  · obtain ⟨j, hj⟩ := List.mem_iff_getElem?.mp hp
    exact pass_goes_on F hj hover
  · obtain ⟨j, hj⟩ := List.mem_iff_getElem?.mp hp
    exact delivery_goes_on F (informed_reachable hr) hj hover

theorem Onward.reachable (h : Onward cfg s s') (hr : (lts cfg cat).Reachable s) : (lts cfg cat).Reachable s' := by
  obtain ⟨l, -, hst⟩ := h
  exact hr.step hst

/-- **Everything settles.** -/
theorem settles (h : (lts cfg cat).Reachable s) :
    Inevitable (Onward cfg) (fun s => (lts cfg cat).Reachable s ∧ s.idle = true) s := by
  refine Inevitable.of_wf (onward_ends cfg) (I := (lts cfg cat).Reachable) (fun s s' hr ho => ho.reachable hr) ?_ h
  intro s hr
  by_cases hidle : s.idle = true
  · exact .inl ⟨hr, hidle⟩
  · exact .inr (goes_on hr (Bool.not_eq_true _ ▸ hidle))

end Gestalt.Checkout
