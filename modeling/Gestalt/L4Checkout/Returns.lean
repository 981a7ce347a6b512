import Gestalt.L4Checkout.Charges
import Mathlib.Data.Prod.Lex
import Mathlib.Logic.Hydra
import Mathlib.Tactic.Abel

/-!
# Every call comes to an end

A `create_order` run that is not interrupted returns. Each of its steps lowers
`Phase.rank`, each step of payment-service the rank of one of its calls, and the
charge trades its own rank for that of a new call, which is lower: the multiset
of the ranks descends (`Relation.CutExpand`), so there is no infinite work
(`work_ends`). And a run that has not returned can take a step, unless it waits
for the commit of an INSERT with its key or for payment-service, which can
(`unblocked`).
-/
namespace Gestalt

/-- The stage, and what is left to do in it. -/
abbrev Rank := ℕ ×ₗ ℕ

def rank (stage left : ℕ) : Rank := toLex (stage, left)

/-- On to a lower stage. -/
theorem rank_stage {a b c d : ℕ} (h : a < c) : rank a b < rank c d :=
  Prod.Lex.toLex_lt_toLex.mpr (.inl h)

theorem rank_left {a b d : ℕ} (h : b < d) : rank a b < rank a d :=
  Prod.Lex.toLex_lt_toLex.mpr (.inr ⟨rfl, h⟩)

/-- One of a list of processes moves. -/
theorem coe_map_set {α β : Type} (f : α → β) {l : List α} {i : Nat} {a b : α} (h : l[i]? = some b) :
    (((l.set i a).map f : List β) : Multiset β) + {f b} = (l.map f : List β) + {f a} := by
  induction l generalizing i with
  | nil => cases h
  | cons x l ih =>
    cases i with
    | zero =>
      cases h
      simp only [List.set_cons_zero, List.map_cons, ← Multiset.cons_coe, ← Multiset.singleton_add]
      abel
    | succ i =>
      simp only [List.set_cons_succ, List.map_cons, ← Multiset.cons_coe, Multiset.cons_add]
      rw [ih h]

namespace Payment

def Pc.rank : Pc → Rank
  | .start => Gestalt.rank 5 0
  | .poll left => Gestalt.rank 4 left
  | .process => Gestalt.rank 3 0
  | .store _ => Gestalt.rank 2 0
  | .done _ => Gestalt.rank 1 0

theorem stepCall_lowers {cfg : Settings} {s s' : St} {j : Nat} {c : Call} {o : Option Nat}
    (h : stepCall cfg s j c o = some s') : ∃ c', s'.calls = s.calls.set j c' ∧
      c'.pc.rank < c.pc.rank ∧ c'.alive = c.alive := by
  unfold stepCall at h
  split at h
  · rename_i body hreq hpc
    rw [hpc]
    split at h <;> cases h
    · exact ⟨_, rfl, rank_stage (by decide), rfl⟩
    · exact ⟨_, rfl, rank_stage (by decide), rfl⟩
    · exact ⟨_, rfl, rank_stage (by decide), rfl⟩
    · exact ⟨_, rfl, rank_stage (by decide), rfl⟩
  · rename_i body hreq hpc
    rw [hpc]
    cases h
    exact ⟨_, rfl, rank_stage (by decide), rfl⟩
  · rename_i body left hreq hpc
    rw [hpc]
    split at h <;> cases h
    · exact ⟨_, rfl, rank_stage (by decide), rfl⟩
    · exact ⟨_, rfl, rank_left (Nat.lt_succ_self left), rfl⟩
  · rename_i body hreq hpc
    rw [hpc]
    cases h
    exact ⟨_, rfl, rank_stage (by decide), rfl⟩
  · rename_i body r hreq hpc
    rw [hpc]
    cases h
    exact ⟨_, rfl, rank_stage (by decide), rfl⟩
  · rename_i k hreq hpc
    rw [hpc]
    split at h <;> cases h
    · exact ⟨_, rfl, rank_stage (by decide), rfl⟩
    · exact ⟨_, rfl, rank_stage (by decide), rfl⟩
    · exact ⟨_, rfl, rank_stage (by decide), rfl⟩
  · cases h

/-- A charge that has not answered can go on. -/
theorem charge_goes_on {cfg : Settings} {s : St} {j : Nat} {c : Call} {body : ChargeRequest}
    (hc : s.calls[j]? = some c) (hal : c.alive = true) (hreq : c.req = .charge body)
    (hpc : ∀ a, c.pc ≠ .done a) : ∃ s', step cfg s (.run j none) = some s' := by
  refine Option.isSome_iff_exists.mp ?_
  simp only [step, hc, hal, if_true, stepCall, hreq]
  cases hp : c.pc with
  | start =>
    simp only
    split <;> rfl
  | poll left =>
    cases left with
    | zero => rfl
    | succ left =>
      simp only
      split <;> rfl
  | process => rfl
  | store r => rfl
  | done a => exact absurd hp (hpc a)

end Payment

namespace Checkout

open Gestalt.Orders (Db Order Line cores)

variable {cfg : Config} {cat : Catalog.Products} {s s' : Sys}

def Final.rank : Final → Rank
  | .refresh => Gestalt.rank 4 0
  | .announce _ => Gestalt.rank 3 0
  | .clear _ => Gestalt.rank 2 0
  | .done _ => Gestalt.rank 1 0

def Pc.rank : Pc → Rank
  | .created => Gestalt.rank 10 0
  | .reserve _ todo => Gestalt.rank 9 todo.length
  | .charge => Gestalt.rank 8 0
  | .await _ => Gestalt.rank 7 0
  | .release _ todo _ => Gestalt.rank 6 todo.length
  | .pay => Gestalt.rank 5 0
  | .ended _ f => f.rank

def Phase.rank : Phase → Rank
  | .lookup => Gestalt.rank 14 0
  | .resolve => Gestalt.rank 13 0
  | .price todo _ => Gestalt.rank 12 todo.length
  | .commit _ => Gestalt.rank 11 0
  | .saga _ pc => pc.rank
  | .reselect => Gestalt.rank 1 0
  | .replied _ => Gestalt.rank 0 0

theorem prelude_lowers {g g' : Saga} {a : Act} {e : Eff} (h : prelude cfg s g a = some (g', e)) :
    g'.phase.rank < g.phase.rank := by
  unfold prelude at h
  split at h
  · rename_i hp
    rw [hp]
    split at h
    · cases h
      exact rank_stage (by decide)
    · split at h <;> cases h
      · exact rank_stage (by decide)
      · exact rank_stage (by decide)
  · rename_i hp
    rw [hp]
    split at h
    · cases h
      exact rank_stage (by decide)
    · split at h <;> cases h
      · exact rank_stage (by decide)
      · exact rank_stage (by decide)
      · exact rank_stage (by decide)
  · rename_i l todo amount d hp
    rw [hp]
    split at h <;> cases h
    · exact rank_stage (by decide)
    · exact rank_left (Nat.lt_succ_self todo.length)
  · rename_i hp
    rw [hp]
    split at h
    · cases h
      exact rank_stage (by decide)
    · split at h
      · cases h
        exact rank_stage (by decide)
      · split at h <;> cases h
        exact rank_stage (by decide)
  · rename_i hp
    rw [hp]
    split at h <;> cases h
    · exact rank_stage (by decide)
    · exact rank_stage (by decide)
  · rename_i hp
    rw [hp]
    split at h <;> cases h
    · exact rank_stage (by decide)
    · exact rank_stage (by decide)
  · cases h

theorem SagaMoves.lowers {g : Saga} {oid : String} {pc pc' : Pc} {a : Act} {e : Eff}
    (h : SagaMoves s g oid pc a pc' e) : pc'.rank < pc.rank := by
  cases h with
  | reserved held l todo d => exact rank_left (Nat.lt_succ_self todo.length)
  | released b l todo reason d => exact rank_left (Nat.lt_succ_self todo.length)
  | _ => exact rank_stage (by decide)

/-- What is still to be done by the runs and by payment-service. -/
def load (s : Sys) : Multiset Rank :=
  (s.sagas.map fun g => g.phase.rank : List Rank) + (s.pay.calls.map fun c => c.pc.rank : List Rank)

/-- A step of a `create_order` run, or of a call of payment-service. -/
def works : Lbl → Bool
  | .saga _ _ => true
  | .pay (.run _ _) => true
  | _ => false

theorem stepSaga_lowers {g g' : Saga} {a : Act} {e : Eff} (h : stepSaga cfg s g a = some (g', e)) :
    g'.phase.rank < g.phase.rank ∧ (e.onPay s.pay = s.pay ∨
      Gestalt.rank 5 0 < g.phase.rank ∧ ∃ r, e.onPay s.pay = s.pay.arrive r) := by
  unfold stepSaga at h
  split at h
  · rename_i oid pc hp
    obtain ⟨⟨pc', e'⟩, hs, he⟩ := Option.map_eq_some_iff.mp h
    cases he
    have hm := saga_moves hs
    refine ⟨hp ▸ hm.lowers, ?_⟩
    rcases hm.onPay with ⟨hpay, -⟩ | ⟨order, hpos, -, rfl, -, hpay⟩
    · exact .inl hpay
    · exact .inr ⟨hp ▸ rank_stage (by decide), _, hpay⟩
  · refine ⟨prelude_lowers h, .inl ?_⟩
    cases prelude_moves h <;> rfl

/-- **Step lemma.** Work trades one rank for lower ones. -/
theorem load_descends {l : Lbl} (hl : works l = true) (h : step cfg s l = some s') :
    Relation.CutExpand (· < ·) (load s') (load s) := by
  cases l with
  | saga i a =>
    simp only [step] at h
    split at h
    · rename_i g hg
      split at h
      · obtain ⟨⟨g', e⟩, hst, rfl⟩ := Option.map_eq_some_iff.mp h
        obtain ⟨hlow, hpay⟩ := stepSaga_lowers hst
        have hset := coe_map_set (fun g : Saga => g.phase.rank) (a := g') hg
        simp only [load, apply_pay]
        rcases hpay with hpay | ⟨hcall, r, hpay⟩
        · -- the run alone
          refine ⟨{g'.phase.rank}, g.phase.rank, by simpa using hlow, ?_⟩
          rw [hpay, add_right_comm, hset, add_right_comm]
        · -- the charge adds a call
          refine ⟨{g'.phase.rank, Gestalt.rank 5 0}, g.phase.rank, ?_, ?_⟩
          · simpa using ⟨hlow, hcall⟩
          · simp only [hpay, Payment.St.arrive, List.map_append, List.map_cons, List.map_nil,
              ← Multiset.coe_add, Multiset.insert_eq_cons, ← Multiset.singleton_add]
            rw [add_right_comm, hset]
            simp only [Payment.Pc.rank, Multiset.coe_singleton]
            abel
      · cases h
    · cases h
  | pay l =>
    cases l with
    | run j o =>
      simp only [step, ofPayment, if_true, Payment.step, Option.map_eq_some_iff] at h
      obtain ⟨p, hp, rfl⟩ := h
      split at hp
      · rename_i c hc
        split at hp
        · obtain ⟨c', hcalls, hlow, -⟩ := Payment.stepCall_lowers hp
          refine ⟨{c'.pc.rank}, c.pc.rank, by simpa using hlow, ?_⟩
          simp only [load, hcalls]
          rw [add_assoc, coe_map_set (fun c : Payment.Call => c.pc.rank) hc, add_assoc]
        · cases hp
      · cases hp
    | _ => cases hl
  | _ => cases hl

def Work (cfg : Config) (s' s : Sys) : Prop := ∃ l, works l = true ∧ step cfg s l = some s'

/-- **No endless work**: only finitely many steps of runs and of payment-service
follow one another. -/
theorem work_ends (cfg : Config) : WellFounded (Work cfg) := by
  have hwf : WellFounded (Relation.CutExpand fun a b : Rank => a < b) :=
    WellFounded.cutExpand wellFounded_lt
  refine Subrelation.wf ?_ (InvImage.wf load hwf)
  rintro s' s ⟨l, hl, h⟩
  exact load_descends hl h

/-! ## Nothing is stuck -/

/-- The outcome of a step if nothing fails: every call is answered, cart-service
returns the cart, a publish reaches the topic, and `uuid4` is new. -/
def Act.answered (s : Sys) : Act → Bool
  | .resolve r => r.ok
  | .price d => d = .answered
  | .flush oid => (Orders.find s.db oid).isNone
  | .reserve d => d = .answered
  | .release d => d = .answered
  | .charge f => f = none
  | .giveUp _ => false
  | .publish logged => logged
  | .clear d => d = .answered
  | _ => true

def answered (s : Sys) : Lbl → Bool
  | .saga _ a => a.answered s
  | _ => true

/-- Some run or call can go on, and nothing fails. -/
def GoesOn (cfg : Config) (s : Sys) : Prop :=
  ∃ l s', works l = true ∧ answered s l = true ∧ step cfg s l = some s'

theorem goesOn_saga {i : Nat} {g : Saga} {a : Act} (hg : s.sagas[i]? = some g) (hal : g.alive = true)
    (ha : a.answered s = true) (h : (stepSaga cfg s g a).isSome = true) : GoesOn cfg s := by
  have hstep : (step cfg s (.saga i a)).isSome = true := by
    simpa only [step, hg, hal, if_true, Option.isSome_map] using h
  obtain ⟨s', hs'⟩ := Option.isSome_iff_exists.mp hstep
  exact ⟨.saga i a, s', rfl, ha, hs'⟩

/-- An open transaction can be committed, or fails. -/
theorem stepSaga_commit {g : Saga} {order : Order} (hp : g.phase = .commit order) :
    (stepSaga cfg s g .commit).isSome = true := by
  simp only [stepSaga, hp, prelude]
  split <;> rfl

theorem stepSaga_flush {g : Saga} {amount : Int} {oid : String} (hp : g.phase = .price [] amount)
    (hlock : ¬ s.locked oid g.key = true) : (stepSaga cfg s g (.flush oid)).isSome = true := by
  simp only [stepSaga, hp, prelude, if_neg hlock]
  split
  · rfl
  · split <;> rfl

theorem exists_fresh (db : Db) : ∃ oid, Orders.find db oid = none := by
  obtain ⟨oid, hoid⟩ := Infinite.exists_notMem_finset (db.orders.map Order.id).toFinset
  refine ⟨oid, Table.get_eq_none.mpr ?_⟩
  intro o ho he
  exact hoid (List.mem_toFinset.mpr (List.mem_map.mpr ⟨o, ho, he⟩))

theorem Keys.finds {db : Db} {sagas : List Saga} (K : Keys db sagas) {i : Nat} {g : Saga} {oid : String}
    {pc : Pc} (hg : sagas[i]? = some g) (hp : g.phase = .saga oid pc) :
    (Orders.find db oid).isSome = true := by
  obtain ⟨c, hc, hid, -⟩ := (K.saga i g hg).own oid pc hp
  by_contra hnone
  exact Orders.find_none (Option.not_isSome_iff_eq_none.mp hnone) c hc hid

theorem step_pay {l : Payment.Lbl} (hl : ofPayment l = true) {p : Payment.St}
    (h : Payment.step cfg.payment s.pay l = some p) : step cfg s (.pay l) = some { s with pay := p } := by
  simp only [step, hl, if_true, h, Option.map_some]

/-- **A run that has not returned does not block the system.** -/
theorem unblocked (hr : (lts cfg cat).Reachable s) (hsagas : ∀ g ∈ s.sagas, g.alive = true)
    (hcalls : ∀ c ∈ s.pay.calls, c.alive = true) {i : Nat} {g : Saga} (hg : s.sagas[i]? = some g)
    (hrep : g.reply = none) : GoesOn cfg s := by
  have K := keys_reachable hr
  have hal := hsagas g (List.mem_of_getElem? hg)
  cases hp : g.phase with
  | lookup =>
    refine goesOn_saga (a := .select) hg hal rfl ?_
    simp only [stepSaga, hp, prelude]
    split
    · rfl
    · split <;> rfl
  | resolve =>
    refine goesOn_saga (a := .resolve (.status 200 none)) hg hal rfl ?_
    simp only [stepSaga, hp, prelude]
    split
    · rfl
    · split <;> rfl
  | price todo amount =>
    cases todo with
    | cons l todo =>
      refine goesOn_saga (a := .price .answered) hg hal rfl ?_
      simp only [stepSaga, hp, prelude]
      split <;> rfl
    | nil =>
      obtain ⟨oid, hoid⟩ := exists_fresh s.db
      by_cases hlock : s.locked oid g.key = true
      · -- the INSERT it waits for can be committed
        obtain ⟨d, hd, hcommit⟩ := List.any_eq_true.mp hlock
        obtain ⟨j, hj⟩ := List.mem_iff_getElem?.mp hd
        obtain ⟨hdal, hcommit⟩ := Bool.and_eq_true_iff.mp hcommit
        split at hcommit
        · rename_i order hp'
          exact goesOn_saga hj hdal rfl (stepSaga_commit hp')
        · cases hcommit
      · exact goesOn_saga hg hal (by simp [Act.answered, hoid]) (stepSaga_flush hp hlock)
  | commit order => exact goesOn_saga hg hal rfl (stepSaga_commit hp)
  | reselect =>
    refine goesOn_saga (a := .select) hg hal rfl ?_
    simp only [stepSaga, hp, prelude]
    split <;> rfl
  | replied answer => simp [Saga.reply, hp] at hrep
  | saga oid pc =>
    obtain ⟨order, hfind⟩ := Option.isSome_iff_exists.mp (K.finds hg hp)
    cases pc with
    | created => exact goesOn_saga (a := .publish true) hg hal rfl (by simp [stepSaga, hp, saga, hfind])
    | reserve held todo =>
      cases todo with
      | nil => exact goesOn_saga (a := .commit) hg hal rfl (by simp [stepSaga, hp, saga])
      | cons l todo =>
        refine goesOn_saga (a := .reserve .answered) hg hal rfl ?_
        simp only [stepSaga, hp, saga, Option.isSome_map]
        split <;> rfl
    | release b todo reason =>
      cases todo with
      | nil => exact goesOn_saga (a := .commit) hg hal rfl (by simp [stepSaga, hp, saga])
      | cons l todo =>
        exact goesOn_saga (a := .release .answered) hg hal rfl (by simp [stepSaga, hp, saga])
    | charge => exact goesOn_saga (a := .charge none) hg hal rfl (by simp [stepSaga, hp, saga, hfind])
    | await j =>
      obtain ⟨c, body, hc, hreq, -⟩ := (charges_reachable hr).await i g oid j hg hp
      by_cases hdone : ∃ answer, c.pc = .done answer
      · obtain ⟨answer, hpc⟩ := hdone
        exact goesOn_saga (a := .settle) hg hal rfl (by simp [stepSaga, hp, saga, hc, hpc])
      · -- payment-service is still at it
        have hpay : ∃ p, Payment.step cfg.payment s.pay (.run j none) = some p :=
          Payment.charge_goes_on hc (hcalls c (List.mem_of_getElem? hc)) hreq
            fun answer hpc => hdone ⟨answer, hpc⟩
        obtain ⟨p, hstep⟩ := hpay
        exact ⟨.pay (.run j none), _, rfl, rfl, step_pay rfl hstep⟩
    | pay => exact goesOn_saga (a := .commit) hg hal rfl (by simp [stepSaga, hp, saga])
    | ended b f =>
      cases f with
      | refresh => exact goesOn_saga (a := .load) hg hal rfl (by simp [stepSaga, hp, saga, hfind])
      | announce order => exact goesOn_saga (a := .publish true) hg hal rfl (by simp [stepSaga, hp, saga])
      | clear order => exact goesOn_saga (a := .clear .answered) hg hal rfl (by simp [stepSaga, hp, saga])
      | done out => simp [Saga.reply, hp] at hrep

/-! ## Without a crash -/

/-- No process has been lost. -/
structure Alive (s : Sys) : Prop where
  sagas : ∀ g ∈ s.sagas, g.alive = true
  calls : ∀ c ∈ s.pay.calls, c.alive = true

def isCrash : Lbl → Bool
  | .crash _ => true
  | .pay (.crash _) => true
  | _ => false

theorem stepSaga_alive {g g' : Saga} {a : Act} {e : Eff} (h : stepSaga cfg s g a = some (g', e)) :
    g'.alive = g.alive := by
  unfold stepSaga at h
  split at h
  · obtain ⟨r, -, he⟩ := Option.map_eq_some_iff.mp h
    cases he
    rfl
  · cases prelude_moves h <;> rfl

theorem Alive.payment {l : Payment.Lbl} {p : Payment.St} (h : ∀ c ∈ s.pay.calls, c.alive = true)
    (hl : isCrash (.pay l) = false) (hp : Payment.step cfg.payment s.pay l = some p) :
    ∀ c ∈ p.calls, c.alive = true := by
  cases l with
  | arrive r =>
    cases hp
    intro c hc
    rcases List.mem_append.mp hc with hold | hnew
    · exact h c hold
    · rw [List.mem_singleton.mp hnew]
  | run j o =>
    simp only [Payment.step] at hp
    split at hp
    · rename_i c hc
      split at hp
      · rename_i hal
        obtain ⟨c', hcalls, -, halive⟩ := Payment.stepCall_lowers hp
        intro d hd
        rw [hcalls] at hd
        rcases List.mem_or_eq_of_mem_set hd with hold | rfl
        · exact h d hold
        · exact halive.trans hal
      · cases hp
    · cases hp
  | crash j => cases hl
  | expire key =>
    simp only [Payment.step] at hp
    split at hp
    · split at hp
      · cases hp
        exact h
      · cases hp
    · cases hp
  | tick =>
    cases hp
    exact h

theorem alive_step {l : Lbl} (h : Alive s) (hl : isCrash l = false) (hst : step cfg s l = some s') :
    Alive s' := by
  cases l with
  | request r =>
    cases hst
    refine ⟨?_, h.calls⟩
    intro g hg
    rcases List.mem_append.mp hg with hold | hnew
    · exact h.sagas g hold
    · rw [List.mem_singleton.mp hnew]
  | saga i a =>
    simp only [step] at hst
    split at hst
    · rename_i g hg
      split at hst
      · rename_i hal
        obtain ⟨⟨g', e⟩, hstep, rfl⟩ := Option.map_eq_some_iff.mp hst
        refine ⟨?_, ?_⟩
        · intro d hd
          rcases List.mem_or_eq_of_mem_set hd with hold | rfl
          · exact h.sagas d hold
          · exact (stepSaga_alive hstep).trans hal
        · intro c hc
          simp only [apply_pay] at hc
          rcases (stepSaga_lowers hstep).2 with hpay | ⟨-, r, hpay⟩
          · exact h.calls c (hpay ▸ hc)
          · rw [hpay] at hc
            rcases List.mem_append.mp hc with hold | hnew
            · exact h.calls c hold
            · rw [List.mem_singleton.mp hnew]
      · cases hst
    · cases hst
  | pay l =>
    simp only [step] at hst
    split at hst
    · obtain ⟨p, hp, rfl⟩ := Option.map_eq_some_iff.mp hst
      exact ⟨h.sagas, Alive.payment h.calls hl hp⟩
    · cases hst
  | crash i => cases hl
  | _ =>
    cases step_shape hst with
    | other _ _ _ _ hb _ => exact ⟨hb.sagas ▸ h.sagas, hb.pay ▸ h.calls⟩

end Checkout
end Gestalt
