import Gestalt.L5Consumers.Consumer

/-!
# A consumer that is dead and ready

Status: open.

Behaviour: `run_consumer` sets `_ready` before its loop, and nothing clears it:
`finally` only closes the consumer (services/notification-service/app/consumer.py:94 and
:135-136, services/review-service/app/consumer.py:97 and :138-139). The thread is not
started again, and `/healthz/ready` goes on answering 200.

Documented: shared/gestalt_shared/health.py:3-5, readiness "should reflect real dependency
health"; `ready_check` asks `consumer_is_ready` for it
(services/notification-service/app/main.py:22, services/review-service/app/main.py:24-26).

Counterexample: `unsought`. `handle_event` raises once, and the `seek` after it raises too.

Fix: `_ready.clear()` in `finally`.
-/
namespace Gestalt.Kafka

/-- The calls before the loop: `Consumer(...)`, `Producer(...)` and `subscribe`. -/
inductive SetUp
  | consumer
  | producer
  | subscribe
  deriving DecidableEq, Repr

/-- Where `run_consumer` is. `raised`: the loop has been left by an exception; at the end, the function. -/
inductive Thread
  | setUp (next : SetUp)
  | loop (c : Consumer)
  /-- `finally: consumer.close()` -/
  | closing (raised : Bool)
  | finished (raised : Bool)

/-- One process, and the topic. -/
structure Process (M : Type) where
  log : Nat → List M
  /-- `_ready` -/
  ready : Bool := false
  thread : Thread := .setUp .consumer

namespace Process

inductive Lbl (M : Type)
  | append (p : Nat) (msg : M)
  | assign (p o : Nat)
  | revoke (p : Nat)
  /-- a call before the loop -/
  | setUp (returns : Bool)
  /-- a step of the loop, an exception of `handle_event`, of a commit, of `produce` or of `seek` included -/
  | call (a : Act)
  /-- `poll` or `flush` raises, or something that `except Exception` does not catch -/
  | raise
  | close (returns : Bool)

variable {M : Type}

/-- mirrors services/notification-service/app/consumer.py:38-39 and
services/review-service/app/consumer.py:36-37 -/
def consumerIsReady (s : Process M) : Bool := s.ready

/-- notification-service's `ready_check`, `kafka` being `kafka_is_ready()`; review-service's has
`mongo_is_ready()` before it.
mirrors services/notification-service/app/main.py:22 and services/review-service/app/main.py:25 -/
def readyCheck (kafka : Bool) (s : Process M) : Bool := kafka && s.consumerIsReady

/-- The status of `/healthz/ready`; `none`: the check raises.
mirrors shared/gestalt_shared/health.py:25-34 -/
def readyStatus (check : Option Bool) : Nat := if check.getD false then 200 else 503

/-- A call before the loop has returned.
mirrors services/notification-service/app/consumer.py:80-94 and
services/review-service/app/consumer.py:83-97 -/
def next (s : Process M) : SetUp → Process M
  | .consumer => { s with thread := .setUp .producer }
  | .producer => { s with thread := .setUp .subscribe }
  | .subscribe => { s with ready := true, thread := .loop {} }

/-- The loop goes on, or is left for `finally`. -/
def leave (a : Act) (c : Consumer) : Thread :=
  if c.pc = .ended then .closing (decide (a ≠ .stop)) else .loop c

/-- mirrors services/notification-service/app/consumer.py:79-136 and
services/review-service/app/consumer.py:82-139 -/
def step (cfg : Settings) (s : Process M) : Lbl M → Option (Process M)
  | .append p msg => some { s with log := Function.update s.log p (s.log p ++ [msg]) }
  | .assign p o =>
    match s.thread with
    | .loop c => some { s with thread := .loop { c with position := Function.update c.position p (some o) } }
    | _ => none
  | .revoke p =>
    match s.thread with
    | .loop c => some { s with thread := .loop { c with position := Function.update c.position p none } }
    | _ => none
  | .setUp returns =>
    match s.thread with
    | .setUp k => some (if returns then s.next k else { s with thread := .finished true })
    | _ => none
  | .call a =>
    match s.thread with
    | .loop c => (c.step cfg s.log a).map fun r => { s with thread := leave a r.1 }
    | _ => none
  | .raise =>
    match s.thread with
    | .loop _ => some { s with thread := .closing true }
    | _ => none
  | .close returns =>
    match s.thread with
    | .closing raised => some { s with thread := .finished (raised || !returns) }
    | _ => none

/-- `on_startup` starts the thread; the topic may hold messages already. -/
def lts (cfg : Settings) (log : Nat → List M) : LTS (Process M) (Lbl M) :=
  LTS.ofFn (· = { log }) (step cfg)

/-- A consumer that is over is not ready. -/
def Tracks (s : Process M) : Prop := ∀ raised, s.thread = .finished raised → s.consumerIsReady = false

/-! ## The run that goes wrong -/

/-- `seek` raises in the `except` block. -/
def unsought : List (Lbl String) :=
  [.setUp true, .setUp true, .setUp true, .assign 0 0, .call (.poll 0), .call (.handle false),
    .call (.seek false), .close true]

def oneMessage : Nat → List String := fun p => if p = 0 then ["\x7b"] else []

/-- The consumer has died of an exception, and `/healthz/ready` answers 200. -/
def deadAndReady (s : Process String) : Bool :=
  (match s.thread with
    | .finished raised => raised
    | _ => false) && readyStatus (some (s.readyCheck true)) == 200

/-- **Counterexample.** -/
theorem dead_consumer_ready : ¬ ∀ s, (lts {} oneMessage).Reachable s → s.Tracks := by
  intro h
  obtain ⟨s, hr, hs⟩ : ∃ s, (lts {} oneMessage).Reachable s ∧ deadAndReady s = true :=
    LTS.reachable_of_exec unsought rfl (by decide +kernel)
  simp only [deadAndReady, Bool.and_eq_true] at hs
  obtain ⟨hover, hstatus⟩ := hs
  split at hover
  · rename_i raised hth
    rw [readyCheck, h s hr raised hth] at hstatus
    cases hstatus
  · cases hover

variable {cfg : Settings} {log : Nat → List M} {s s' : Process M} {l : Lbl M} {ls : List (Lbl M)}

/-! ## Ways out of the loop -/

/-- What ends the loop: `_stop_event`; a call that is in neither block; or, in the `except` block, the
forward, the commit after it, or the `seek`. -/
inductive Leaves (c : Consumer) : Lbl M → Prop
  | stopped : c.pc = .poll → Leaves c (.call .stop)
  | raised : Leaves c .raise
  | unproduced (m : MsgId) : c.pc = .produce m → Leaves c (.call (.produce false))
  | unpassed (m : MsgId) (o : Outcome) : c.pc = .commitPast m → o ≠ .accepted → Leaves c (.call (.commit o))
  | unsought (m : MsgId) : c.pc = .seek m → Leaves c (.call (.seek false))

theorem failed_pc (cfg : Settings) (c : Consumer) (m : MsgId) : (c.failed cfg m).pc ≠ .ended := by
  simp only [Consumer.failed]
  split <;> simp

theorem moves_ended {c c' : Consumer} {a : Act} {e : Eff} (h : c.Moves cfg s.log a c' e)
    (hpc : c'.pc = .ended) : Leaves c (.call a : Lbl M) := by
  cases h with
  | stopped hp => exact .stopped hp
  | unproduced m hp => exact .unproduced m hp
  | unpassed m o hp ho => exact .unpassed m o hp ho
  | unsought m hp => exact .unsought m hp
  | raised m _ => exact absurd hpc (failed_pc cfg c m)
  | uncommitted m o _ _ => exact absurd hpc (failed_pc cfg c m)
  | _ => cases hpc

/-- Anything else is retried, or is no failure. -/
theorem loop_step {c : Consumer} (hst : step cfg s l = some s') (h : s.thread = .loop c) :
    (∃ c', s'.thread = .loop c') ∨ (∃ raised, s'.thread = .closing raised) ∧ Leaves c l := by
  cases l with
  | append p msg =>
    cases hst
    exact .inl ⟨c, h⟩
  | setUp returns => simp [step, h] at hst
  | close returns => simp [step, h] at hst
  | assign p o =>
    simp only [step, h] at hst
    cases hst
    exact .inl ⟨_, rfl⟩
  | revoke p =>
    simp only [step, h] at hst
    cases hst
    exact .inl ⟨_, rfl⟩
  | raise =>
    simp only [step, h] at hst
    cases hst
    exact .inr ⟨⟨_, rfl⟩, .raised⟩
  | call a =>
    simp only [step, h] at hst
    obtain ⟨⟨c', e⟩, hc, rfl⟩ := Option.map_eq_some_iff.mp hst
    by_cases hpc : c'.pc = .ended
    · exact .inr ⟨⟨_, if_pos hpc⟩, moves_ended (Consumer.step_moves hc) hpc⟩
    · exact .inl ⟨_, if_neg hpc⟩

/-! ## What the flag says at the end -/

/-- The calls before the loop are made. -/
def Started (s : Process M) : Prop := ∀ k, s.thread ≠ .setUp k

theorem leave_started (a : Act) (c : Consumer) (k : SetUp) : leave a c ≠ .setUp k := by
  unfold leave
  split <;> simp

/-- Once they are, no step touches the flag. -/
theorem started_step (hst : step cfg s l = some s') (h : s.Started) :
    s'.ready = s.ready ∧ s'.Started ∧ l ≠ .setUp false := by
  cases l with
  | append p msg =>
    cases hst
    exact ⟨rfl, h, by simp⟩
  | setUp returns =>
    simp only [step] at hst
    split at hst
    · rename_i k hth
      exact absurd hth (h k)
    · cases hst
  | assign p o =>
    simp only [step] at hst
    split at hst <;> cases hst
    exact ⟨rfl, by simp [Started], by simp⟩
  | revoke p =>
    simp only [step] at hst
    split at hst <;> cases hst
    exact ⟨rfl, by simp [Started], by simp⟩
  | call a =>
    simp only [step] at hst
    split at hst
    · obtain ⟨r, -, rfl⟩ := Option.map_eq_some_iff.mp hst
      exact ⟨rfl, leave_started a r.1, by simp⟩
    · cases hst
  | raise =>
    simp only [step] at hst
    split at hst <;> cases hst
    exact ⟨rfl, by simp [Started], by simp⟩
  | close returns =>
    simp only [step] at hst
    split at hst <;> cases hst
    exact ⟨rfl, by simp [Started], by simp⟩

theorem started_run (hr : (lts cfg log).Run s ls s') (h : s.Started) :
    s'.ready = s.ready ∧ Lbl.setUp false ∉ ls := by
  induction hr with
  | nil => exact ⟨rfl, by simp⟩
  | cons hst _ ih =>
    obtain ⟨hready, hstarted, hl⟩ := started_step hst h
    obtain ⟨hready', hls⟩ := ih hstarted
    refine ⟨hready'.trans hready, ?_⟩
    simp only [List.mem_cons, not_or]
    exact ⟨hl.symm, hls⟩

/-- Before, a step is one of these calls, or has nothing to do with the consumer. -/
theorem setUp_step {k : SetUp} (hst : step cfg s l = some s') (h : s.thread = .setUp k) :
    (l = .setUp true ∧ s' = s.next k) ∨ (l = .setUp false ∧ s' = { s with thread := .finished true }) ∨
      (l ≠ .setUp false ∧ s'.thread = .setUp k ∧ s'.ready = s.ready) := by
  cases l with
  | append p msg =>
    cases hst
    exact .inr (.inr ⟨by simp, h, rfl⟩)
  | setUp returns =>
    simp only [step, h] at hst
    cases returns with
    | true => cases hst; exact .inl ⟨rfl, rfl⟩
    | false => cases hst; exact .inr (.inl ⟨rfl, rfl⟩)
  | assign p o => simp [step, h] at hst
  | revoke p => simp [step, h] at hst
  | call a => simp [step, h] at hst
  | raise => simp [step, h] at hst
  | close returns => simp [step, h] at hst

/-- From a call before the loop to the end: the flag is down just if one of them has raised. -/
theorem setUp_run (hr : (lts cfg log).Run s ls s') {raised : Bool} (ho : s'.thread = .finished raised) :
    ∀ {k : SetUp}, s.thread = .setUp k → s.ready = false → (s'.ready = false ↔ Lbl.setUp false ∈ ls) := by
  induction hr with
  | nil s =>
    intro k hk
    rw [ho] at hk
    cases hk
  | @cons s m s' l ls hst hr ih =>
    intro k hk hready
    rcases setUp_step hst hk with ⟨rfl, rfl⟩ | ⟨rfl, rfl⟩ | ⟨hl, hth, hrd⟩
    · have htail : (s'.ready = false ↔ Lbl.setUp false ∈ ls) := by
        cases k with
        | consumer => exact ih ho rfl hready
        | producer => exact ih ho rfl hready
        | subscribe =>
          -- `_ready.set()`
          have hstarted : (s.next .subscribe).Started := by simp [Started, next]
          obtain ⟨hup, hls⟩ := started_run hr hstarted
          rw [hup]
          simp [next, hls]
      simpa using htail
    · have hstarted : ({ s with thread := .finished true } : Process M).Started := by simp [Started]
      obtain ⟨hdown, -⟩ := started_run hr hstarted
      simp [hdown, hready]
    · have htail := ih ho hth (hrd.trans hready)
      simpa [hl.symm] using htail

/-- **The flag at the end.** When `run_consumer` has returned or raised, `consumer_is_ready()` is false
exactly if `_ready.set()` was never reached, a call before it having raised. -/
theorem tracks_iff {raised : Bool} (hr : (lts cfg log).Run { log } ls s) (ho : s.thread = .finished raised) :
    s.consumerIsReady = false ↔ Lbl.setUp false ∈ ls :=
  setUp_run hr ho rfl rfl

/-- `subscribe` raises. -/
theorem unsubscribed_run : (lts {} oneMessage).Run { log := oneMessage }
    [.setUp true, .setUp true, .setUp false] { log := oneMessage, thread := .finished true } :=
  .cons rfl (.cons rfl (.cons rfl (.nil _)))

theorem tracks_iff_unsubscribed :
    ({ log := oneMessage, thread := .finished true } : Process String).consumerIsReady = false :=
  (tracks_iff unsubscribed_run rfl).mpr (by simp)

end Process
end Gestalt.Kafka
