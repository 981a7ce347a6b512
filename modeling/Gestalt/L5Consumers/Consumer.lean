import Gestalt.Core.LTS
import Gestalt.Core.Procs
import Mathlib.Logic.Function.Basic

/-!
# The consumer loop

`run_consumer` of notification-service and of review-service, which are the same
code around two `handle_event` functions, and the consumer group it runs in: a
topic of any number of partitions, the group's committed offsets, and any number
of consumers, started, crashed, and given or deprived of partitions at any time.

One step is one call of the client library, or one `handle_event`. The outcome
of each is an input (`Act`): `handle_event` returns or raises, a commit is
accepted, refused, or takes effect and raises, `produce` and `seek` may raise.
An exception in the `try` block leads to the `except` block; one in the `except`
block ends the consumer (`finally: consumer.close()`). A `poll` that returns
nothing, or an error, is no step; a `seek` takes effect at once.

`produce` only enqueues. The producer's own thread delivers what is enqueued, or
gives it up, at some later time; `flush(5)` returns when the queue is empty or
after five seconds, and its result is not looked at.

A partition is assigned at its committed offset. A commit of an offset by a
consumer that has lost the partition may be refused; that it may be accepted
too makes the model more general than Kafka.

`at_least_once`: below a committed offset every message has been handled or
forwarded.
-/
namespace Gestalt.Kafka

/-- mirrors services/notification-service/app/config.py and
services/review-service/app/config.py -/
structure Settings where
  maxProcessingAttempts : Nat := 3

/-- `(msg.partition(), msg.offset())`; there is one topic. -/
abbrev MsgId := Nat × Nat

/-- What the loop does next. -/
inductive Pc
  | poll
  | handle (m : MsgId)
  | commit (m : MsgId)
  /-- out of attempts: `producer.produce` -/
  | produce (m : MsgId)
  | flush (m : MsgId)
  /-- the commit after the forward -/
  | commitPast (m : MsgId)
  | seek (m : MsgId)
  /-- the function has returned or raised -/
  | ended
  deriving DecidableEq, Repr

/-- The message between its `poll` and the next one. -/
def Pc.inFlight : Pc → Option MsgId
  | .poll => none
  | .ended => none
  | .handle m => some m
  | .commit m => some m
  | .produce m => some m
  | .flush m => some m
  | .commitPast m => some m
  | .seek m => some m

structure Consumer where
  /-- the next offset of each assigned partition -/
  position : Nat → Option Nat := fun _ => none
  retryCounts : MsgId → Option Nat := fun _ => none
  /-- enqueued for the dead-letter topic and not delivered -/
  queue : List MsgId := []
  pc : Pc := .poll
  alive : Bool := true

/-- The group and its topic. `calls` is ghost: the `handle_event` calls that
have ended, and whether they returned. -/
structure Group (M : Type) where
  log : Nat → List M
  committed : Nat → Nat
  consumers : List Consumer
  dlq : List MsgId
  calls : List (MsgId × Bool)

/-- How a synchronous commit ends; it raises unless it is accepted. -/
inductive Outcome
  | accepted
  | refused
  /-- it takes effect, and raises -/
  | lost
  deriving DecidableEq, Repr

inductive Act
  | poll (p : Nat)
  | handle (returns : Bool)
  | commit (o : Outcome)
  | produce (returns : Bool)
  | flush
  | seek (returns : Bool)
  | stop
  deriving DecidableEq, Repr

/-- What a step of a consumer does to the group. -/
inductive Eff
  | quiet
  | called (m : MsgId) (returns : Bool)
  | commits (m : MsgId)
  deriving DecidableEq, Repr

namespace Consumer

/-- `retry_counts.pop(msg_id, None)`, and on to the next message. -/
def finished (c : Consumer) (m : MsgId) : Consumer :=
  { c with retryCounts := Function.update c.retryCounts m none, pc := .poll }

/-- `except Exception`, up to its first call.
mirrors services/notification-service/app/consumer.py:111-134 -/
def failed (cfg : Settings) (c : Consumer) (m : MsgId) : Consumer :=
  let attempts := (c.retryCounts m).getD 0 + 1
  { c with
    retryCounts := Function.update c.retryCounts m (some attempts)
    pc := if cfg.maxProcessingAttempts ≤ attempts then .produce m else .seek m }

/-- `finally: consumer.close()`: it leaves the group. -/
def close (c : Consumer) : Consumer := { c with position := fun _ => none, pc := .ended }

/-- mirrors services/notification-service/app/consumer.py:57-136 and
services/review-service/app/consumer.py:60-139 -/
def step {M : Type} (cfg : Settings) (log : Nat → List M) (c : Consumer) (a : Act) :
    Option (Consumer × Eff) :=
  match c.pc, a with
  | .poll, .poll p =>
    match c.position p with
    | some o =>
      if o < (log p).length then
        some ({ c with position := Function.update c.position p (some (o + 1)), pc := .handle (p, o) },
          .quiet)
      else none
    | none => none
  | .poll, .stop => some (c.close, .quiet)
  | .handle m, .handle returns =>
    some (if returns then { c with pc := .commit m } else c.failed cfg m, .called m returns)
  | .commit m, .commit o =>
    some (if o = .accepted then c.finished m else c.failed cfg m,
      if o = .refused then .quiet else .commits m)
  | .produce m, .produce returns =>
    some (if returns then { c with queue := c.queue ++ [m], pc := .flush m } else c.close, .quiet)
  | .flush m, .flush => some ({ c with pc := .commitPast m }, .quiet)
  | .commitPast m, .commit o =>
    some (if o = .accepted then c.finished m else c.close, if o = .refused then .quiet else .commits m)
  | .seek m, .seek true =>
    -- seeking in a partition that is not assigned raises
    match c.position m.1 with
    | some _ =>
      some ({ c with position := Function.update c.position m.1 (some m.2), pc := .poll }, .quiet)
    | none => none
  | .seek _, .seek false => some (c.close, .quiet)
  | _, _ => none

/-- What one step can do. -/
inductive Moves {M : Type} (cfg : Settings) (log : Nat → List M) (c : Consumer) :
    Act → Consumer → Eff → Prop
  | polled (p o : Nat) : c.pc = .poll → c.position p = some o → o < (log p).length →
      Moves cfg log c (.poll p)
        { c with position := Function.update c.position p (some (o + 1)), pc := .handle (p, o) } .quiet
  | stopped : c.pc = .poll → Moves cfg log c .stop c.close .quiet
  | returned (m : MsgId) : c.pc = .handle m →
      Moves cfg log c (.handle true) { c with pc := .commit m } (.called m true)
  | raised (m : MsgId) : c.pc = .handle m →
      Moves cfg log c (.handle false) (c.failed cfg m) (.called m false)
  | committed (m : MsgId) : c.pc = .commit m →
      Moves cfg log c (.commit .accepted) (c.finished m) (.commits m)
  | uncommitted (m : MsgId) (o : Outcome) : c.pc = .commit m → o ≠ .accepted →
      Moves cfg log c (.commit o) (c.failed cfg m) (if o = .refused then .quiet else .commits m)
  | produced (m : MsgId) : c.pc = .produce m →
      Moves cfg log c (.produce true) { c with queue := c.queue ++ [m], pc := .flush m } .quiet
  | unproduced (m : MsgId) : c.pc = .produce m → Moves cfg log c (.produce false) c.close .quiet
  | flushed (m : MsgId) : c.pc = .flush m → Moves cfg log c .flush { c with pc := .commitPast m } .quiet
  | passed (m : MsgId) : c.pc = .commitPast m →
      Moves cfg log c (.commit .accepted) (c.finished m) (.commits m)
  | unpassed (m : MsgId) (o : Outcome) : c.pc = .commitPast m → o ≠ .accepted →
      Moves cfg log c (.commit o) c.close (if o = .refused then .quiet else .commits m)
  | sought (m : MsgId) (o : Nat) : c.pc = .seek m → c.position m.1 = some o →
      Moves cfg log c (.seek true)
        { c with position := Function.update c.position m.1 (some m.2), pc := .poll } .quiet
  | unsought (m : MsgId) : c.pc = .seek m → Moves cfg log c (.seek false) c.close .quiet

theorem step_moves {M : Type} {cfg : Settings} {log : Nat → List M} {c c' : Consumer} {a : Act} {e : Eff}
    (h : c.step cfg log a = some (c', e)) : Moves cfg log c a c' e := by
  unfold Consumer.step at h
  split at h
  case h_1 p hpc =>
    split at h
    case h_1 o ho =>
      split at h
      · rename_i hlt
        cases h
        exact .polled p o hpc ho hlt
      · cases h
    case h_2 => cases h
  case h_2 hpc => cases h; exact .stopped hpc
  case h_3 m returns hpc =>
    cases returns with
    | true => cases h; exact .returned m hpc
    | false => cases h; exact .raised m hpc
  case h_4 m o hpc =>
    by_cases ho : o = .accepted
    · subst ho
      cases h
      exact .committed m hpc
    · rw [if_neg ho] at h
      cases h
      exact .uncommitted m o hpc ho
  case h_5 m returns hpc =>
    cases returns with
    | true => cases h; exact .produced m hpc
    | false => cases h; exact .unproduced m hpc
  case h_6 m hpc => cases h; exact .flushed m hpc
  case h_7 m o hpc =>
    by_cases ho : o = .accepted
    · subst ho
      cases h
      exact .passed m hpc
    · rw [if_neg ho] at h
      cases h
      exact .unpassed m o hpc ho
  case h_8 m hpc =>
    split at h
    · rename_i o ho
      cases h
      exact .sought m o hpc ho
    · cases h
  case h_9 m hpc => cases h; exact .unsought m hpc
  case h_10 => cases h

/-- Only `handle_event` ends a call. -/
theorem Moves.called {M : Type} {cfg : Settings} {log : Nat → List M} {c c' : Consumer} {a : Act}
    {m : MsgId} {returns : Bool} (h : Moves cfg log c a c' (.called m returns)) : a = .handle returns := by
  generalize he : Eff.called m returns = e at h
  cases h with
  | returned => cases he; rfl
  | raised => cases he; rfl
  | uncommitted => split at he <;> cases he
  | unpassed => split at he <;> cases he
  | _ => cases he

end Consumer

inductive Lbl (M : Type)
  | append (p : Nat) (msg : M)
  | join
  | assign (i p : Nat)
  | revoke (i p : Nat)
  | consumer (i : Nat) (a : Act)
  /-- the producer of consumer `i` delivers, or gives up, a message -/
  | deliver (i : Nat) (m : MsgId)
  | reject (i : Nat) (m : MsgId)
  | crash (i : Nat)

namespace Group

variable {M : Type}

def start (log : Nat → List M) : Group M := ⟨log, fun _ => 0, [], [], []⟩

/-- `commit(msg)` commits the offset after the message's. -/
def perform (s : Group M) : Eff → Group M
  | .quiet => s
  | .called m returns => { s with calls := s.calls ++ [(m, returns)] }
  | .commits m => { s with committed := Function.update s.committed m.1 (m.2 + 1) }

/-- Replace consumer `i`, if it is alive and `f` applies. -/
def update (s : Group M) (i : Nat) (f : Consumer → Option Consumer) : Option (Group M) :=
  match s.consumers[i]? with
  | some c => if c.alive then (f c).map fun c' => { s with consumers := s.consumers.set i c' } else none
  | none => none

def step (cfg : Settings) (s : Group M) : Lbl M → Option (Group M)
  | .append p msg => some { s with log := Function.update s.log p (s.log p ++ [msg]) }
  | .join => some { s with consumers := s.consumers ++ [{}] }
  | .assign i p => s.update i fun c =>
    if c.pc = .ended then none
    else some { c with position := Function.update c.position p (some (s.committed p)) }
  | .revoke i p => s.update i fun c => some { c with position := Function.update c.position p none }
  | .consumer i a =>
    match s.consumers[i]? with
    | some c =>
      if c.alive then
        (c.step cfg s.log a).map fun r => { s.perform r.2 with consumers := s.consumers.set i r.1 }
      else none
    | none => none
  | .deliver i m =>
    (s.update i fun c => if m ∈ c.queue then some { c with queue := c.queue.erase m } else none).map
      fun s' => { s' with dlq := s'.dlq ++ [m] }
  | .reject i m =>
    s.update i fun c => if m ∈ c.queue then some { c with queue := c.queue.erase m } else none
  | .crash i => s.update i fun c => some { c with alive := false }

/-- The group on a topic that may hold messages already. -/
def lts (cfg : Settings) (log : Nat → List M) : LTS (Group M) (Lbl M) :=
  LTS.ofFn (· = start log) (step cfg)

/-- A `flush` returns only once the message it follows has been delivered. -/
def flushed (s : Group M) : Lbl M → Bool
  | .consumer i .flush =>
    match s.consumers[i]? with
    | some c =>
      match c.pc with
      | .flush m => m ∈ s.dlq
      | _ => true
    | none => true
  | _ => true

def flushedLts (cfg : Settings) (log : Nat → List M) : LTS (Group M) (Lbl M) :=
  (lts cfg log).restrict fun s l => flushed s l = true

end Group

/-! ## What a consumer relies on -/

/-- The message whose offset is committed next. -/
def Pc.commits : Pc → Option MsgId
  | .commit m => some m
  | .commitPast m => some m
  | _ => none

/-- What holds of a consumer, `D m` saying that message `m` is done. Everything
below a position is done, but for the message in flight. -/
structure Consumer.Ok (D : MsgId → Prop) (c : Consumer) : Prop where
  position : ∀ p o, c.position p = some o → ∀ k, k < o → D (p, k) ∨ c.pc.inFlight = some (p, k)
  before : ∀ p o, c.pc.inFlight = some (p, o) → ∀ k, k < o → D (p, k)
  commits : ∀ m, c.pc.commits = some m → D m

namespace Consumer

variable {D D' : MsgId → Prop} {c c' : Consumer} {m : MsgId}

theorem Ok.mono (h : c.Ok D) (hD : ∀ m, D m → D' m) : c.Ok D' where
  position p o hp k hk := (h.position p o hp k hk).imp (hD _) id
  before p o hp k hk := hD _ (h.before p o hp k hk)
  commits m hm := hD m (h.commits m hm)

/-- Nothing assigned and nothing in flight. -/
theorem Ok.idle (hp : ∀ p, c.position p = none) (hf : c.pc.inFlight = none)
    (hc : c.pc.commits = none) : c.Ok D where
  position p o ho := by
    rw [hp] at ho
    cases ho
  before p o ho := by
    rw [hf] at ho
    cases ho
  commits m hm := by
    rw [hc] at hm
    cases hm

theorem Ok.close (c : Consumer) : c.close.Ok D := .idle (fun _ => rfl) rfl rfl

/-- On to the next call of the same message. -/
theorem Ok.next (h : c.Ok D) (hp : c'.position = c.position) (hf : c'.pc.inFlight = c.pc.inFlight)
    (hc : ∀ m, c'.pc.commits = some m → D m) : c'.Ok D where
  position p o ho k hk := by
    rw [hp] at ho
    rw [hf]
    exact h.position p o ho k hk
  before p o ho := by
    rw [hf] at ho
    exact h.before p o ho
  commits := hc

theorem Ok.failed {cfg : Settings} (h : c.Ok D) (hf : c.pc.inFlight = some m) :
    (c.failed cfg m).Ok D := by
  refine h.next rfl ?_ ?_
  · simp only [Consumer.failed]
    split <;> exact hf.symm
  · intro m' hm
    simp only [Consumer.failed] at hm
    split at hm <;> cases hm

/-- A message that is done leaves nothing open. -/
theorem Ok.finished (h : c.Ok D) (hf : c.pc.inFlight = some m) (hm : D m) : (c.finished m).Ok D := by
  constructor
  · intro p o ho k hk
    rcases h.position p o ho k hk with hd | he
    · exact .inl hd
    · rw [hf, Option.some.injEq] at he
      exact .inl (he ▸ hm)
  · intro p o ho
    cases ho
  · intro m' hm'
    cases hm'

/-- A partition is taken away, or assigned at an offset below which all is done. -/
theorem Ok.setPosition {p : Nat} {o : Option Nat} (h : c.Ok D)
    (ho : ∀ n, o = some n → ∀ k, k < n → D (p, k)) :
    ({ c with position := Function.update c.position p o } : Consumer).Ok D where
  position q n hq k hk := by
    simp only [Function.update_apply] at hq
    split at hq
    · rename_i he
      subst he
      exact .inl (ho n hq k hk)
    · exact h.position q n hq k hk
  before := h.before
  commits := h.commits

/-- `poll` moves past the message it returns. -/
theorem Ok.poll {p o : Nat} (h : c.Ok D) (hpc : c.pc = .poll) (ho : c.position p = some o) :
    ({ c with position := Function.update c.position p (some (o + 1)), pc := .handle (p, o) } :
      Consumer).Ok D := by
  -- nothing is in flight before
  have hdone : ∀ q o', c.position q = some o' → ∀ k, k < o' → D (q, k) := by
    intro q o' hq k hk
    refine (h.position q o' hq k hk).resolve_right ?_
    rw [hpc]
    simp [Pc.inFlight]
  constructor
  · intro q o' hq k hk
    simp only [Function.update_apply] at hq
    split at hq
    · rename_i he
      subst he
      simp only [Option.some.injEq] at hq
      rcases Nat.lt_or_eq_of_le (Nat.le_of_lt_succ (hq ▸ hk)) with hlt | heq
      · exact .inl (hdone q o ho k hlt)
      · exact .inr (heq ▸ rfl)
    · exact .inl (hdone q o' hq k hk)
  · intro q o' hq
    simp only [Pc.inFlight, Option.some.injEq, Prod.mk.injEq] at hq
    obtain ⟨rfl, rfl⟩ := hq
    exact hdone p o ho
  · intro m hm
    cases hm

/-- `seek` moves back to the message in flight, which is in flight no more. -/
theorem Ok.seek (h : c.Ok D) (hf : c.pc.inFlight = some m) :
    ({ c with position := Function.update c.position m.1 (some m.2), pc := .poll } :
      Consumer).Ok D := by
  constructor
  · intro q o hq k hk
    simp only [Function.update_apply] at hq
    split at hq
    · rename_i he
      subst he
      simp only [Option.some.injEq] at hq
      exact .inl (h.before m.1 m.2 hf k (hq ▸ hk))
    · rename_i hne
      refine (h.position q o hq k hk).imp id ?_
      intro he
      rw [hf, Option.some.injEq] at he
      exact absurd (congrArg Prod.fst he).symm hne
  · intro p o ho
    cases ho
  · intro m hm
    cases hm

/-- The message is done with, so everything up to it is. -/
theorem Ok.upTo (h : c.Ok D) (hf : c.pc.inFlight = some m) (hm : D m) : ∀ k, k ≤ m.2 → D (m.1, k) := by
  intro k hk
  rcases Nat.lt_or_eq_of_le hk with hlt | rfl
  · exact h.before m.1 m.2 hf k hlt
  · exact hm

/-- **Step lemma.** `D` is what is done before the step and `D'` after it: the
call that returns is in it, and so is the message a `flush` waits for. What is
committed is done. -/
theorem Ok.step {M : Type} {cfg : Settings} {log : Nat → List M} {a : Act} {e : Eff}
    (h : c.Ok D) (hst : c.step cfg log a = some (c', e)) (hD : ∀ m, D m → D' m)
    (hcall : ∀ m, e = .called m true → D' m) (hflush : ∀ m, c.pc = .flush m → a = .flush → D m) :
    c'.Ok D' ∧ ∀ m, e = .commits m → ∀ k, k ≤ m.2 → D (m.1, k) := by
  have hpast : ∀ m o, c.pc.inFlight = some m → c.pc.commits = some m →
      ∀ m', (if o = Outcome.refused then Eff.quiet else .commits m) = .commits m' →
      ∀ k, k ≤ m'.2 → D (m'.1, k) := by
    intro m o hf hc m' he
    split at he
    · cases he
    · cases he
      exact h.upTo hf (h.commits m hc)
  cases step_moves hst with
  | polled p o hpc ho _ => exact ⟨(h.poll hpc ho).mono hD, by simp⟩
  | stopped _ => exact ⟨.close c, by simp⟩
  | returned m hpc =>
    refine ⟨(h.mono hD).next rfl (congrArg Pc.inFlight hpc).symm ?_, by simp⟩
    intro m' hm'
    cases hm'
    exact hcall m rfl
  | raised m hpc => exact ⟨(h.failed (congrArg Pc.inFlight hpc)).mono hD, by simp⟩
  | committed m hpc =>
    have hf : c.pc.inFlight = some m := congrArg Pc.inFlight hpc
    have hc : c.pc.commits = some m := congrArg Pc.commits hpc
    exact ⟨(h.finished hf (h.commits m hc)).mono hD, hpast m .accepted hf hc⟩
  | uncommitted m o hpc _ =>
    have hf : c.pc.inFlight = some m := congrArg Pc.inFlight hpc
    exact ⟨(h.failed hf).mono hD, hpast m o hf (congrArg Pc.commits hpc)⟩
  | produced m hpc =>
    exact ⟨(h.mono hD).next rfl (congrArg Pc.inFlight hpc).symm (by simp [Pc.commits]), by simp⟩
  | unproduced m _ => exact ⟨.close c, by simp⟩
  | flushed m hpc =>
    refine ⟨(h.mono hD).next rfl (congrArg Pc.inFlight hpc).symm ?_, by simp⟩
    intro m' hm'
    cases hm'
    exact hD m (hflush m hpc rfl)
  | passed m hpc =>
    have hf : c.pc.inFlight = some m := congrArg Pc.inFlight hpc
    have hc : c.pc.commits = some m := congrArg Pc.commits hpc
    exact ⟨(h.finished hf (h.commits m hc)).mono hD, hpast m .accepted hf hc⟩
  | unpassed m o hpc _ =>
    exact ⟨.close c, hpast m o (congrArg Pc.inFlight hpc) (congrArg Pc.commits hpc)⟩
  | sought m o hpc _ => exact ⟨(h.seek (congrArg Pc.inFlight hpc)).mono hD, by simp⟩
  | unsought m _ => exact ⟨.close c, by simp⟩

/-- The loop has not moved on; partitions may have come or gone, and what was enqueued may be gone. -/
structure Waits (c c' : Consumer) : Prop where
  pc : c'.pc = c.pc
  retryCounts : c'.retryCounts = c.retryCounts
  queue : c'.queue ⊆ c.queue

end Consumer

/-! ## At least once -/

namespace Group

/-- A call on the message has returned, or the dead-letter topic has it. -/
def Done (s : Group M) (m : MsgId) : Prop := (m, true) ∈ s.calls ∨ m ∈ s.dlq

structure Inv (s : Group M) : Prop where
  committed : ∀ p o, o < s.committed p → s.Done (p, o)
  consumers : ∀ (i : Nat) (c : Consumer), s.consumers[i]? = some c → c.Ok s.Done

theorem inv_start (log : Nat → List M) : (start log).Inv := by
  constructor
  · intro p o ho
    exact absurd ho (Nat.not_lt_zero o)
  · intro i c hc
    cases hc

theorem update_cases {s s' : Group M} {i : Nat} {f : Consumer → Option Consumer}
    (h : s.update i f = some s') : ∃ c c', s.consumers[i]? = some c ∧ f c = some c' ∧
      s' = { s with consumers := s.consumers.set i c' } := by
  unfold Group.update at h
  split at h
  · rename_i c hc
    split at h
    · obtain ⟨c', hf, rfl⟩ := Option.map_eq_some_iff.mp h
      exact ⟨c, c', hc, hf, rfl⟩
    · cases h
  · cases h

/-- One consumer changes, and nothing that is done is undone. -/
theorem Inv.set {s s' : Group M} {i : Nat} {c c' : Consumer} (hI : s.Inv)
    (hc : s.consumers[i]? = some c) (hs : s'.consumers = s.consumers.set i c')
    (hD : ∀ m, s.Done m → s'.Done m) (hcom : ∀ p o, o < s'.committed p → s'.Done (p, o))
    (hok : c'.Ok s'.Done) : s'.Inv where
  committed := hcom
  consumers j d hd := by
    rw [hs] at hd
    rcases Procs.set_cases hc hd with ⟨-, rfl⟩ | ⟨-, hold⟩
    · exact hok
    · exact (hI.consumers j d hold).mono hD

/-- `update` with nothing else changed. -/
theorem Inv.update {s s' : Group M} {i : Nat} {f : Consumer → Option Consumer} (hI : s.Inv)
    (h : s.update i f = some s') (hf : ∀ c c', c.Ok s.Done → f c = some c' → c'.Ok s.Done) :
    s'.Inv := by
  obtain ⟨c, c', hc, hcc, rfl⟩ := update_cases h
  exact hI.set hc rfl (fun _ hm => hm) hI.committed (hf c c' (hI.consumers i c hc) hcc)

/-- More is done, and nothing else has changed. -/
theorem Inv.mono {s s' : Group M} (hI : s.Inv) (hcon : s'.consumers = s.consumers)
    (hcom : s'.committed = s.committed) (hD : ∀ m, s.Done m → s'.Done m) : s'.Inv where
  committed p o ho := by
    rw [hcom] at ho
    exact hD _ (hI.committed p o ho)
  consumers i c hc := by
    rw [hcon] at hc
    exact (hI.consumers i c hc).mono hD

theorem perform_done (s : Group M) (e : Eff) {m : MsgId} (h : s.Done m) : (s.perform e).Done m := by
  cases e with
  | quiet => exact h
  | called m' returns => exact h.imp (fun hm => List.mem_append_left _ hm) id
  | commits m' => exact h

theorem step_consumer {cfg : Settings} {s s' : Group M} {i : Nat} {a : Act}
    (h : step cfg s (.consumer i a) = some s') : ∃ c c' e, s.consumers[i]? = some c ∧ c.alive = true ∧
      c.step cfg s.log a = some (c', e) ∧ s' = { s.perform e with consumers := s.consumers.set i c' } := by
  simp only [step] at h
  split at h
  · rename_i c hc
    split at h
    · rename_i hal
      obtain ⟨⟨c', e⟩, hst, rfl⟩ := Option.map_eq_some_iff.mp h
      exact ⟨c, c', e, hc, hal, hst, rfl⟩
    · cases h
  · cases h

/-- The message whose `handle_event` runs. -/
def inHand (s : Group M) (i : Nat) : Option MsgId :=
  match (s.consumers[i]?).map Consumer.pc with
  | some (.handle m) => some m
  | _ => none

/-- A call ends in the step of its own. -/
theorem step_handle {cfg : Settings} {s s' : Group M} {i : Nat} {returns : Bool}
    (h : step cfg s (.consumer i (.handle returns)) = some s') : ∃ m, s.inHand i = some m ∧
      s'.calls = s.calls ++ [(m, returns)] ∧ s'.log = s.log := by
  obtain ⟨c, c', e, hc, -, hst, rfl⟩ := step_consumer h
  cases Consumer.step_moves hst with
  | returned m hpc => exact ⟨m, by simp [inHand, hc, hpc], rfl, rfl⟩
  | raised m hpc => exact ⟨m, by simp [inHand, hc, hpc], rfl, rfl⟩

theorem update_frame {s s' : Group M} {i : Nat} {f : Consumer → Option Consumer}
    (h : s.update i f = some s') : s'.calls = s.calls ∧ s'.log = s.log := by
  obtain ⟨_, _, _, _, rfl⟩ := update_cases h
  exact ⟨rfl, rfl⟩

/-- Any other step ends no call, and the topic only grows. -/
theorem step_frame {cfg : Settings} {s s' : Group M} {l : Lbl M} (h : step cfg s l = some s')
    (hl : ∀ i returns, l ≠ .consumer i (.handle returns)) :
    s'.calls = s.calls ∧ ∀ p, s.log p <+: s'.log p := by
  have hkeep : s'.calls = s.calls ∧ s'.log = s.log → s'.calls = s.calls ∧ ∀ p, s.log p <+: s'.log p := by
    rintro ⟨hc, hlog⟩
    exact ⟨hc, fun p => hlog ▸ List.prefix_rfl⟩
  cases l with
  | append p msg =>
    cases h
    refine ⟨rfl, ?_⟩
    intro q
    by_cases hq : q = p
    · subst hq
      simp
    · simp [Function.update_of_ne hq]
  | join =>
    cases h
    exact hkeep ⟨rfl, rfl⟩
  | assign i p => exact hkeep (update_frame h)
  | revoke i p => exact hkeep (update_frame h)
  | consumer i a =>
    obtain ⟨c, c', e, hc, -, hst, rfl⟩ := step_consumer h
    refine hkeep ?_
    cases e with
    | quiet => exact ⟨rfl, rfl⟩
    | commits m => exact ⟨rfl, rfl⟩
    | called m returns =>
      exact absurd (congrArg (Lbl.consumer i) (Consumer.step_moves hst).called) (hl i returns)
  | deliver i m =>
    simp only [step, Option.map_eq_some_iff] at h
    obtain ⟨s₁, h1, rfl⟩ := h
    obtain ⟨hc, hlog⟩ := update_frame h1
    exact hkeep ⟨hc, hlog⟩
  | reject i m => exact hkeep (update_frame h)
  | crash i => exact hkeep (update_frame h)

/-- No step takes anything from the topic. -/
theorem step_grows {cfg : Settings} {s s' : Group M} {l : Lbl M} (h : step cfg s l = some s') (p : Nat) :
    s.log p <+: s'.log p := by
  by_cases hl : ∃ i returns, l = .consumer i (.handle returns)
  · obtain ⟨i, returns, rfl⟩ := hl
    obtain ⟨-, -, -, hlog⟩ := step_handle h
    exact hlog ▸ List.prefix_rfl
  · exact (step_frame h fun i returns he => hl ⟨i, returns, he⟩).2 p

/-- Only an append changes the topic. -/
theorem step_log {cfg : Settings} {s s' : Group M} {l : Lbl M} (h : step cfg s l = some s')
    (hl : ∀ p msg, l ≠ .append p msg) : s'.log = s.log := by
  cases l with
  | append p msg => exact absurd rfl (hl p msg)
  | join =>
    cases h
    rfl
  | consumer i a =>
    obtain ⟨c, c', e, -, -, -, rfl⟩ := step_consumer h
    cases e <;> rfl
  | deliver i m =>
    obtain ⟨s₁, h1, rfl⟩ := Option.map_eq_some_iff.mp h
    exact (update_frame h1).2
  | assign i p | revoke i p | reject i m | crash i => exact (update_frame h).2

theorem update_waits {s s' : Group M} {i j : Nat} {f : Consumer → Option Consumer} {c' : Consumer}
    (h : s.update j f = some s') (hf : ∀ d d', f d = some d' → d.Waits d')
    (hc' : s'.consumers[i]? = some c') : ∃ c, s.consumers[i]? = some c ∧ c.Waits c' := by
  obtain ⟨d, d', hd, hdd, rfl⟩ := update_cases h
  rcases Procs.set_cases hd hc' with ⟨rfl, rfl⟩ | ⟨-, hold⟩
  · exact ⟨d, hd, hf d _ hdd⟩
  · exact ⟨c', hold, rfl, rfl, List.Subset.refl _⟩

/-- The producer's thread takes a message from the queue. -/
theorem dequeue_waits {m : MsgId} (d d' : Consumer)
    (h : (if m ∈ d.queue then some { d with queue := d.queue.erase m } else none) = some d') :
    d.Waits d' := by
  split at h
  · cases h
    exact ⟨rfl, rfl, List.erase_subset⟩
  · cases h

/-- **One consumer in one step**: it is new, it waits, or it takes the step. -/
theorem step_consumers {cfg : Settings} {s s' : Group M} {l : Lbl M} (h : step cfg s l = some s') {i : Nat}
    {c' : Consumer} (hc' : s'.consumers[i]? = some c') : c' = {} ∨ ∃ c, s.consumers[i]? = some c ∧
      (c.Waits c' ∨ ∃ a e, l = .consumer i a ∧ c.Moves cfg s.log a c' e) := by
  have hwait : (∃ c, s.consumers[i]? = some c ∧ c.Waits c') → c' = {} ∨ ∃ c, s.consumers[i]? = some c ∧
      (c.Waits c' ∨ ∃ a e, l = .consumer i a ∧ c.Moves cfg s.log a c' e) :=
    fun ⟨c, hc, hw⟩ => .inr ⟨c, hc, .inl hw⟩
  have hsame {c : Consumer} (hc : s.consumers[i]? = some c) : ∃ c₀, s.consumers[i]? = some c₀ ∧ c₀.Waits c :=
    ⟨c, hc, rfl, rfl, List.Subset.refl _⟩
  cases l with
  | append p msg =>
    cases h
    exact hwait (hsame hc')
  | join =>
    cases h
    rcases Procs.spawn_cases hc' with hold | ⟨-, hnew⟩
    · exact hwait (hsame hold)
    · exact .inl hnew
  | assign j p =>
    refine hwait (update_waits h (fun d d' hf => ?_) hc')
    split at hf <;> cases hf
    exact ⟨rfl, rfl, List.Subset.refl _⟩
  | revoke j p =>
    refine hwait (update_waits h (fun d d' hf => ?_) hc')
    cases hf
    exact ⟨rfl, rfl, List.Subset.refl _⟩
  | consumer j a =>
    obtain ⟨d, d', e, hd, -, hst, rfl⟩ := step_consumer h
    rcases Procs.set_cases hd hc' with ⟨rfl, rfl⟩ | ⟨-, hold⟩
    · exact .inr ⟨d, hd, .inr ⟨a, e, rfl, Consumer.step_moves hst⟩⟩
    · exact hwait (hsame hold)
  | deliver j m =>
    obtain ⟨s₁, h1, rfl⟩ := Option.map_eq_some_iff.mp h
    exact hwait (update_waits h1 dequeue_waits hc')
  | reject j m => exact hwait (update_waits h dequeue_waits hc')
  | crash j =>
    refine hwait (update_waits h (fun d d' hf => ?_) hc')
    cases hf
    exact ⟨rfl, rfl, List.Subset.refl _⟩

/-- The dead-letter topic grows by what a producer delivers. -/
theorem step_dlq {cfg : Settings} {s s' : Group M} {l : Lbl M} (h : step cfg s l = some s') :
    s'.dlq = s.dlq ∨ ∃ (i : Nat) (c : Consumer) (m : MsgId), s.consumers[i]? = some c ∧ m ∈ c.queue ∧
      s'.dlq = s.dlq ++ [m] := by
  have hkeep {j : Nat} {f : Consumer → Option Consumer} {t : Group M} (ht : s.update j f = some t) :
      t.dlq = s.dlq := by
    obtain ⟨_, _, _, _, rfl⟩ := update_cases ht
    rfl
  cases l with
  | append p msg => cases h; exact .inl rfl
  | join => cases h; exact .inl rfl
  | assign j p => exact .inl (hkeep h)
  | revoke j p => exact .inl (hkeep h)
  | consumer j a =>
    obtain ⟨_, _, e, _, -, _, rfl⟩ := step_consumer h
    exact .inl (by cases e <;> rfl)
  | deliver j m =>
    obtain ⟨s₁, h1, rfl⟩ := Option.map_eq_some_iff.mp h
    obtain ⟨d, d', hd, hdd, -⟩ := update_cases h1
    split at hdd
    · rename_i hm
      exact .inr ⟨j, d, m, hd, hm, by rw [hkeep h1]⟩
    · cases hdd
  | reject j m => exact .inl (hkeep h)
  | crash j => exact .inl (hkeep h)

theorem inv_consumer {cfg : Settings} {s s' : Group M} {i : Nat} {a : Act} (hI : s.Inv)
    (h : step cfg s (.consumer i a) = some s') (hG : flushed s (.consumer i a) = true) : s'.Inv := by
  obtain ⟨c, c', e, hc, -, hst, rfl⟩ := step_consumer h
  have hflush : ∀ m, c.pc = .flush m → a = .flush → s.Done m := by
    intro m hpc ha
    subst ha
    simp only [flushed, hc, hpc, decide_eq_true_eq] at hG
    exact .inr hG
  have hcall : ∀ m, e = .called m true → (s.perform e).Done m := by
    intro m he
    subst he
    exact .inl (List.mem_append_right _ (List.mem_singleton.mpr rfl))
  have hD : ∀ m, s.Done m → (s.perform e).Done m := fun _ => perform_done s e
  obtain ⟨hok, hcom⟩ := (hI.consumers i c hc).step hst hD hcall hflush
  refine hI.set hc rfl hD ?_ hok
  intro p o ho
  cases e with
  | quiet => exact hI.committed p o ho
  | called m returns => exact hD _ (hI.committed p o ho)
  | commits m =>
    simp only [perform, Function.update_apply] at ho
    split at ho
    · rename_i hp
      subst hp
      exact hcom m rfl o (Nat.le_of_lt_succ ho)
    · exact hI.committed p o ho

theorem inv_step {cfg : Settings} {s s' : Group M} {l : Lbl M} (hI : s.Inv)
    (h : step cfg s l = some s') (hG : flushed s l = true) : s'.Inv := by
  cases l with
  | append p msg =>
    simp only [step, Option.some.injEq] at h
    subst h
    exact hI.mono rfl rfl fun _ hm => hm
  | join =>
    simp only [step, Option.some.injEq] at h
    subst h
    refine ⟨hI.committed, ?_⟩
    intro j d hd
    rcases Procs.spawn_cases hd with hold | ⟨-, rfl⟩
    · exact hI.consumers j d hold
    · exact .idle (fun _ => rfl) rfl rfl
  | assign i p =>
    refine hI.update h ?_
    intro c c' hok hf
    split at hf
    · cases hf
    · simp only [Option.some.injEq] at hf
      subst hf
      refine hok.setPosition ?_
      intro n hn
      rw [← Option.some.inj hn]
      exact hI.committed p
  | revoke i p =>
    refine hI.update h ?_
    intro c c' hok hf
    simp only [Option.some.injEq] at hf
    subst hf
    exact hok.setPosition (by simp)
  | consumer i a => exact inv_consumer hI h hG
  | deliver i m =>
    simp only [step, Option.map_eq_some_iff] at h
    obtain ⟨s₁, h1, rfl⟩ := h
    have h₁ : s₁.Inv := by
      refine hI.update h1 ?_
      intro c c' hok hf
      split at hf
      · simp only [Option.some.injEq] at hf
        subst hf
        exact hok.next rfl rfl hok.commits
      · cases hf
    exact h₁.mono rfl rfl fun _ hm => hm.imp id (List.mem_append_left _)
  | reject i m =>
    refine hI.update h ?_
    intro c c' hok hf
    split at hf
    · simp only [Option.some.injEq] at hf
      subst hf
      exact hok.next rfl rfl hok.commits
    · cases hf
  | crash i =>
    refine hI.update h ?_
    intro c c' hok hf
    simp only [Option.some.injEq] at hf
    subst hf
    exact hok.next rfl rfl hok.commits

theorem inv_reachable {cfg : Settings} {log : Nat → List M} {s : Group M}
    (h : (flushedLts cfg log).Reachable s) : s.Inv := by
  refine LTS.reachable_induct ?_ ?_ h
  · rintro s rfl
    exact inv_start log
  · intro s l s' _ hI hs
    exact inv_step hI hs.1 hs.2

/-- **At least once.** Below a committed offset every message has been handled
or forwarded, and so has every message below the position of a consumer that is
about to poll. -/
theorem at_least_once (cfg : Settings) (log : Nat → List M) {s : Group M}
    (h : (flushedLts cfg log).Reachable s) :
    (∀ p o, o < s.committed p → s.Done (p, o)) ∧
      ∀ c ∈ s.consumers, c.pc = .poll → ∀ p o, c.position p = some o → ∀ k, k < o → s.Done (p, k) := by
  have hI := inv_reachable h
  refine ⟨hI.committed, ?_⟩
  intro c hc hpc p o ho k hk
  obtain ⟨i, hi⟩ := List.mem_iff_getElem?.mp hc
  refine ((hI.consumers i c hi).position p o ho k hk).resolve_right ?_
  rw [hpc]
  simp [Pc.inFlight]

/-- Two partitions. The first message raises three times and is forwarded, the
other's call returns and its commit is lost with the process; a second consumer
handles it again. -/
def poisonThenCrash : List (Lbl String) :=
  let next := Lbl.consumer 0
  let again := [next (.poll 0), next (.handle false), next (.seek true)]
  [.join, .assign 0 0, .assign 0 1] ++ again ++ again ++
    [next (.poll 0), next (.handle false), next (.produce true), .deliver 0 (0, 0), next .flush,
      next (.commit .accepted), next (.poll 1), next (.handle true), next (.commit .refused), .crash 0,
      .join, .assign 1 1, .consumer 1 (.poll 1), .consumer 1 (.handle true),
      .consumer 1 (.commit .accepted)]

def twoPartitions : Nat → List String := fun p => if p < 2 then ["order.paid"] else []

theorem at_least_once_poison : ∃ s, (flushedLts {} twoPartitions).Reachable s ∧
    (s.committed 0 = 1 ∧ s.committed 1 = 1) ∧ ∀ p o, o < s.committed p → s.Done (p, o) := by
  obtain ⟨s, hr, hs⟩ : ∃ s, (flushedLts {} twoPartitions).Reachable s ∧
      decide (s.committed 0 = 1 ∧ s.committed 1 = 1) = true :=
    LTS.reachable_of_execG poisonThenCrash rfl (by decide +kernel)
  exact ⟨s, hr, of_decide_eq_true hs, (at_least_once {} twoPartitions hr).1⟩

end Group
end Gestalt.Kafka
