import Gestalt.Core.Attempts
import Gestalt.L5Consumers.Consumer
import Mathlib.Algebra.BigOperators.Group.Finset.Piecewise
import Mathlib.Algebra.Order.BigOperators.Group.Finset
import Mathlib.Order.Interval.Finset.Nat

/-!
# Retry accounting

One run of `run_consumer` from its assignment on, in which nothing of Kafka
fails: no crash, no rebalance, and every commit, `produce` and `seek` returns.
The consumer is given any partitions, each at its committed offset; `poll` may
return the next message of any of them. What `handle_event` does is given from
outside: `outcome m n` says whether the call on message `m` after `n` others
returns.

A message from the committed offset on is `Pending`: as many calls on it have
failed as `retry_counts` says. Below it, it is `Settled`.

A message counts as forwarded from `produce` on, while it is in the producer's
queue too. Inside one iteration of the loop, from the last failed attempt to the
`pop` after the commit, the counter of the message stands at the limit.

Through crashes and rebalances less is known: a message that is forwarded has
failed often enough, in one process or in several (`tried_step`).
-/
namespace Gestalt.Kafka

/-- Where the loop is with a message. -/
inductive Standing
  | waiting
  /-- `handle_event` has returned -/
  | returned
  /-- out of attempts, and not yet forwarded -/
  | exhausted
  | forwarded
  deriving DecidableEq, Repr

def Pc.standing (pc : Pc) (m : MsgId) : Standing :=
  match pc with
  | .commit m' => if m' = m then .returned else .waiting
  | .produce m' => if m' = m then .exhausted else .waiting
  | .flush m' => if m' = m then .forwarded else .waiting
  | .commitPast m' => if m' = m then .forwarded else .waiting
  | _ => .waiting

/-- The loop is past the last attempt of the message. -/
def Standing.spent : Standing → Bool
  | .exhausted => true
  | .forwarded => true
  | _ => false

theorem Pc.inFlight_only {pc : Pc} {m : MsgId} (h : pc.inFlight = some m) (m' : MsgId) (hn : m' ≠ m) :
    pc.inFlight ≠ some m' := by
  intro he
  rw [h, Option.some.injEq] at he
  exact hn he.symm

theorem Pc.inFlight_none {pc : Pc} (h : pc.inFlight = none) (m : MsgId) : pc.inFlight ≠ some m := by
  simp [h]

theorem Pc.standing_waiting {pc : Pc} {m : MsgId} (h : pc.inFlight ≠ some m) : pc.standing m = .waiting := by
  cases pc <;> simp_all [Pc.standing, Pc.inFlight]

/-- `retry_counts.get(msg_id, 0)` -/
def Consumer.tries (c : Consumer) (m : MsgId) : Nat := (c.retryCounts m).getD 0

theorem Consumer.tries_failed (cfg : Settings) (c : Consumer) (m : MsgId) :
    (c.failed cfg m).tries m = c.tries m + 1 := by
  simp [Consumer.tries, Consumer.failed]

theorem Consumer.standing_failed (cfg : Settings) (c : Consumer) (m : MsgId) :
    (c.failed cfg m).pc.standing m =
      if cfg.maxProcessingAttempts ≤ c.tries m + 1 then .exhausted else .waiting := by
  simp only [Consumer.failed, Consumer.tries]
  by_cases hN : cfg.maxProcessingAttempts ≤ (c.retryCounts m).getD 0 + 1
  · simp [hN, Pc.standing]
  · simp [hN, Pc.standing]

namespace Group

variable {M : Type}

/-- The `handle_event` calls on a message. -/
def attempts (s : Group M) (m : MsgId) : Nat := s.calls.countP fun x => x.1 = m

/-- The `handle_event` calls on the messages of a partition. -/
def callsOn (s : Group M) (p : Nat) : Nat := s.calls.countP fun x => x.1.1 = p

/-- Which of them returned, in order. -/
def results (s : Group M) (m : MsgId) : List Bool := (s.calls.filter fun x => x.1 = m).map Prod.snd

/-- How often a message has been given to the producer. -/
def forwarded (s : Group M) (m : MsgId) : Nat :=
  s.dlq.count m + (s.consumers.flatMap Consumer.queue).count m

/-- The message a step commits past. -/
def finishes (s : Group M) : Lbl M → Option MsgId
  | .consumer i (.commit .accepted) => (s.consumers[i]?).bind fun c => c.pc.commits
  | _ => none

/-- The messages a run finishes, in order. -/
def finishedBy (cfg : Settings) : Group M → List (Lbl M) → List MsgId
  | _, [] => []
  | s, l :: ls => (s.finishes l).toList ++ (step cfg s l).elim [] fun s' => finishedBy cfg s' ls

/-- One consumer, with its partitions. -/
def resumed (log : Nat → List M) (committed : Nat → Nat) (assigned : Nat → Bool) : Group M :=
  ⟨log, committed, [{ position := fun p => if assigned p then some (committed p) else none }], [], []⟩

/-- Nothing of Kafka fails, and `handle_event` does what `outcome` says. -/
def steady (outcome : MsgId → Nat → Bool) (s : Group M) : Lbl M → Bool
  | .append _ _ => true
  | .deliver _ _ => true
  | .consumer i (.handle returns) =>
    match s.consumers[i]? with
    | some c =>
      match c.pc with
      | .handle m => returns = outcome m (s.attempts m)
      | _ => true
    | none => true
  | .consumer _ (.commit o) => o = .accepted
  | .consumer _ (.produce returns) => returns
  | .consumer _ (.seek returns) => returns
  | .consumer _ _ => true
  | _ => false

def steadyLts (cfg : Settings) (outcome : MsgId → Nat → Bool) (log : Nat → List M)
    (committed : Nat → Nat) (assigned : Nat → Bool) : LTS (Group M) (Lbl M) :=
  (LTS.ofFn (· = resumed log committed assigned) (step cfg)).restrict
    fun s l => steady outcome s l = true

/-! ## A message -/

/-- A message that is not finished; `tries` is its entry in `retry_counts`. -/
structure Pending (N : Nat) (f : Nat → Bool) (v : Standing) (tries attempts forwarded : Nat) : Prop where
  fails : Fails f tries
  attempts : attempts = tries + if v = .returned then 1 else 0
  returned : v = .returned → f tries = true
  forwarded : forwarded = if v = .forwarded then 1 else 0
  limit : tries ≤ N
  spent : tries = N ↔ v.spent = true

structure Settled (N : Nat) (f : Nat → Bool) (attempts forwarded : Nat) : Prop where
  attempts : (attempts : ℕ∞) = Gestalt.attempts f N
  forwarded : forwarded = if Fails f N then 1 else 0

namespace Pending

variable {N tries a w : Nat} {f : Nat → Bool} {v : Standing}

theorem fresh (hN : 1 ≤ N) : Pending N f .waiting 0 0 0 where
  fails := .zero
  attempts := rfl
  returned := by simp
  forwarded := rfl
  limit := Nat.zero_le N
  spent := by simp [Standing.spent]; omega

theorem below (h : Pending N f v tries a w) (hv : v.spent = false) : tries < N := by
  refine Nat.lt_of_le_of_ne h.limit ?_
  intro he
  rw [h.spent.mp he] at hv
  cases hv

/-- The commit after the call that returned, or after the forward. -/
theorem settled (h : Pending N f v tries a w) (hv : v = .returned ∨ v = .forwarded) : Settled N f a w := by
  rcases hv with rfl | rfl
  · have hlt : tries < N := h.below rfl
    have hf : f tries = true := h.returned rfl
    refine ⟨?_, ?_⟩
    · rw [h.attempts, h.fails.attempts_succ hf hlt]
      rfl
    · rw [h.forwarded, if_neg (not_fails hf hlt)]
      rfl
  · have hN : tries = N := h.spent.mpr rfl
    subst hN
    refine ⟨?_, ?_⟩
    · rw [h.attempts, h.fails.attempts_eq]
      rfl
    · rw [h.forwarded, if_pos h.fails]
      rfl

/-- What has happened to it is on the way to what will have. -/
theorem onWay (h : Pending N f v tries a w) : (a : ℕ∞) ≤ Gestalt.attempts f N ∧
    (w = 0 ∨ w = 1 ∧ Fails f N) ∧ (v = .waiting → (a : ℕ∞) < Gestalt.attempts f N ∧ w = 0) := by
  have ha := h.attempts
  have hw := h.forwarded
  cases v with
  | waiting =>
    have hlt : (a : ℕ∞) < Gestalt.attempts f N := by
      rw [ha]
      exact h.fails.lt_attempts (h.below rfl)
    exact ⟨hlt.le, .inl hw, fun _ => ⟨hlt, hw⟩⟩
  | returned => exact ⟨(h.settled (.inl rfl)).attempts.le, .inl hw, by simp⟩
  | exhausted =>
    have hN : tries = N := h.spent.mpr rfl
    subst hN
    refine ⟨?_, .inl hw, by simp⟩
    rw [ha, h.fails.attempts_eq]
    rfl
  | forwarded =>
    have hN : tries = N := h.spent.mpr rfl
    subst hN
    exact ⟨(h.settled (.inr rfl)).attempts.le, .inr ⟨hw, h.fails⟩, by simp⟩

/-- `handle_event` returns. -/
theorem succeed (h : Pending N f .waiting tries a w) (hf : f a = true) :
    Pending N f .returned tries (a + 1) w := by
  obtain rfl : a = tries := h.attempts
  exact ⟨h.fails, rfl, fun _ => hf, h.forwarded, h.limit, by simpa [Standing.spent] using h.spent⟩

/-- `handle_event` raises. -/
theorem fail (h : Pending N f .waiting tries a w) (hf : f a = false) :
    Pending N f (if N ≤ tries + 1 then .exhausted else .waiting) (tries + 1) (a + 1) w := by
  have hlt : tries < N := h.below rfl
  have hw : w = 0 := h.forwarded
  obtain rfl : a = tries := h.attempts
  subst hw
  split
  · rename_i hN
    have hN' : a + 1 = N := Nat.le_antisymm hlt hN
    exact ⟨h.fails.succ hf, rfl, by simp, rfl, hlt, by simp [hN', Standing.spent]⟩
  · rename_i hN
    have hne : a + 1 ≠ N := fun he => hN he.ge
    exact ⟨h.fails.succ hf, rfl, by simp, rfl, hlt, by simp [hne, Standing.spent]⟩

/-- `producer.produce` -/
theorem forward (h : Pending N f .exhausted tries a w) : Pending N f .forwarded tries a (w + 1) := by
  have hw : w = 0 := h.forwarded
  subst hw
  exact ⟨h.fails, h.attempts, by simp, rfl, h.limit, h.spent⟩

end Pending

/-! ## The run -/

/-- What holds between any two steps; `start` is where the offsets were committed at first. -/
structure Steady (cfg : Settings) (outcome : MsgId → Nat → Bool) (start : Nat → Nat) (s : Group M)
    (c : Consumer) : Prop where
  only : s.consumers = [c]
  alive : c.alive = true
  flight : ∀ m, c.pc.inFlight = some m → m.2 = s.committed m.1 ∧ c.position m.1 = some (m.2 + 1)
  position : ∀ p o, c.position p = some o →
    o = s.committed p ∨ c.pc.inFlight = some (p, s.committed p) ∧ o = s.committed p + 1
  current : ∀ m, c.retryCounts m ≠ none → m.2 = s.committed m.1
  grown : ∀ p, start p ≤ s.committed p
  pending : ∀ m, s.committed m.1 ≤ m.2 → Pending cfg.maxProcessingAttempts (outcome m)
    (c.pc.standing m) (c.tries m) (s.attempts m) (s.forwarded m)
  settled : ∀ m, start m.1 ≤ m.2 → m.2 < s.committed m.1 →
    Settled cfg.maxProcessingAttempts (outcome m) (s.attempts m) (s.forwarded m)
  before : ∀ m, m.2 < start m.1 → s.attempts m = 0 ∧ s.forwarded m = 0
  results : ∀ m, s.results m = (List.range (s.attempts m)).map (outcome m)

variable {cfg : Settings} {outcome : MsgId → Nat → Bool} {log : Nat → List M} {start : Nat → Nat}
  {assigned : Nat → Bool} {s s' : Group M} {c c' : Consumer} {m : MsgId}

theorem steady_resumed (hN : 1 ≤ cfg.maxProcessingAttempts) : ∃ c,
    Steady cfg outcome start (resumed log start assigned) c := by
  refine ⟨_, rfl, rfl, ?_, ?_, ?_, fun p => Nat.le_refl _, ?_, ?_, fun m _ => ⟨rfl, rfl⟩, fun m => rfl⟩
  · intro m hm
    cases hm
  · intro p o ho
    simp only [Option.ite_none_right_eq_some, Option.some.injEq] at ho
    exact .inl ho.2.symm
  · intro m hm
    exact absurd rfl hm
  · intro m _
    exact .fresh hN
  · intro m hge hlt
    exact absurd hlt (Nat.not_lt.mpr hge)

/-- What one message is to a state, and to the consumer. -/
structure SameFor (s s' : Group M) (c c' : Consumer) (m : MsgId) : Prop where
  retryCounts : c'.retryCounts m = c.retryCounts m
  attempts : s'.attempts m = s.attempts m
  forwarded : s'.forwarded m = s.forwarded m
  results : s'.results m = s.results m

theorem SameFor.tries (h : SameFor s s' c c' m) : c'.tries m = c.tries m := by
  unfold Consumer.tries
  rw [h.retryCounts]

/-- With no message in flight, the position is the committed offset. -/
theorem Steady.position_idle (h : Steady cfg outcome start s c) (hf : c.pc.inFlight = none) {p o : Nat}
    (ho : c.position p = some o) : o = s.committed p := by
  refine (h.position p o ho).resolve_right ?_
  rintro ⟨he, -⟩
  exact Pc.inFlight_none hf _ he

/-- So it is in the partitions other than that of the message in flight. -/
theorem Steady.position_other (h : Steady cfg outcome start s c) (hf : c.pc.inFlight = some m) {p o : Nat}
    (hp : p ≠ m.1) (ho : c.position p = some o) : o = s.committed p := by
  refine (h.position p o ho).resolve_right ?_
  rintro ⟨he, -⟩
  rw [hf, Option.some.injEq] at he
  exact hp (congrArg Prod.fst he).symm

/-- The message stays in flight. -/
theorem Steady.flight_kept (h : Steady cfg outcome start s c) (c' : Consumer) (hf : c.pc.inFlight = some m)
    (hf' : c'.pc.inFlight = some m) (hpos : c'.position = c.position) :
    (∀ m', c'.pc.inFlight = some m' → m'.2 = s.committed m'.1 ∧ c'.position m'.1 = some (m'.2 + 1)) ∧
      ∀ p o, c'.position p = some o →
        o = s.committed p ∨ c'.pc.inFlight = some (p, s.committed p) ∧ o = s.committed p + 1 := by
  rw [hf', ← hf, hpos]
  exact ⟨h.flight, h.position⟩

/-- A step inside one iteration: nothing is committed, and nothing but the
message in flight, if any, is touched. -/
theorem Steady.inside (h : Steady cfg outcome start s c) (honly : s'.consumers = [c'])
    (halive : c'.alive = c.alive) (hcom : s'.committed = s.committed)
    (hbefore : ∀ m', m' ≠ m → c.pc.inFlight ≠ some m')
    (hafter : ∀ m', m' ≠ m → c'.pc.inFlight ≠ some m')
    (hsame : ∀ m', m' ≠ m → SameFor s s' c c' m') (hcur : m.2 = s.committed m.1)
    (hflight : ∀ m, c'.pc.inFlight = some m → m.2 = s.committed m.1 ∧ c'.position m.1 = some (m.2 + 1))
    (hposition : ∀ p o, c'.position p = some o →
      o = s.committed p ∨ c'.pc.inFlight = some (p, s.committed p) ∧ o = s.committed p + 1)
    (hm : Pending cfg.maxProcessingAttempts (outcome m) (c'.pc.standing m) (c'.tries m) (s'.attempts m)
      (s'.forwarded m))
    (hres : s'.results m = (List.range (s'.attempts m)).map (outcome m)) :
    Steady cfg outcome start s' c' := by
  have hne : ∀ m', m' = m ∨ m' ≠ m := fun m' => eq_or_ne m' m
  refine ⟨honly, halive.trans h.alive, ?_, ?_, ?_, ?_, ?_, ?_, ?_, ?_⟩
  · rw [hcom]
    exact hflight
  · rw [hcom]
    exact hposition
  · intro m' hm'
    rw [hcom]
    rcases hne m' with rfl | hn
    · exact hcur
    · exact h.current m' (by rwa [(hsame m' hn).retryCounts] at hm')
  · intro p
    rw [hcom]
    exact h.grown p
  · intro m' hge
    rw [hcom] at hge
    rcases hne m' with rfl | hn
    · exact hm
    · have hw := h.pending m' hge
      rw [Pc.standing_waiting (hbefore m' hn)] at hw
      rw [Pc.standing_waiting (hafter m' hn), (hsame m' hn).tries, (hsame m' hn).attempts,
        (hsame m' hn).forwarded]
      exact hw
  · intro m' hge hlt
    rw [hcom] at hlt
    have hn : m' ≠ m := by
      rintro rfl
      exact absurd hcur (Nat.ne_of_lt hlt)
    rw [(hsame m' hn).attempts, (hsame m' hn).forwarded]
    exact h.settled m' hge hlt
  · intro m' hlt
    have hn : m' ≠ m := by
      rintro rfl
      exact absurd (h.grown m'.1) (Nat.not_le.mpr (hcur ▸ hlt))
    rw [(hsame m' hn).attempts, (hsame m' hn).forwarded]
    exact h.before m' hlt
  · intro m'
    rcases hne m' with rfl | hn
    · exact hres
    · rw [(hsame m' hn).results, (hsame m' hn).attempts]
      exact h.results m'

/-- The commit past the message in flight. -/
theorem Steady.finish (h : Steady cfg outcome start s c) (hf : c.pc.inFlight = some m)
    (hv : c.pc.standing m = .returned ∨ c.pc.standing m = .forwarded)
    (hs' : s' = { s.perform (.commits m) with consumers := [c.finished m] }) :
    Steady cfg outcome start s' (c.finished m) := by
  obtain ⟨hcur, hpos⟩ := h.flight m hf
  have hcom : ∀ p, s'.committed p = if p = m.1 then m.2 + 1 else s.committed p := by
    intro p
    rw [hs']
    exact Function.update_apply ..
  have hfwd : ∀ m', s'.forwarded m' = s.forwarded m' := by
    intro m'
    simp only [hs', forwarded, perform, h.only]
    rfl
  have hatt : ∀ m', s'.attempts m' = s.attempts m' := fun m' => by rw [hs']; rfl
  have hres : ∀ m', s'.results m' = s.results m' := fun m' => by rw [hs']; rfl
  refine ⟨by rw [hs'], h.alive, ?_, ?_, ?_, ?_, ?_, ?_, ?_, ?_⟩
  · intro m' hm'
    cases hm'
  · intro p o ho
    left
    rw [hcom]
    split
    · rename_i hp
      subst hp
      exact Option.some.inj (ho.symm.trans hpos)
    · exact h.position_other hf ‹_› ho
  · intro m' hm'
    simp only [Consumer.finished, Function.update_apply] at hm'
    split at hm'
    · exact absurd rfl hm'
    · rename_i hn
      have hcur' := h.current m' hm'
      rw [hcom, if_neg]
      · exact hcur'
      · intro hp
        exact hn (Prod.ext hp (by rw [hcur', hp, hcur]))
  · intro p
    rw [hcom]
    split
    · rename_i hp
      have := h.grown p
      subst hp
      omega
    · exact h.grown p
  · intro m' hge
    rw [hcom] at hge
    have hn : m' ≠ m := by
      rintro rfl
      rw [if_pos rfl] at hge
      exact absurd hge (Nat.not_succ_le_self _)
    have hge' : s.committed m'.1 ≤ m'.2 := by
      split at hge
      · rename_i hp
        rw [hp, ← hcur]
        exact Nat.le_of_succ_le hge
      · exact hge
    have hw := h.pending m' hge'
    rw [Pc.standing_waiting (Pc.inFlight_only hf m' hn)] at hw
    have ht : (c.finished m).tries m' = c.tries m' := by
      simp only [Consumer.tries, Consumer.finished, Function.update_of_ne hn]
    rw [ht, hatt, hfwd]
    exact hw
  · intro m' hge hlt
    rw [hcom] at hlt
    rw [hatt, hfwd]
    by_cases hn : m' = m
    · subst hn
      exact (h.pending m' hcur.ge).settled hv
    · refine h.settled m' hge ?_
      split at hlt
      · rename_i hp
        have hne2 : m'.2 ≠ m.2 := fun he => hn (Prod.ext hp he)
        rw [hp, ← hcur]
        omega
      · exact hlt
  · intro m' hlt
    rw [hatt, hfwd]
    exact h.before m' hlt
  · intro m'
    rw [hres, hatt]
    exact h.results m'

/-- Something moves between the queue and the topics. -/
theorem Steady.frame (h : Steady cfg outcome start s c) (honly : s'.consumers = [c'])
    (halive : c'.alive = c.alive) (hpc : c'.pc = c.pc) (hpos : c'.position = c.position)
    (hcom : s'.committed = s.committed) (hsame : ∀ m, SameFor s s' c c' m) :
    Steady cfg outcome start s' c' := by
  refine ⟨honly, halive.trans h.alive, ?_, ?_, ?_, ?_, ?_, ?_, ?_, ?_⟩
  · rw [hcom, hpc, hpos]
    exact h.flight
  · rw [hcom, hpc, hpos]
    exact h.position
  · intro m hm
    rw [hcom]
    exact h.current m (by rwa [(hsame m).retryCounts] at hm)
  · rw [hcom]
    exact h.grown
  · intro m hge
    rw [hpc, (hsame m).tries, (hsame m).attempts, (hsame m).forwarded]
    exact h.pending m (hcom ▸ hge)
  · intro m hge hlt
    rw [(hsame m).attempts, (hsame m).forwarded]
    exact h.settled m hge (hcom ▸ hlt)
  · intro m hlt
    rw [(hsame m).attempts, (hsame m).forwarded]
    exact h.before m hlt
  · intro m
    rw [(hsame m).results, (hsame m).attempts]
    exact h.results m

/-- A quiet step of the consumer that leaves its counters and its queue alone. -/
theorem sameFor_quiet (honly : s.consumers = [c]) (hq : c'.queue = c.queue)
    (hr : c'.retryCounts = c.retryCounts) (m : MsgId) :
    SameFor s { s with consumers := [c'] } c c' m := by
  refine ⟨by rw [hr], rfl, ?_, rfl⟩
  simp [forwarded, honly, hq]

/-- A quiet step, with the message in flight before or after it. -/
theorem Steady.quiet (h : Steady cfg outcome start s c) (hq : c'.queue = c.queue)
    (hr : c'.retryCounts = c.retryCounts) (halive : c'.alive = c.alive)
    (hbefore : ∀ m', m' ≠ m → c.pc.inFlight ≠ some m')
    (hafter : ∀ m', m' ≠ m → c'.pc.inFlight ≠ some m') (hcur : m.2 = s.committed m.1)
    (hst : c'.pc.standing m = c.pc.standing m)
    (hflight : ∀ m, c'.pc.inFlight = some m → m.2 = s.committed m.1 ∧ c'.position m.1 = some (m.2 + 1))
    (hposition : ∀ p o, c'.position p = some o →
      o = s.committed p ∨ c'.pc.inFlight = some (p, s.committed p) ∧ o = s.committed p + 1) :
    Steady cfg outcome start { s.perform .quiet with consumers := [c'] } c' := by
  have hsame : ∀ m, SameFor s { s.perform .quiet with consumers := [c'] } c c' m :=
    sameFor_quiet h.only hq hr
  refine h.inside rfl halive rfl hbefore hafter (fun m' _ => hsame m') hcur hflight hposition ?_
    (h.results m)
  rw [hst, (hsame m).tries, (hsame m).attempts, (hsame m).forwarded]
  exact h.pending m hcur.ge

/-- A call on `m` says nothing of the other messages. -/
theorem sameFor_called {returns : Bool} (honly : s.consumers = [c]) (hq : c'.queue = c.queue)
    {m m' : MsgId} (hr : c'.retryCounts m' = c.retryCounts m') (hn : m' ≠ m) :
    SameFor s { s.perform (.called m returns) with consumers := [c'] } c c' m' := by
  refine ⟨hr, ?_, ?_, ?_⟩
  · simp [attempts, perform, Ne.symm hn]
  · simp [forwarded, perform, honly, hq]
  · simp [results, perform, Ne.symm hn]

/-- The call on the message in flight. -/
theorem Steady.called (h : Steady cfg outcome start s c) {returns : Bool} (hpc : c.pc = .handle m)
    (hout : returns = outcome m (s.attempts m)) (hq : c'.queue = c.queue) (halive : c'.alive = c.alive)
    (hpos : c'.position = c.position) (hr : ∀ m', m' ≠ m → c'.retryCounts m' = c.retryCounts m')
    (hf' : c'.pc.inFlight = some m)
    (hm : Pending cfg.maxProcessingAttempts (outcome m) .waiting (c.tries m) (s.attempts m)
        (s.forwarded m) →
      Pending cfg.maxProcessingAttempts (outcome m) (c'.pc.standing m) (c'.tries m) (s.attempts m + 1)
        (s.forwarded m)) :
    Steady cfg outcome start { s.perform (.called m returns) with consumers := [c'] } c' := by
  have hf : c.pc.inFlight = some m := congrArg Pc.inFlight hpc
  have hcur := (h.flight m hf).1
  obtain ⟨hflight, hposition⟩ := h.flight_kept c' hf hf' hpos
  have hatt : ({ s.perform (.called m returns) with consumers := [c'] } : Group M).attempts m =
      s.attempts m + 1 := by
    simp [attempts, perform]
  refine h.inside rfl halive rfl (Pc.inFlight_only hf) (Pc.inFlight_only hf')
    (fun m' hn => sameFor_called h.only hq (hr m' hn) hn) hcur hflight hposition ?_ ?_
  · rw [hatt]
    have hw := h.pending m hcur.ge
    rw [hpc] at hw
    have hfwd : ({ s.perform (.called m returns) with consumers := [c'] } : Group M).forwarded m =
        s.forwarded m := by
      simp [forwarded, perform, h.only, hq]
    rw [hfwd]
    exact hm hw
  · rw [hatt, List.range_succ, List.map_append, ← h.results m]
    simp [Group.results, perform, hout]

/-- What a step of the run commits. -/
inductive Progress (s : Group M) (l : Lbl M) (s' : Group M) : Prop
  | same : s.finishes l = none → s'.committed = s.committed → Progress s l s'
  | one (m : MsgId) : s.finishes l = some m → m.2 = s.committed m.1 →
      s'.committed = Function.update s.committed m.1 (m.2 + 1) → Progress s l s'

theorem finishes_commit (honly : s.consumers = [c]) (hc : c.pc.commits = some m) :
    s.finishes (.consumer 0 (.commit .accepted)) = some m := by
  simp [finishes, honly, hc]

/-- The message is put into the producer's queue. -/
theorem Steady.produced (h : Steady cfg outcome start s c) (hpc : c.pc = .produce m) :
    Steady cfg outcome start
      { s.perform .quiet with consumers := [{ c with queue := c.queue ++ [m], pc := .flush m }] }
      { c with queue := c.queue ++ [m], pc := .flush m } := by
  have hf : c.pc.inFlight = some m := congrArg Pc.inFlight hpc
  have hcur := (h.flight m hf).1
  obtain ⟨hflight, hposition⟩ :=
    h.flight_kept { c with queue := c.queue ++ [m], pc := .flush m } hf rfl rfl
  refine h.inside rfl rfl rfl (Pc.inFlight_only hf) (Pc.inFlight_only rfl) ?_ hcur hflight hposition ?_
    (h.results m)
  · intro m' hn
    refine ⟨rfl, rfl, ?_, rfl⟩
    simp [forwarded, perform, h.only, Ne.symm hn]
  · have hw := h.pending m hcur.ge
    have hst : c.pc.standing m = .exhausted := by simp [hpc, Pc.standing]
    rw [hst] at hw
    have hfwd : ({ s.perform .quiet with
        consumers := [{ c with queue := c.queue ++ [m], pc := .flush m }] } : Group M).forwarded m =
          s.forwarded m + 1 := by
      simp [forwarded, perform, h.only]
      omega
    have hst' : (Pc.flush m).standing m = .forwarded := by simp [Pc.standing]
    rw [hfwd, hst']
    exact hw.forward

/-- **Step lemma**, for a step of the consumer. -/
theorem steady_consumer (h : Steady cfg outcome start s c) {a : Act}
    (hg : steady outcome s (.consumer 0 a) = true) {e : Eff} (hm : c.Moves cfg s.log a c' e) :
    Steady cfg outcome start { s.perform e with consumers := [c'] } c' ∧
      Progress s (.consumer 0 a) { s.perform e with consumers := [c'] } := by
  cases hm with
  | polled p o hpc ho _ =>
    have hf : c.pc.inFlight = none := congrArg Pc.inFlight hpc
    have hcur : o = s.committed p := h.position_idle hf ho
    refine ⟨h.quiet rfl rfl rfl (fun m _ => Pc.inFlight_none hf m) (Pc.inFlight_only rfl) hcur
      (by rw [hpc]; rfl) ?_ ?_, .same rfl rfl⟩
    · intro m hm
      cases hm
      exact ⟨hcur, Function.update_self ..⟩
    · intro q o' ho'
      simp only [Function.update_apply] at ho'
      split at ho'
      · rename_i hq
        subst hq
        cases ho'
        exact .inr ⟨by rw [← hcur]; rfl, congrArg (· + 1) hcur⟩
      · exact .inl (h.position_idle hf ho')
  | stopped hpc =>
    have hf : c.pc.inFlight = none := congrArg Pc.inFlight hpc
    refine ⟨h.quiet (m := (0, s.committed 0)) rfl rfl rfl (fun m _ => Pc.inFlight_none hf m)
      (fun m _ => Pc.inFlight_none rfl m) rfl (by rw [hpc]; rfl)
      (fun m hm => absurd hm (Pc.inFlight_none rfl m)) ?_, .same rfl rfl⟩
    intro p o ho
    cases ho
  | returned m hpc =>
    simp only [steady, h.only, List.getElem?_cons_zero, hpc, decide_eq_true_eq] at hg
    refine ⟨h.called hpc hg rfl rfl rfl (fun _ _ => rfl) rfl ?_, .same rfl rfl⟩
    intro hw
    have hst : (Pc.commit m).standing m = .returned := by simp [Pc.standing]
    rw [hst]
    exact hw.succeed hg.symm
  | raised m hpc =>
    simp only [steady, h.only, List.getElem?_cons_zero, hpc, decide_eq_true_eq] at hg
    refine ⟨h.called hpc hg rfl rfl rfl ?_ ?_ ?_, .same rfl rfl⟩
    · intro m' hn
      exact Function.update_of_ne hn ..
    · simp only [Consumer.failed]
      split <;> rfl
    · intro hw
      rw [Consumer.tries_failed, Consumer.standing_failed]
      exact hw.fail hg.symm
  | committed m hpc =>
    have hc : c.pc.commits = some m := congrArg Pc.commits hpc
    have hf : c.pc.inFlight = some m := congrArg Pc.inFlight hpc
    exact ⟨h.finish hf (.inl (by simp [hpc, Pc.standing])) rfl,
      .one m (finishes_commit h.only hc) (h.flight m hf).1 rfl⟩
  | uncommitted m o _ ho =>
    simp only [steady, decide_eq_true_eq] at hg
    exact absurd hg ho
  | produced m hpc => exact ⟨h.produced hpc, .same rfl rfl⟩
  | unproduced m _ => exact absurd hg Bool.false_ne_true
  | flushed m hpc =>
    have hf : c.pc.inFlight = some m := congrArg Pc.inFlight hpc
    obtain ⟨hflight, hposition⟩ := h.flight_kept { c with pc := .commitPast m } hf rfl rfl
    exact ⟨h.quiet rfl rfl rfl (Pc.inFlight_only hf) (Pc.inFlight_only rfl) (h.flight m hf).1
      (by rw [hpc]; rfl) hflight hposition, .same rfl rfl⟩
  | passed m hpc =>
    have hc : c.pc.commits = some m := congrArg Pc.commits hpc
    have hf : c.pc.inFlight = some m := congrArg Pc.inFlight hpc
    exact ⟨h.finish hf (.inr (by simp [hpc, Pc.standing])) rfl,
      .one m (finishes_commit h.only hc) (h.flight m hf).1 rfl⟩
  | unpassed m o _ ho =>
    simp only [steady, decide_eq_true_eq] at hg
    exact absurd hg ho
  | sought m o hpc ho =>
    have hf : c.pc.inFlight = some m := congrArg Pc.inFlight hpc
    have hcur := (h.flight m hf).1
    refine ⟨h.quiet rfl rfl rfl (Pc.inFlight_only hf) (fun m' _ => Pc.inFlight_none rfl m') hcur
      (by rw [hpc]; rfl) (fun m' hm' => absurd hm' (Pc.inFlight_none rfl m')) ?_, .same rfl rfl⟩
    intro p o' ho'
    simp only [Function.update_apply] at ho'
    split at ho'
    · rename_i hp
      subst hp
      exact .inl (Option.some.inj ho'.symm ▸ hcur)
    · exact .inl (h.position_other hf ‹_› ho')
  | unsought m _ => exact absurd hg Bool.false_ne_true

theorem steady_step {l : Lbl M} (h : Steady cfg outcome start s c) (hg : steady outcome s l = true)
    (hs : step cfg s l = some s') : (∃ c', Steady cfg outcome start s' c') ∧ Progress s l s' := by
  have hzero : ∀ {i : Nat} {d : Consumer}, s.consumers[i]? = some d → i = 0 ∧ d = c := by
    intro i d hd
    rw [h.only] at hd
    have hi := Procs.lt_of hd
    simp only [List.length_singleton, Nat.lt_one_iff] at hi
    subst hi
    exact ⟨rfl, (Option.some.inj hd).symm⟩
  cases l with
  | append p msg =>
    cases hs
    refine ⟨⟨c, ?_⟩, .same rfl rfl⟩
    exact h.frame h.only rfl rfl rfl rfl fun m => ⟨rfl, rfl, rfl, rfl⟩
  | consumer i a =>
    obtain ⟨d, c', e, hd, -, hst, rfl⟩ := step_consumer hs
    obtain ⟨rfl, rfl⟩ := hzero hd
    obtain ⟨hI, hp⟩ := steady_consumer h hg (Consumer.step_moves hst)
    rw [h.only]
    exact ⟨⟨c', hI⟩, hp⟩
  | deliver i m =>
    simp only [step, Option.map_eq_some_iff] at hs
    obtain ⟨s₁, h1, rfl⟩ := hs
    obtain ⟨d, c', hd, hf, rfl⟩ := update_cases h1
    obtain ⟨rfl, rfl⟩ := hzero hd
    split at hf
    · rename_i hq
      cases hf
      refine ⟨⟨{ d with queue := d.queue.erase m }, ?_⟩, .same rfl rfl⟩
      refine h.frame (by rw [h.only]; rfl) rfl rfl rfl rfl ?_
      intro m'
      refine ⟨rfl, rfl, ?_, rfl⟩
      have hpos : 0 < d.queue.count m := List.count_pos_iff.mpr hq
      simp only [forwarded, h.only, List.set_cons_zero, List.flatMap_cons, List.flatMap_nil,
        List.append_nil, List.count_append, List.count_singleton, List.count_erase, beq_iff_eq]
      split
      · rename_i he
        subst he
        omega
      · omega
    · cases hf
  | join => exact absurd hg Bool.false_ne_true
  | assign i p => exact absurd hg Bool.false_ne_true
  | revoke i p => exact absurd hg Bool.false_ne_true
  | reject i m => exact absurd hg Bool.false_ne_true
  | crash i => exact absurd hg Bool.false_ne_true

/-- **Run lemma.** The offsets a run finishes in a partition are consecutive. -/
theorem steady_run {s₀ : Group M} {ls : List (Lbl M)}
    (hr : (steadyLts cfg outcome log start assigned).Run s₀ ls s) {c₀ : Consumer}
    (h : Steady cfg outcome start s₀ c₀) : (∃ c, Steady cfg outcome start s c) ∧
      ∀ p, s₀.committed p ≤ s.committed p ∧ (finishedBy cfg s₀ ls).filter (fun m => m.1 = p) =
        (List.range' (s₀.committed p) (s.committed p - s₀.committed p)).map fun o => (p, o) := by
  induction hr generalizing c₀ with
  | nil s => exact ⟨⟨c₀, h⟩, fun p => by simp [finishedBy]⟩
  | @cons s₁ s₂ s₃ l ls hst _ ih =>
    obtain ⟨hst, hg⟩ := hst
    obtain ⟨⟨c₂, h₂⟩, hp⟩ := steady_step h hg hst
    obtain ⟨hI, hrest⟩ := ih h₂
    refine ⟨hI, fun p => ?_⟩
    obtain ⟨hle, hlist⟩ := hrest p
    have hby : finishedBy cfg s₁ (l :: ls) = (s₁.finishes l).toList ++ finishedBy cfg s₂ ls := by
      simp only [finishedBy]
      rw [show step cfg s₁ l = some s₂ from hst]
      rfl
    rw [hby, List.filter_append, hlist]
    cases hp with
    | same hf hc =>
      rw [hf, ← hc]
      exact ⟨hle, rfl⟩
    | one m hf hcur hc =>
      rw [hf]
      rw [hc, Function.update_apply] at hle ⊢
      by_cases hpm : p = m.1
      · subst hpm
        rw [if_pos rfl] at hle ⊢
        obtain ⟨k, hk⟩ : ∃ k, s₃.committed m.1 = m.2 + 1 + k := ⟨_, (Nat.add_sub_of_le hle).symm⟩
        rw [← hcur, hk]
        refine ⟨by omega, ?_⟩
        have h1 : m.2 + 1 + k - m.2 = k + 1 := by omega
        rw [h1, List.range'_succ, Nat.add_sub_cancel_left]
        simp
      · rw [if_neg hpm] at hle ⊢
        refine ⟨hle, ?_⟩
        simp [Ne.symm hpm]

/-! ## Retries are bounded -/

/-- The calls in a partition, message by message. -/
theorem countP_partition (calls : List (MsgId × Bool)) {p lo hi : Nat}
    (h : ∀ x ∈ calls, x.1.1 = p → lo ≤ x.1.2 ∧ x.1.2 ≤ hi) :
    calls.countP (fun x => x.1.1 = p) =
      ∑ o ∈ Finset.Icc lo hi, calls.countP fun x => x.1 = (p, o) := by
  induction calls with
  | nil => simp
  | cons x calls ih =>
    have hrest := ih fun y hy => h y (List.mem_cons_of_mem x hy)
    simp only [List.countP_cons, Finset.sum_add_distrib, ← hrest, decide_eq_true_eq]
    congr 1
    by_cases hp : x.1.1 = p
    · have hmem : x.1.2 ∈ Finset.Icc lo hi := Finset.mem_Icc.mpr (h x List.mem_cons_self hp)
      have hone : ∀ o, x.1 = (p, o) ↔ x.1.2 = o := fun o => by
        rw [Prod.ext_iff]
        exact and_iff_right hp
      simp only [hone, hp, if_true]
      rw [Finset.sum_ite_eq, if_pos hmem]
    · have hnone : ∀ o, x.1 ≠ (p, o) := fun o he => hp (congrArg Prod.fst he)
      simp [hp, hnone]

theorem Steady.attempts_zero (h : Steady cfg outcome start s c) (hlt : s.committed m.1 < m.2) :
    s.attempts m = 0 := by
  have hnone : c.pc.inFlight ≠ some m := fun hf => absurd (h.flight m hf).1 (Nat.ne_of_gt hlt)
  have ht : c.tries m = 0 := by
    have : c.retryCounts m = none := by
      by_contra hne
      exact absurd (h.current m hne) (Nat.ne_of_gt hlt)
    simp [Consumer.tries, this]
  have := (h.pending m hlt.le).attempts
  rw [Pc.standing_waiting hnone, ht] at this
  exact this

theorem Steady.attempts_le (h : Steady cfg outcome start s c) (m : MsgId) :
    s.attempts m ≤ cfg.maxProcessingAttempts := by
  have hle : (s.attempts m : ℕ∞) ≤ cfg.maxProcessingAttempts := by
    rcases Nat.lt_or_ge m.2 (start m.1) with hlt | hge
    · rw [(h.before m hlt).1]
      exact bot_le
    · rcases Nat.lt_or_ge m.2 (s.committed m.1) with hlt | hge'
      · rw [(h.settled m hge hlt).attempts]
        exact min_le_right _ _
      · exact (h.pending m hge').onWay.1.trans (min_le_right _ _)
  exact Nat.cast_le.mp hle

/-- No message is retried for ever: so many calls in a partition, so many
messages finished. -/
theorem Steady.callsOn_le (h : Steady cfg outcome start s c) (p : Nat) :
    s.callsOn p ≤ cfg.maxProcessingAttempts * (s.committed p - start p + 1) := by
  have hmem : ∀ x ∈ s.calls, x.1.1 = p → start p ≤ x.1.2 ∧ x.1.2 ≤ s.committed p := by
    intro x hx hp
    have hpos : 0 < s.attempts x.1 := List.countP_pos_iff.mpr ⟨x, hx, decide_eq_true rfl⟩
    subst hp
    constructor
    · by_contra hlt
      exact absurd (h.before x.1 (Nat.lt_of_not_le hlt)).1 (Nat.pos_iff_ne_zero.mp hpos)
    · by_contra hlt
      exact absurd (h.attempts_zero (Nat.lt_of_not_le hlt)) (Nat.pos_iff_ne_zero.mp hpos)
  have hle : ∀ o ∈ Finset.Icc (start p) (s.committed p), s.attempts (p, o) ≤ cfg.maxProcessingAttempts :=
    fun o _ => h.attempts_le (p, o)
  have hcard : (Finset.Icc (start p) (s.committed p)).card = s.committed p - start p + 1 := by
    have := h.grown p
    rw [Nat.card_Icc]
    omega
  calc s.callsOn p = ∑ o ∈ Finset.Icc (start p) (s.committed p), s.attempts (p, o) :=
        countP_partition s.calls hmem
    _ ≤ (Finset.Icc (start p) (s.committed p)).card • cfg.maxProcessingAttempts :=
        Finset.sum_le_card_nsmul _ _ _ hle
    _ = cfg.maxProcessingAttempts * (s.committed p - start p + 1) := by
        rw [hcard, nsmul_eq_mul, Nat.cast_id, Nat.mul_comm]

/-! ## The accounts -/

/-- **Exact retry accounting.** On a message that is finished, `handle_event`
was called until it first returned, but `N` times at most, and the message was
forwarded once if all `N` calls raised and not otherwise; a message that is not
finished is on the way there, or not begun. In a partition the finished offsets
follow one another, and `retry_counts` knows at most the next, by less than `N`
except in the iteration that forwards it. -/
theorem retry_accounting (cfg : Settings) (hN : 1 ≤ cfg.maxProcessingAttempts)
    (outcome : MsgId → Nat → Bool) (log : Nat → List M) (start : Nat → Nat) (assigned : Nat → Bool)
    {ls : List (Lbl M)} {s : Group M}
    (hr : (steadyLts cfg outcome log start assigned).Run (resumed log start assigned) ls s) :
    let finished := finishedBy cfg (resumed log start assigned) ls
    (∀ m, s.results m = (List.range (s.attempts m)).map (outcome m)) ∧
    (∀ m ∈ finished, (s.attempts m : ℕ∞) = Gestalt.attempts (outcome m) cfg.maxProcessingAttempts ∧
      s.forwarded m = if Fails (outcome m) cfg.maxProcessingAttempts then 1 else 0) ∧
    (∀ p, (finished.filter fun m => m.1 = p) =
      (List.range' (start p) (finished.countP fun m => m.1 = p)).map fun o => (p, o)) ∧
    (∀ p, s.callsOn p ≤ cfg.maxProcessingAttempts * ((finished.countP fun m => m.1 = p) + 1)) ∧
    ∃ c, s.consumers = [c] ∧
      (∀ m ∉ finished, (s.attempts m : ℕ∞) ≤ Gestalt.attempts (outcome m) cfg.maxProcessingAttempts ∧
        (s.forwarded m = 0 ∨ s.forwarded m = 1 ∧ Fails (outcome m) cfg.maxProcessingAttempts) ∧
        (c.pc.inFlight ≠ some m →
          (s.attempts m : ℕ∞) < Gestalt.attempts (outcome m) cfg.maxProcessingAttempts ∧
          s.forwarded m = 0)) ∧
      (∀ m ∈ finished, c.retryCounts m = none) ∧
      (∀ p o o', c.retryCounts (p, o) ≠ none → c.retryCounts (p, o') ≠ none → o = o') ∧
      ∀ m n, c.retryCounts m = some n → (c.pc.inFlight ≠ some m → n < cfg.maxProcessingAttempts) ∧
        (n < cfg.maxProcessingAttempts ∨
          n = cfg.maxProcessingAttempts ∧ (c.pc.standing m).spent = true) := by
  intro finished
  have hstart : ∃ c, Steady cfg outcome start (resumed log start assigned) c := steady_resumed hN
  obtain ⟨c₀, h₀⟩ := hstart
  obtain ⟨⟨c, h⟩, hfin⟩ := steady_run hr h₀
  have hcount : ∀ p, (finished.countP fun m => m.1 = p) = s.committed p - start p := by
    intro p
    rw [List.countP_eq_length_filter, (hfin p).2]
    simp [resumed]
  have hmem : ∀ m, m ∈ finished ↔ start m.1 ≤ m.2 ∧ m.2 < s.committed m.1 := by
    intro m
    have hg := h.grown m.1
    have hiff : m ∈ finished ↔ m ∈ finished.filter fun m' => m'.1 = m.1 := by simp
    rw [hiff, (hfin m.1).2]
    simp only [List.mem_map, List.mem_range'_1, resumed]
    constructor
    · rintro ⟨o, ho, he⟩
      rw [← he] at hg ho ⊢
      simp only at hg ho ⊢
      omega
    · intro hm
      exact ⟨m.2, by omega, rfl⟩
  refine ⟨h.results, ?_, ?_, ?_, c, h.only, ?_, ?_, ?_, ?_⟩
  · intro m hm
    obtain ⟨hge, hlt⟩ := (hmem m).mp hm
    have hs := h.settled m hge hlt
    exact ⟨hs.attempts, hs.forwarded⟩
  · intro p
    rw [hcount p]
    exact (hfin p).2
  · intro p
    rw [hcount p]
    exact h.callsOn_le p
  · intro m hm
    rw [hmem] at hm
    rcases Nat.lt_or_ge m.2 (start m.1) with hlt | hge
    · obtain ⟨ha, hw⟩ := h.before m hlt
      have hpos := (Fails.zero (f := outcome m)).lt_attempts hN
      rw [ha, hw]
      exact ⟨hpos.le, .inl rfl, fun _ => ⟨hpos, rfl⟩⟩
    · have hpend := h.pending m (Nat.not_lt.mp fun hlt => hm ⟨hge, hlt⟩)
      obtain ⟨hle, hfwd, hwait⟩ := hpend.onWay
      exact ⟨hle, hfwd, fun hf => hwait (Pc.standing_waiting hf)⟩
  · intro m hm
    by_contra hne
    exact absurd (h.current m hne) (Nat.ne_of_lt ((hmem m).mp hm).2)
  · intro p o o' ho ho'
    have h1 := h.current (p, o) ho
    have h2 := h.current (p, o') ho'
    exact h1.trans h2.symm
  · intro m n hn
    have hcur := h.current m (by rw [hn]; simp)
    have hpend := h.pending m hcur.ge
    have ht : c.tries m = n := by simp [Consumer.tries, hn]
    rw [ht] at hpend
    rcases Nat.lt_or_eq_of_le hpend.limit with hlt | heq
    · exact ⟨fun _ => hlt, .inl hlt⟩
    · have hspent := hpend.spent.mp heq
      refine ⟨fun hf => ?_, .inr ⟨heq, hspent⟩⟩
      rw [Pc.standing_waiting hf] at hspent
      cases hspent

/-- `(0, 0)` raises for ever, `(1, 0)` once. -/
def poison (m : MsgId) (n : Nat) : Bool := m = (1, 0) && 0 < n

/-- The polls of the two partitions interleave. -/
def interleaved : List (Lbl String) :=
  let next := Lbl.consumer 0
  let again p := [next (.poll p), next (.handle false), next (.seek true)]
  again 1 ++ again 0 ++ again 0 ++ [next (.poll 1), next (.handle true), next (.commit .accepted),
    next (.poll 0), next (.handle false), next (.produce true), next .flush, .deliver 0 (0, 0),
    next (.commit .accepted)]

theorem retry_accounting_interleaved :
    let begun := resumed twoPartitions (fun _ => 0) (· < 2)
    finishedBy {} begun interleaved = [(1, 0), (0, 0)] ∧
    ∃ s, (steadyLts {} poison twoPartitions (fun _ => 0) (· < 2)).Run begun interleaved s ∧
      (s.attempts (0, 0) = 3 ∧ s.attempts (1, 0) = 2 ∧ s.forwarded (0, 0) = 1 ∧ s.forwarded (1, 0) = 0) ∧
      ∀ m ∈ [(1, 0), (0, 0)], (s.attempts m : ℕ∞) = Gestalt.attempts (poison m) 3 := by
  intro begun
  have hfin : finishedBy {} begun interleaved = [(1, 0), (0, 0)] := by decide +kernel
  obtain ⟨s, hr, hs⟩ : ∃ s, (steadyLts {} poison twoPartitions (fun _ => 0) (· < 2)).Run begun
      interleaved s ∧ decide (s.attempts (0, 0) = 3 ∧ s.attempts (1, 0) = 2 ∧ s.forwarded (0, 0) = 1 ∧
        s.forwarded (1, 0) = 0) = true :=
    LTS.exists_run_of_execG interleaved (by decide +kernel)
  have h := retry_accounting {} (by decide) poison twoPartitions (fun _ => 0) (· < 2) hr
  refine ⟨hfin, s, hr, of_decide_eq_true hs, ?_⟩
  intro m hm
  exact (h.2.1 m (hfin.symm ▸ hm)).1

/-! ## Through crashes and rebalances -/

/-- The message at which an attempt fails in this step. -/
def fails (s : Group M) : Lbl M → Option MsgId
  | .consumer i (.handle false) => (s.consumers[i]?).bind fun c => c.pc.inFlight
  | .consumer i (.commit o) =>
    if o = .accepted then none
    else (s.consumers[i]?).bind fun c => match c.pc with
      | .commit m => some m
      | _ => none
  | _ => none

/-- The failed attempts after a step, `f` being those before it. -/
def failures (s : Group M) (l : Lbl M) (f : MsgId → Nat) : MsgId → Nat :=
  match s.fails l with
  | some m => Function.update f m (f m + 1)
  | none => f

theorem failures_of {s : Group M} {l : Lbl M} {m : MsgId} (h : s.fails l = some m) (f : MsgId → Nat) :
    s.failures l f m = f m + 1 := by
  simp [failures, h]

theorem le_failures (s : Group M) (l : Lbl M) (f : MsgId → Nat) (m : MsgId) : f m ≤ s.failures l f m := by
  cases hf : s.fails l with
  | none => simp [failures, hf]
  | some k =>
    by_cases hk : m = k
    · subst hk
      rw [failures_of hf]
      exact Nat.le_succ _
    · simp [failures, hf, Function.update_of_ne hk]

end Group

/-- The counters count failures, and what is given up has failed `N` times. -/
structure Consumer.Tried (N : Nat) (f : MsgId → Nat) (c : Consumer) : Prop where
  tries : ∀ m, c.tries m ≤ f m
  spent : ∀ m, (c.pc.standing m).spent = true → N ≤ f m
  queue : ∀ m ∈ c.queue, N ≤ f m

namespace Consumer

variable {M : Type} {N : Nat} {f f' : MsgId → Nat} {c c' : Consumer} {m : MsgId}

theorem Tried.mono (h : c.Tried N f) (hf : ∀ m, f m ≤ f' m) : c.Tried N f' where
  tries m := (h.tries m).trans (hf m)
  spent m hm := (h.spent m hm).trans (hf m)
  queue m hm := (h.queue m hm).trans (hf m)

/-- No counter has grown, and what is given up was given up before. -/
theorem Tried.next (h : c.Tried N f) (c' : Consumer) (ht : ∀ m, c'.tries m ≤ c.tries m)
    (hq : c'.queue = c.queue)
    (hs : ∀ m, (c'.pc.standing m).spent = true → (c.pc.standing m).spent = true) : c'.Tried N f where
  tries m := (ht m).trans (h.tries m)
  spent m hm := h.spent m (hs m hm)
  queue := by rw [hq]; exact h.queue

/-- Nothing is given up. -/
theorem Tried.idle (h : c.Tried N f) (c' : Consumer) (ht : ∀ m, c'.tries m ≤ c.tries m)
    (hq : c'.queue = c.queue) (hs : ∀ m, (c'.pc.standing m).spent = false) : c'.Tried N f := by
  refine h.next c' ht hq ?_
  intro m hm
  rw [hs m] at hm
  cases hm

/-- A loop that waits counts nothing, and gives nothing up. -/
theorem Tried.waits (h : c.Tried N f) (hw : c.Waits c') : c'.Tried N f where
  tries m := by
    have hsame : c'.tries m = c.tries m := by rw [Consumer.tries, Consumer.tries, hw.retryCounts]
    exact hsame ▸ h.tries m
  spent m hm := h.spent m (hw.pc ▸ hm)
  queue m hm := h.queue m (hw.queue hm)

theorem Tried.close (h : c.Tried N f) : c.close.Tried N f :=
  h.idle c.close (fun _ => Nat.le_refl _) rfl fun _ => rfl

theorem Tried.failed {cfg : Settings} (h : c.Tried cfg.maxProcessingAttempts f) (hle : ∀ m, f m ≤ f' m)
    (hm : f' m = f m + 1) : (c.failed cfg m).Tried cfg.maxProcessingAttempts f' where
  tries k := by
    by_cases hk : k = m
    · subst hk
      rw [tries_failed, hm]
      exact Nat.succ_le_succ (h.tries k)
    · have : (c.failed cfg m).tries k = c.tries k := by
        simp only [Consumer.tries, Consumer.failed, Function.update_of_ne hk]
      rw [this]
      exact (h.tries k).trans (hle k)
  spent k hk := by
    have hkm : k = m := by
      by_contra hne
      have hnone : (c.failed cfg m).pc.inFlight ≠ some k := by
        simp only [Consumer.failed]
        split <;> simp [Pc.inFlight, Ne.symm hne]
      rw [Pc.standing_waiting hnone] at hk
      cases hk
    subst hkm
    rw [standing_failed] at hk
    split at hk
    · rename_i hN
      rw [hm]
      exact hN.trans (Nat.succ_le_succ (h.tries k))
    · cases hk
  queue k hk := (h.queue k hk).trans (hle k)

theorem Tried.finished (h : c.Tried N f) (m : MsgId) : (c.finished m).Tried N f := by
  refine h.idle (c.finished m) ?_ rfl fun _ => rfl
  intro k
  simp only [Consumer.tries, Consumer.finished, Function.update_apply]
  split
  · exact Nat.zero_le _
  · exact Nat.le_refl _

end Consumer

namespace Group

variable {M : Type} {cfg : Settings} {s s' : Group M} {f : MsgId → Nat}

structure Tried (cfg : Settings) (s : Group M) (f : MsgId → Nat) : Prop where
  consumers : ∀ (i : Nat) (c : Consumer), s.consumers[i]? = some c → c.Tried cfg.maxProcessingAttempts f
  dlq : ∀ m ∈ s.dlq, cfg.maxProcessingAttempts ≤ f m

theorem tried_start (log : Nat → List M) (f : MsgId → Nat) : Tried cfg (start log) f := by
  constructor
  · intro i c hc
    cases hc
  · intro m hm
    cases hm

/-- One case for each thing the loop does. -/
theorem tried_move {i : Nat} {a : Act} {c c' : Consumer} {e : Eff} (hc : s.consumers[i]? = some c)
    (h : c.Tried cfg.maxProcessingAttempts f) (hm : c.Moves cfg s.log a c' e) :
    c'.Tried cfg.maxProcessingAttempts (s.failures (.consumer i a) f) := by
  have hle := le_failures s (.consumer i a) f
  have hmono := h.mono hle
  cases hm with
  | polled p o hpc _ _ => exact hmono.idle _ (fun _ => Nat.le_refl _) rfl fun _ => rfl
  | stopped hpc => exact hmono.close
  | returned m hpc =>
    refine hmono.idle _ (fun _ => Nat.le_refl _) rfl ?_
    intro k
    simp only [Pc.standing]
    split <;> rfl
  | raised m hpc => exact h.failed hle (failures_of (by simp [fails, hc, hpc, Pc.inFlight]) f)
  | committed m hpc => exact hmono.finished m
  | uncommitted m o hpc ho => exact h.failed hle (failures_of (by simp [fails, hc, hpc, ho]) f)
  | produced m hpc =>
    -- out of attempts already
    have hspent := hmono.spent m (by simp [hpc, Pc.standing, Standing.spent])
    constructor
    · exact hmono.tries
    · intro k hk
      simp only [Pc.standing] at hk
      split at hk
      · rename_i he
        exact he ▸ hspent
      · cases hk
    · intro k hk
      rcases List.mem_append.mp hk with hold | hnew
      · exact hmono.queue k hold
      · rw [List.mem_singleton.mp hnew]
        exact hspent
  | unproduced m hpc => exact hmono.close
  | flushed m hpc =>
    refine hmono.next _ (fun _ => Nat.le_refl _) rfl ?_
    intro k hk
    rw [hpc]
    exact hk
  | passed m hpc => exact hmono.finished m
  | unpassed m o hpc ho => exact hmono.close
  | sought m o hpc _ => exact hmono.idle _ (fun _ => Nat.le_refl _) rfl fun _ => rfl
  | unsought m hpc => exact hmono.close

/-- **Step lemma.** -/
theorem tried_step {l : Lbl M} (h : Tried cfg s f) (hs : step cfg s l = some s') :
    Tried cfg s' (s.failures l f) where
  consumers i c' hc' := by
    have hle := le_failures s l f
    rcases step_consumers hs hc' with rfl | ⟨c, hc, hw | ⟨a, e, rfl, hm⟩⟩
    · exact ⟨fun _ => Nat.zero_le _, by simp [Pc.standing, Standing.spent], by simp⟩
    · exact ((h.consumers i c hc).mono hle).waits hw
    · exact tried_move hc (h.consumers i c hc) hm
  dlq m hm := by
    refine Nat.le_trans ?_ (le_failures s l f m)
    rcases step_dlq hs with he | ⟨i, c, k, hc, hk, he⟩
    · exact h.dlq m (he ▸ hm)
    · rcases List.mem_append.mp (he ▸ hm) with hold | hnew
      · exact h.dlq m hold
      · rw [List.mem_singleton.mp hnew]
        exact (h.consumers i c hc).queue k hk

end Group
end Gestalt.Kafka
