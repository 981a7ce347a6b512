import Gestalt.L5Consumers.Consumer

/-!
# A dead letter that never arrives

Status: open.

Behaviour: `_send_to_dlq` enqueues the message and calls `producer.flush(5)`, whose
result it does not look at; `produce` has no delivery callback
(services/notification-service/app/consumer.py:70-76, services/review-service/app/consumer.py:73-79).
`run_consumer` commits the offset next. A broker that refuses the message, or takes
longer than five seconds, raises nothing.

Documented: services/notification-service/app/consumer.py:3-9, a message that keeps
failing is "forwarded to order-events-dlq and committed past";
services/review-service/app/consumer.py:3-8, a failure "must not silently drop the event".

Counterexample: `timedOut`. A malformed message, three attempts, a forward that is
still in the queue after five seconds, a commit, and the process stops.

Fix: in `_send_to_dlq`, raise if `flush` returns anything but 0 or the delivery
callback reports an error.
-/
namespace Gestalt.Kafka.Group

variable {M : Type}

/-- The message whose offset is committed after a forward. -/
def passes (s : Group M) : Lbl M → Option MsgId
  | .consumer i (.commit o) =>
    match s.consumers[i]? with
    | some c =>
      match c.pc with
      | .commitPast m => if o = .refused then none else some m
      | _ => none
    | none => none
  | _ => none

/-- A message that fails is committed past once the dead-letter topic has it: when a consumer commits
after a forward, and below every committed offset when no call on the message has returned. -/
def DeadLettered (T : LTS (Group M) (Lbl M)) : Prop :=
  ∀ s, T.Reachable s →
    (∀ l s' m, T.step s l s' → s.passes l = some m → m ∈ s.dlq) ∧
      ∀ p o, o < s.committed p → ((p, o), true) ∉ s.calls → (p, o) ∈ s.dlq

/-! ## The run that goes wrong -/

/-- The broker does not answer in five seconds. -/
def timedOut : List (Lbl String) :=
  let next := Lbl.consumer 0
  let again := [next (.poll 0), next (.handle false), next (.seek true)]
  [.join, .assign 0 0] ++ again ++ again ++
    [next (.poll 0), next (.handle false), next (.produce true), next .flush, next (.commit .accepted),
      .crash 0]

def malformed : Nat → List String := fun p => if p = 0 then ["\x7b"] else []

/-- **Counterexample.** -/
theorem dead_letter_lost : ¬ DeadLettered (lts {} malformed) := by
  intro h
  obtain ⟨s, hr, hs⟩ : ∃ s, (lts {} malformed).Reachable s ∧
      decide (0 < s.committed 0 ∧ ((0, 0), true) ∉ s.calls ∧ (0, 0) ∉ s.dlq) = true :=
    LTS.reachable_of_exec timedOut rfl (by decide +kernel)
  obtain ⟨hcom, hcalls, hdlq⟩ := of_decide_eq_true hs
  exact hdlq ((h s hr).2 0 0 hcom hcalls)

/-! ## When every forward is delivered in time -/

/-- Whoever is to commit past a message has seen it delivered. -/
def Written (s : Group M) : Prop :=
  ∀ (i : Nat) (c : Consumer) (m : MsgId), s.consumers[i]? = some c → c.pc = .commitPast m → m ∈ s.dlq

variable {cfg : Settings} {log : Nat → List M} {s s' : Group M}

/-- Only `flush` leads to the commit after a forward. -/
theorem moves_commitPast {c c' : Consumer} {a : Act} {e : Eff} {m : MsgId} (h : c.Moves cfg s.log a c' e)
    (hpc : c'.pc = .commitPast m) : a = .flush ∧ c.pc = .flush m := by
  cases h with
  | flushed m' hf =>
    cases hpc
    exact ⟨rfl, hf⟩
  | raised m' _ => simp only [Consumer.failed] at hpc; split at hpc <;> cases hpc
  | uncommitted m' o _ _ => simp only [Consumer.failed] at hpc; split at hpc <;> cases hpc
  | _ => cases hpc

/-- **Step lemma.** -/
theorem written_step {l : Lbl M} (h : s.Written) (hs : step cfg s l = some s') (hG : flushed s l = true) :
    s'.Written := by
  have hgrown : s.dlq ⊆ s'.dlq := by
    rcases step_dlq hs with he | ⟨_, _, m, -, -, he⟩
    · exact he ▸ List.Subset.refl _
    · exact he ▸ List.subset_append_left _ _
  intro i c' m hc' hm
  refine hgrown ?_
  rcases step_consumers hs hc' with rfl | ⟨c, hc, hw | ⟨a, e, rfl, hmv⟩⟩
  · cases hm
  · exact h i c m hc (hw.pc ▸ hm)
  · obtain ⟨rfl, hpc⟩ := moves_commitPast hmv hm
    simpa only [flushed, hc, hpc, decide_eq_true_eq] using hG

theorem written_reachable (h : (flushedLts cfg log).Reachable s) : s.Written := by
  refine LTS.reachable_induct ?_ ?_ h
  · rintro s rfl i c m hc
    cases hc
  · intro s l s' _ hW hs
    exact written_step hW hs.1 hs.2

theorem passes_eq {l : Lbl M} {m : MsgId} (h : s.passes l = some m) :
    ∃ (i : Nat) (c : Consumer), s.consumers[i]? = some c ∧ c.pc = .commitPast m := by
  unfold passes at h
  split at h
  · rename_i i o
    split at h
    · rename_i c hc
      split at h
      · rename_i m' hpc
        split at h
        · cases h
        · exact ⟨i, c, hc, Option.some.inj h ▸ hpc⟩
      · cases h
    · cases h
  · cases h

/-- A forward that `flush` has not seen delivered is committed past by the next commit. -/
theorem unflushed_passes {i : Nat} (hs : step cfg s (.consumer i .flush) = some s')
    (hf : flushed s (.consumer i .flush) = false) :
    ∃ m, m ∉ s'.dlq ∧ (step cfg s' (.consumer i (.commit .accepted))).isSome ∧
      s'.passes (.consumer i (.commit .accepted)) = some m := by
  obtain ⟨c, c', e, hc, hal, hst, hs'⟩ := step_consumer hs
  cases Consumer.step_moves hst with
  | flushed m hpc =>
    have hself : s'.consumers[i]? = some { c with pc := .commitPast m } := by
      rw [hs']
      exact Procs.set_self hc
    refine ⟨m, ?_, ?_, ?_⟩
    · rw [hs']
      simpa only [perform, flushed, hc, hpc, decide_eq_false_iff_not] using hf
    · simp [step, hself, hal, Consumer.step]
    · simp [passes, hself]

/-- **Dead letters arrive** in every run in which `flush` returns only once the message it follows has been
delivered; and each `flush` that does not can be followed by a commit past a message that is in no topic. -/
theorem dead_lettered_of_flushed (cfg : Settings) (log : Nat → List M) :
    DeadLettered (flushedLts cfg log) ∧
      ∀ s i s', (lts cfg log).Reachable s → (lts cfg log).step s (.consumer i .flush) s' →
        flushed s (.consumer i .flush) = false →
          ∃ l m s'', (lts cfg log).step s' l s'' ∧ s'.passes l = some m ∧ m ∉ s'.dlq := by
  refine ⟨?_, ?_⟩
  · intro s hr
    refine ⟨?_, ?_⟩
    · intro l s' m _ hp
      obtain ⟨i, c, hc, hpc⟩ := passes_eq hp
      exact written_reachable hr i c m hc hpc
    · intro p o ho hcalls
      exact ((inv_reachable hr).committed p o ho).resolve_left hcalls
  · intro s i s' _ hst hf
    obtain ⟨m, hm, hcommit, hp⟩ := unflushed_passes hst hf
    obtain ⟨s'', hs''⟩ := Option.isSome_iff_exists.mp hcommit
    exact ⟨_, m, s'', hs'', hp, hm⟩

/-- The broker answers before `flush` returns. -/
def delivered : List (Lbl String) :=
  let next := Lbl.consumer 0
  let again := [next (.poll 0), next (.handle false), next (.seek true)]
  [.join, .assign 0 0] ++ again ++ again ++
    [next (.poll 0), next (.handle false), next (.produce true), .deliver 0 (0, 0), next .flush,
      next (.commit .accepted)]

theorem dead_lettered_of_flushed_delivered :
    ∃ s, (flushedLts {} malformed).Reachable s ∧ s.committed 0 = 1 ∧ (0, 0) ∈ s.dlq := by
  obtain ⟨s, hr, hs⟩ : ∃ s, (flushedLts {} malformed).Reachable s ∧
      decide (s.committed 0 = 1 ∧ ((0, 0), true) ∉ s.calls) = true :=
    LTS.reachable_of_execG delivered rfl (by decide +kernel)
  obtain ⟨hcom, hcalls⟩ := of_decide_eq_true hs
  exact ⟨s, hr, hcom, ((dead_lettered_of_flushed {} malformed).1 s hr).2 0 0 (by omega) hcalls⟩

end Gestalt.Kafka.Group
