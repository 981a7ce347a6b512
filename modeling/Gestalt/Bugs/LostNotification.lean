import Gestalt.L4Checkout.Publish
import Gestalt.L5Consumers.Notifications
import Gestalt.L5Consumers.Retries

/-!
# A notification the webhook has not taken

Status: open.

Behaviour: `notify` catches and logs every `httpx.HTTPError`, and does not look
at the status of an answer (services/notification-service/app/notifier.py:14-20).
So `handle_event` returns whatever the webhook does, and `run_consumer` commits
the message: the retries and the dead-letter topic never see a failed post.

Documented: services/notification-service/app/consumer.py:3-9 and
gestalt-commerce-docs/services/notification-service.md:22, at least once, "never
zero times"; IMPLEMENTATION_DECISIONS.md:559-561 gives "a momentary Slack webhook
timeout" as the failure that the retries are for.

Counterexample: `timedOut`. One order.paid, one post, which times out; the offset
is committed, and the message is not in the dead-letter topic.

Fix: no `except` in `notify`, and `raise_for_status()` on the answer.
-/
namespace Gestalt.Notifications

open Kafka (MsgId)

/-- The webhook answers 2xx. -/
def accepted : Response → Bool
  | .status code _ => 200 ≤ code && code < 300
  | .httpError _ => false

/-- The service and its topic. Ghost: the posts made so far with what came back,
and the failed attempts at each message. -/
structure Service where
  group : Kafka.Group ByteArray
  posts : List (MsgId × String × Response)
  failures : MsgId → Nat

/-- `handle_event` with all it calls is one step, the webhook's answer being
given. -/
inductive Lbl
  /-- anything but a `handle_event` -/
  | kafka (l : Kafka.Lbl ByteArray)
  | handle (i : Nat) (answer : Response)
  /-- the process dies in `handle_event`, its post having been made -/
  | cutOff (i : Nat) (answer : Response)

def isCall : Kafka.Lbl ByteArray → Bool
  | .consumer _ (.handle _) => true
  | _ => false

variable (repr : Json → String) (cfg : Settings)

/-- What `handle_event` posts, and whether it returns. -/
def consume (raw : ByteArray) (answer : Response) : List String × Bool :=
  match handleEvent repr raw with
  | some texts => (texts.filterMap fun text => (notify cfg text answer).1,
      texts.all fun text => (notify cfg text answer).2.isOk)
  | none => ([], false)

namespace Service

def start (log : Nat → List ByteArray) : Service := ⟨.start log, [], fun _ => 0⟩

/-- `msg` of consumer `i`, in `handle_event`. -/
def message (s : Service) (i : Nat) : Option (MsgId × ByteArray) := do
  let m ← s.group.inHand i
  let raw ← (s.group.log m.1)[m.2]?
  return (m, raw)

def record (s : Service) (m : MsgId) (texts : List String) (answer : Response) : Service :=
  { s with posts := s.posts ++ texts.map fun text => (m, text, answer) }

def advance (s : Service) (l : Kafka.Lbl ByteArray) : Option Service :=
  (Kafka.Group.step cfg.toSettings s.group l).map fun g =>
    { s with group := g, failures := s.group.failures l s.failures }

def step (s : Service) : Lbl → Option Service
  | .kafka l => if isCall l then none else s.advance cfg l
  | .handle i answer =>
    match s.message i with
    | some (m, raw) =>
      let r := consume repr cfg raw answer
      (s.record m r.1 answer).advance cfg (.consumer i (.handle r.2))
    | none => none
  | .cutOff i answer =>
    match s.message i with
    | some (m, raw) => (s.record m (consume repr cfg raw answer).1 answer).advance cfg (.crash i)
    | none => none

def lts (log : Nat → List ByteArray) : LTS Service Lbl :=
  LTS.ofFn (· = start log) (step repr cfg)

/-- `flush` returns only once the message it follows has been delivered. -/
def flushed (s : Service) : Lbl → Bool
  | .kafka l => s.group.flushed l
  | _ => true

def flushedLts (log : Nat → List ByteArray) : LTS Service Lbl :=
  (lts repr cfg log).restrict fun s l => flushed s l = true

/-- The message says what to notify of, and the webhook has taken it. -/
def Notified (s : Service) (m : MsgId) : Prop :=
  ∃ raw texts, (s.group.log m.1)[m.2]? = some raw ∧ handleEvent repr raw = some texts ∧
    ∀ text ∈ texts, ∃ answer, (m, text, answer) ∈ s.posts ∧ accepted answer = true

/-- Never zero times: a message committed past is notified of, or has been given
up after as many failed attempts as there are to be. -/
def NeverZero (s : Service) : Prop := ∀ p o, o < s.group.committed p →
  s.Notified repr (p, o) ∨
    (p, o) ∈ s.group.dlq ∧ cfg.maxProcessingAttempts ≤ s.failures (p, o)

/-! ## The run that goes wrong -/

def webhook : Settings := { slackWebhookUrl := "http://webhook/hook" }

def orderPaid : ByteArray := (Checkout.Event.paid "o1" "u1" 1500 7).message toString

def onePaid : Nat → List ByteArray := fun p => if p = 0 then [orderPaid] else []

/-- The webhook does not answer in five seconds, and the loop goes on. -/
def timedOut : List Lbl :=
  [.kafka .join, .kafka (.assign 0 0), .kafka (.consumer 0 (.poll 0)),
    .handle 0 (.httpError "ReadTimeout"), .kafka (.consumer 0 (.commit .accepted))]

/-- The first message has a text to post, is committed past, and was neither
taken by the webhook nor forwarded. -/
def lostFirst (s : Service) : Bool :=
  0 < s.group.committed 0 && s.group.dlq.isEmpty && s.posts.all (fun x => !accepted x.2.2) &&
    (s.group.log 0)[0]?.any fun raw => (handleEvent (fun _ => "") raw).any (· ≠ [])

/-- **Counterexample.** -/
theorem notification_lost : ¬ ∀ s, (flushedLts (fun _ => "") webhook onePaid).Reachable s →
    s.NeverZero (fun _ => "") webhook := by
  have hrun : ∃ s, (flushedLts (fun _ => "") webhook onePaid).Reachable s ∧ lostFirst s = true :=
    LTS.reachable_of_execG timedOut rfl (by decide +kernel)
  obtain ⟨s, hr, hs⟩ := hrun
  simp only [lostFirst, Bool.and_eq_true, decide_eq_true_eq, List.isEmpty_iff, List.all_eq_true,
    Option.any_eq_true, Bool.not_eq_true'] at hs
  obtain ⟨⟨⟨hcom, hdlq⟩, hposts⟩, raw, hraw, texts, htexts, hne⟩ := hs
  intro h
  rcases h s hr 0 0 hcom with ⟨raw', texts', hraw', htexts', hall⟩ | ⟨hmem, -⟩
  · -- the text of the message has no accepted post
    rw [hraw] at hraw'
    cases hraw'
    rw [htexts] at htexts'
    cases htexts'
    obtain ⟨text, htext⟩ := List.exists_mem_of_ne_nil texts hne
    obtain ⟨answer, hpost, hacc⟩ := hall text htext
    rw [hposts _ hpost] at hacc
    cases hacc
  · rw [hdlq] at hmem
    cases hmem

/-! ## When every post is accepted -/

/-- The webhook accepts the post with which `handle_event` returns, or has
accepted that text for the message before. -/
def taken (s : Service) : Lbl → Bool
  | .handle i answer =>
    match s.message i with
    | some (m, raw) => accepted answer || (consume repr cfg raw answer).1.all fun text =>
        s.posts.any fun x => x.1 = m && x.2.1 = text && accepted x.2.2
    | none => true
  | _ => true

def takenLts (log : Nat → List ByteArray) : LTS Service Lbl :=
  (lts repr cfg log).restrict fun s l => flushed s l = true ∧ taken repr cfg s l = true

variable {repr cfg} {log : Nat → List ByteArray} {s s' : Service}

/-- With a webhook `handle_event` posts its text, and returns. -/
theorem consume_some (hook : cfg.slackWebhookUrl ≠ "") {raw : ByteArray} {texts : List String}
    (answer : Response) (h : handleEvent repr raw = some texts) :
    consume repr cfg raw answer = (texts, true) := by
  simp [consume, h, notify, hook, Except.isOk, Except.toBool]

theorem Notified.mono {m : MsgId} (h : s.Notified repr m) (hlog : ∀ p, s.group.log p <+: s'.group.log p)
    (hposts : s.posts ⊆ s'.posts) : s'.Notified repr m := by
  obtain ⟨raw, texts, hraw, htexts, hall⟩ := h
  refine ⟨raw, texts, ?_, htexts, ?_⟩
  · obtain ⟨rest, he⟩ := hlog m.1
    rw [← he, List.getElem?_append_left (List.getElem?_eq_some_iff.mp hraw).1]
    exact hraw
  · intro text ht
    obtain ⟨answer, hmem, hacc⟩ := hall text ht
    exact ⟨answer, hposts hmem, hacc⟩

/-- What is known of a run in which every post is accepted: a call that has
returned has notified. -/
structure Inv (repr : Json → String) (cfg : Settings) (log : Nat → List ByteArray) (s : Service) :
    Prop where
  group : (Kafka.Group.flushedLts cfg.toSettings log).Reachable s.group
  tried : Kafka.Group.Tried cfg.toSettings s.group s.failures
  called : ∀ m, (m, true) ∈ s.group.calls → s.Notified repr m

theorem inv_start (repr : Json → String) (cfg : Settings) (log : Nat → List ByteArray) :
    Inv repr cfg log (start log) where
  group := .of_init rfl
  tried := Kafka.Group.tried_start log _
  called m hm := by cases hm

/-- The group takes a step, and what it adds to the calls is notified of. -/
theorem Inv.advance {l : Kafka.Lbl ByteArray} {s₁ : Service} (hI : Inv repr cfg log s)
    (h : s₁.advance cfg l = some s') (hg : s₁.group = s.group) (hf : s₁.failures = s.failures)
    (hfl : s.group.flushed l = true) (hcalled : ∀ m, (m, true) ∈ s'.group.calls → s'.Notified repr m) :
    Inv repr cfg log s' := by
  obtain ⟨g, hst, rfl⟩ := Option.map_eq_some_iff.mp h
  rw [hg] at hst
  refine ⟨hI.group.step ⟨hst, hfl⟩, ?_, hcalled⟩
  simp only [hg, hf]
  exact Kafka.Group.tried_step hI.tried hst

/-- The step ends no call. -/
theorem Inv.quiet {l : Kafka.Lbl ByteArray} {s₁ : Service} (hI : Inv repr cfg log s)
    (h : s₁.advance cfg l = some s') (hg : s₁.group = s.group) (hf : s₁.failures = s.failures)
    (hposts : s.posts ⊆ s₁.posts) (hfl : s.group.flushed l = true) (hl : isCall l = false) :
    Inv repr cfg log s' := by
  refine hI.advance h hg hf hfl ?_
  obtain ⟨g, hst, rfl⟩ := Option.map_eq_some_iff.mp h
  rw [hg] at hst
  have hcall : ∀ i returns, l ≠ .consumer i (.handle returns) := by
    rintro i returns rfl
    cases hl
  obtain ⟨hcalls, hlog⟩ := Kafka.Group.step_frame hst hcall
  intro m hm
  rw [hcalls] at hm
  exact (hI.called m hm).mono hlog hposts

theorem message_eq {i : Nat} {m : MsgId} {raw : ByteArray} (h : s.message i = some (m, raw)) :
    s.group.inHand i = some m ∧ (s.group.log m.1)[m.2]? = some raw := by
  simp only [message, bind, Option.bind_eq_some_iff, pure, Option.some.injEq, Prod.mk.injEq] at h
  obtain ⟨m', hm, raw', hraw, rfl, rfl⟩ := h
  exact ⟨hm, hraw⟩

/-- The message that `handle_event` returns from is notified of. -/
theorem notified_message {i : Nat} {m : MsgId} {raw : ByteArray} {answer : Response}
    (hook : cfg.slackWebhookUrl ≠ "") (hm : s.message i = some (m, raw))
    (ht : taken repr cfg s (.handle i answer) = true) (hret : (consume repr cfg raw answer).2 = true) :
    (s.record m (consume repr cfg raw answer).1 answer).Notified repr m := by
  simp only [taken, hm] at ht
  cases htexts : handleEvent repr raw with
  | none => simp [consume, htexts] at hret
  | some texts =>
    rw [consume_some hook answer htexts] at ht ⊢
    refine ⟨raw, texts, (message_eq hm).2, htexts, ?_⟩
    intro text hmem
    rcases Bool.or_eq_true_iff.mp ht with hacc | hbefore
    · exact ⟨answer, List.mem_append_right _ (List.mem_map.mpr ⟨text, hmem, rfl⟩), hacc⟩
    · obtain ⟨⟨m', text', answer'⟩, hx, heq⟩ := List.any_eq_true.mp (List.all_eq_true.mp hbefore text hmem)
      simp only [Bool.and_eq_true, decide_eq_true_eq] at heq
      obtain ⟨⟨rfl, rfl⟩, hacc⟩ := heq
      exact ⟨answer', List.mem_append_left _ hx, hacc⟩

/-- **Step lemma.** -/
theorem inv_step {l : Lbl} (hook : cfg.slackWebhookUrl ≠ "") (hI : Inv repr cfg log s)
    (h : step repr cfg s l = some s') (hfl : flushed s l = true) (ht : taken repr cfg s l = true) :
    Inv repr cfg log s' := by
  cases l with
  | kafka l =>
    simp only [step] at h
    split at h
    · cases h
    · rename_i hl
      exact hI.quiet h rfl rfl (List.Subset.refl _) hfl (Bool.eq_false_iff.mpr hl)
  | cutOff i answer =>
    simp only [step] at h
    split at h
    · exact hI.quiet h rfl rfl (List.subset_append_left _ _) rfl rfl
    · cases h
  | handle i answer =>
    simp only [step] at h
    split at h
    · rename_i m raw hm
      refine hI.advance h rfl rfl rfl ?_
      obtain ⟨g, hst, rfl⟩ := Option.map_eq_some_iff.mp h
      obtain ⟨m', hin, hcalls, hlog⟩ := Kafka.Group.step_handle hst
      have hgrow : ∀ p, s.group.log p <+: g.log p := fun p => hlog ▸ List.prefix_rfl
      intro k hk
      rw [hcalls] at hk
      rcases List.mem_append.mp hk with hold | hnew
      · exact (hI.called k hold).mono hgrow (List.subset_append_left _ _)
      · -- the call that has just ended
        obtain ⟨rfl, hret⟩ := Prod.mk.inj (List.mem_singleton.mp hnew)
        have hkm : k = m := Option.some.inj (hin.symm.trans (message_eq hm).1)
        subst hkm
        exact (notified_message hook hm ht hret.symm).mono hgrow (List.Subset.refl _)
    · cases h

/-- **At least once** in every run that only accepted posts return from. -/
theorem notified_of_accepted (repr : Json → String) (cfg : Settings) (hook : cfg.slackWebhookUrl ≠ "")
    (log : Nat → List ByteArray) {s : Service} (h : (takenLts repr cfg log).Reachable s) :
    s.NeverZero repr cfg := by
  have hI : Inv repr cfg log s := by
    refine LTS.reachable_induct ?_ ?_ h
    · rintro s rfl
      exact inv_start repr cfg log
    · intro s l s' _ hI hs
      exact inv_step hook hI hs.1 hs.2.1 hs.2.2
  intro p o ho
  rcases (Kafka.Group.inv_reachable hI.group).committed p o ho with hcall | hdlq
  · exact .inl (hI.called (p, o) hcall)
  · exact .inr ⟨hdlq, hI.tried.dlq (p, o) hdlq⟩

/-- The process dies in its first attempt, its post not accepted; the second one
posts again. A malformed message after it is forwarded. -/
def secondProcess : List Lbl :=
  let next := fun a => Lbl.kafka (.consumer 1 a)
  let raise := [next (.poll 0), .handle 1 (.status 200 none)]
  let again := raise ++ [next (.seek true)]
  [.kafka .join, .kafka (.assign 0 0), .kafka (.consumer 0 (.poll 0)),
    .cutOff 0 (.httpError "ReadTimeout"), .kafka .join, .kafka (.assign 1 0), next (.poll 0),
    .handle 1 (.status 200 none), next (.commit .accepted)] ++ again ++ again ++ raise ++
    [next (.produce true), .kafka (.deliver 1 (0, 1)), next .flush, next (.commit .accepted)]

def paidThenMalformed : Nat → List ByteArray := fun p => if p = 0 then [orderPaid, ⟨#[123]⟩] else []

theorem notified_of_accepted_second : ∃ s,
    (takenLts (fun _ => "") webhook paidThenMalformed).Reachable s ∧ s.group.committed 0 = 2 ∧
      s.NeverZero (fun _ => "") webhook := by
  obtain ⟨s, hr, hs⟩ : ∃ s, (takenLts (fun _ => "") webhook paidThenMalformed).Reachable s ∧
      decide (s.group.committed 0 = 2) = true :=
    LTS.reachable_of_execG secondProcess rfl (by decide +kernel)
  exact ⟨s, hr, of_decide_eq_true hs,
    notified_of_accepted (fun _ => "") webhook (by decide) paidThenMalformed hr⟩

end Service
end Gestalt.Notifications
