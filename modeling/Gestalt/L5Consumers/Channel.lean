import Gestalt.L4Checkout.Delivered
import Gestalt.L4Checkout.Reasons
import Gestalt.Bugs.LostNotification
import Gestalt.L5Consumers.EventFormat

/-!
# What the channel is told

order-service with all it touches, and notification-service with its consumers and the Slack
webhook, in any interleaving: whatever order-service publishes goes, as bytes, to the end of
the partition of its order's id, and `handle_event` posts what it makes of them.

`channel_told`: every text that is posted is so. An order that is said to be received exists;
one said to be paid has been charged, once and that amount; one said to have failed is given a
reason of the closed set. This is of every interleaving. Where `flush` returns only once its
message is delivered (`flushedLts`), no message is passed over either: once its offset is
committed past, its text has been posted, unless the dead-letter topic has it. Whether the
webhook has taken the post is another matter (`NeverZero`).
-/
namespace Gestalt.Notifications

open Kafka (MsgId)
open Checkout (Event)

/-! ## The service alone -/

namespace Service

variable {repr : Json → String} {cfg : Settings} {log : Nat → List ByteArray} {s s' : Service}

/-- What `handle_event` makes of a message. -/
def Says (repr : Json → String) (s : Service) (m : MsgId) (texts : List String) : Prop :=
  ∃ raw, (s.group.log m.1)[m.2]? = some raw ∧ handleEvent repr raw = some texts

/-- The texts of a message have been posted, if there is a webhook. -/
def Posted (repr : Json → String) (cfg : Settings) (s : Service) (m : MsgId) : Prop :=
  ∃ texts, s.Says repr m texts ∧
    (cfg.slackWebhookUrl ≠ "" → ∀ text ∈ texts, ∃ answer, (m, text, answer) ∈ s.posts)

/-- Nothing is posted but the texts of a message, for that message. -/
def Honest (repr : Json → String) (s : Service) : Prop :=
  ∀ x ∈ s.posts, ∃ texts, s.Says repr x.1 texts ∧ x.2.1 ∈ texts

/-- What is known once `flush` means delivered: a call that has returned has posted. -/
structure Sent (repr : Json → String) (cfg : Settings) (log : Nat → List ByteArray) (s : Service) : Prop where
  group : (Kafka.Group.flushedLts cfg.toSettings log).Reachable s.group
  called : ∀ m, (m, true) ∈ s.group.calls → s.Posted repr cfg m

theorem Says.mono {m : MsgId} {texts : List String} (h : s.Says repr m texts)
    (hlog : ∀ p, s.group.log p <+: s'.group.log p) : s'.Says repr m texts := by
  obtain ⟨raw, hraw, htexts⟩ := h
  obtain ⟨rest, he⟩ := hlog m.1
  refine ⟨raw, ?_, htexts⟩
  rw [← he, List.getElem?_append_left (List.getElem?_eq_some_iff.mp hraw).1]
  exact hraw

theorem Posted.mono {m : MsgId} (h : s.Posted repr cfg m) (hlog : ∀ p, s.group.log p <+: s'.group.log p)
    (hposts : s.posts ⊆ s'.posts) : s'.Posted repr cfg m := by
  obtain ⟨texts, hsays, hall⟩ := h
  refine ⟨texts, hsays.mono hlog, fun hook text ht => ?_⟩
  obtain ⟨answer, hmem⟩ := hall hook text ht
  exact ⟨answer, hposts hmem⟩

/-- `handle_event` posts nothing but its texts. -/
theorem consume_mem {raw : ByteArray} {answer : Response} {text : String}
    (h : text ∈ (consume repr cfg raw answer).1) :
    ∃ texts, handleEvent repr raw = some texts ∧ text ∈ texts := by
  unfold consume at h
  split at h
  · rename_i texts htexts
    obtain ⟨text', ht', hsent⟩ := List.mem_filterMap.mp h
    refine ⟨texts, htexts, ?_⟩
    unfold notify at hsent
    split at hsent
    · cases hsent
      exact ht'
    · cases hsent
  · cases h

theorem consume_returns {raw : ByteArray} {answer : Response} (h : (consume repr cfg raw answer).2 = true) :
    ∃ texts, handleEvent repr raw = some texts := by
  unfold consume at h
  split at h
  · rename_i texts htexts
    exact ⟨texts, htexts⟩
  · cases h

/-- What a call of `handle_event` adds to the posts. -/
theorem Honest.record (hI : s.Honest repr) {i : Nat} {m : MsgId} {raw : ByteArray}
    (hm : s.message i = some (m, raw)) (answer : Response) :
    (s.record m (consume repr cfg raw answer).1 answer).Honest repr := by
  intro x hx
  rcases List.mem_append.mp hx with hx | hx
  · exact hI x hx
  · obtain ⟨text, htext, rfl⟩ := List.mem_map.mp hx
    obtain ⟨texts, htexts, hmem⟩ := consume_mem htext
    exact ⟨texts, ⟨raw, (message_eq hm).2, htexts⟩, hmem⟩

/-- The group takes a step: it posts nothing, and the topic only grows. -/
theorem Honest.advance {l : Kafka.Lbl ByteArray} {s₁ : Service} (hI : s₁.Honest repr)
    (h : s₁.advance cfg l = some s') : s'.Honest repr := by
  obtain ⟨g, hst, rfl⟩ := Option.map_eq_some_iff.mp h
  intro x hx
  obtain ⟨texts, hsays, hmem⟩ := hI x hx
  exact ⟨texts, hsays.mono (Kafka.Group.step_grows hst), hmem⟩

/-- **Step lemma**, whatever `flush` does. -/
theorem honest_step {l : Lbl} (hI : s.Honest repr) (h : step repr cfg s l = some s') : s'.Honest repr := by
  cases l with
  | kafka l =>
    simp only [step] at h
    split at h
    · cases h
    · exact hI.advance h
  | handle i answer | cutOff i answer =>
    simp only [step] at h
    split at h
    · rename_i m raw hm
      exact (hI.record hm answer).advance h
    · cases h

/-- The group takes a step that ends no call. -/
theorem Sent.quiet {l : Kafka.Lbl ByteArray} {s₁ : Service} (hI : Sent repr cfg log s)
    (h : s₁.advance cfg l = some s') (hg : s₁.group = s.group) (hsub : s.posts ⊆ s₁.posts)
    (hfl : s.group.flushed l = true) (hl : isCall l = false) : Sent repr cfg log s' := by
  obtain ⟨g, hst, rfl⟩ := Option.map_eq_some_iff.mp h
  rw [hg] at hst
  have hcall : ∀ i returns, l ≠ .consumer i (.handle returns) := by
    rintro i returns rfl
    cases hl
  obtain ⟨hcalls, hlog⟩ := Kafka.Group.step_frame hst hcall
  refine ⟨hI.group.step ⟨hst, hfl⟩, fun m hm => ?_⟩
  exact (hI.called m (hcalls ▸ hm)).mono hlog hsub

/-- **Step lemma.** -/
theorem sent_step {l : Lbl} (hI : Sent repr cfg log s) (h : step repr cfg s l = some s')
    (hfl : flushed s l = true) : Sent repr cfg log s' := by
  cases l with
  | kafka l =>
    simp only [step] at h
    split at h
    · cases h
    · rename_i hl
      exact hI.quiet h rfl (List.Subset.refl _) hfl (Bool.eq_false_iff.mpr hl)
  | cutOff i answer =>
    simp only [step] at h
    split at h
    · exact hI.quiet h rfl (List.subset_append_left _ _) rfl rfl
    · cases h
  | handle i answer =>
    simp only [step] at h
    split at h
    · rename_i m raw hm
      obtain ⟨g, hst, rfl⟩ := Option.map_eq_some_iff.mp h
      obtain ⟨m', hin, hcalls, hlog⟩ := Kafka.Group.step_handle hst
      have hgrow : ∀ p, s.group.log p <+: g.log p := fun p => hlog ▸ List.prefix_rfl
      refine ⟨hI.group.step ⟨hst, rfl⟩, fun k hk => ?_⟩
      rw [hcalls] at hk
      rcases List.mem_append.mp hk with hold | hnew
      · exact (hI.called k hold).mono hgrow (List.subset_append_left _ _)
      · -- the call that has just returned
        obtain ⟨rfl, hret⟩ := Prod.mk.inj (List.mem_singleton.mp hnew)
        obtain rfl : k = m := Option.some.inj (hin.symm.trans (message_eq hm).1)
        obtain ⟨texts, htexts⟩ := consume_returns hret.symm
        refine ⟨texts, (show s.Says repr k texts from ⟨raw, (message_eq hm).2, htexts⟩).mono hgrow, ?_⟩
        intro hook text ht
        refine ⟨answer, List.mem_append_right _ (List.mem_map.mpr ⟨text, ?_, rfl⟩)⟩
        rw [consume_some hook answer htexts]
        exact ht
    · cases h

theorem sent_reachable (h : (flushedLts repr cfg log).Reachable s) : Sent repr cfg log s := by
  refine LTS.reachable_induct ?_ ?_ h
  · rintro s rfl
    exact ⟨.of_init rfl, nofun⟩
  · intro s l s' _ hI hs
    exact sent_step hI hs.1 hs.2

end Service

/-! ## The shop and the service -/

structure Pipe where
  shop : Checkout.Config := {}
  service : Settings
  partitionOf : String → Nat
  isoformat : Nat → String
  repr : Json → String

structure System where
  shop : Checkout.Sys
  service : Service

inductive Label
  | shop (l : Checkout.Lbl)
  /-- notification-service, but for new messages -/
  | service (l : Lbl)

/-- A message goes to the end of the partition of its key. -/
def Pipe.append (cfg : Pipe) (ev : Event) : Kafka.Lbl ByteArray :=
  .append (cfg.partitionOf ev.orderId) (ev.message cfg.isoformat)

def Service.receive (cfg : Pipe) (svc : Service) (evs : List Event) : Service :=
  evs.foldl (fun svc ev => (svc.advance cfg.service (cfg.append ev)).getD svc) svc

def appends : Lbl → Bool
  | .kafka (.append ..) => true
  | _ => false

namespace System

def start (cat : Catalog.Products) : System := ⟨Checkout.start cat, .start fun _ => []⟩

def step (cfg : Pipe) (s : System) : Label → Option System
  | .shop l => (Checkout.step cfg.shop s.shop l).map fun shop =>
    ⟨shop, s.service.receive cfg (shop.topic.drop s.shop.topic.length)⟩
  | .service l =>
    if appends l then none
    else (Service.step cfg.repr cfg.service s.service l).map fun svc => { s with service := svc }

def lts (cfg : Pipe) (cat : Catalog.Products) : LTS System Label := LTS.ofFn (· = start cat) (step cfg)

/-- `flush` returns only once the message it follows has been delivered. -/
def flushed (s : System) : Label → Bool
  | .shop _ => true
  | .service l => s.service.flushed l

def flushedLts (cfg : Pipe) (cat : Catalog.Products) : LTS System Label :=
  (lts cfg cat).restrict fun s l => flushed s l = true

variable {cfg : Pipe} {cat : Catalog.Products} {s s' : System} {l : Label}

theorem step_service {l : Lbl} (h : step cfg s (.service l) = some s') : ∃ svc, appends l = false ∧
    Service.step cfg.repr cfg.service s.service l = some svc ∧ s' = { s with service := svc } := by
  simp only [step] at h
  split at h
  · cases h
  · rename_i hl
    obtain ⟨svc, hsvc, rfl⟩ := Option.map_eq_some_iff.mp h
    exact ⟨svc, Bool.eq_false_iff.mpr hl, hsvc, rfl⟩

/-! ## Each part is what it is alone -/

theorem shop_reachable (h : (lts cfg cat).Reachable s) : (Checkout.lts cfg.shop cat).Reachable s.shop := by
  have hsim : LTS.Simulation (lts cfg cat) (Checkout.lts cfg.shop cat) System.shop := by
    constructor
    · rintro s rfl
      rfl
    · rintro s l s' - hst
      cases l with
      | shop l =>
        obtain ⟨shop, hshop, rfl⟩ := Option.map_eq_some_iff.mp hst
        exact .inr ⟨l, hshop⟩
      | service l =>
        obtain ⟨svc, -, -, rfl⟩ := step_service hst
        exact .inl rfl
  exact hsim.reachable h

theorem receive_cons (svc : Service) (ev : Event) (evs : List Event) :
    svc.receive cfg (ev :: evs) = Service.receive cfg { svc with group := { svc.group with
      log := Function.update svc.group.log (cfg.partitionOf ev.orderId)
        (svc.group.log (cfg.partitionOf ev.orderId) ++ [ev.message cfg.isoformat]) } } evs := rfl

theorem receive_reachable {svc : Service} (evs : List Event)
    (h : (Service.flushedLts cfg.repr cfg.service fun _ => []).Reachable svc) :
    (Service.flushedLts cfg.repr cfg.service fun _ => []).Reachable (svc.receive cfg evs) := by
  induction evs generalizing svc with
  | nil => exact h
  | cons ev evs ih => exact ih (h.step (l := .kafka (cfg.append ev)) ⟨rfl, rfl⟩)

theorem receive_honest {svc : Service} (evs : List Event) (h : svc.Honest cfg.repr) :
    (svc.receive cfg evs).Honest cfg.repr := by
  induction evs generalizing svc with
  | nil => exact h
  | cons ev evs ih =>
    have hsvc : svc.advance cfg.service (cfg.append ev) = some _ := rfl
    exact ih (h.advance hsvc)

theorem receive_log (svc : Service) (evs : List Event) (p : Nat) :
    (svc.receive cfg evs).group.log p = svc.group.log p ++
      (evs.filter fun ev => cfg.partitionOf ev.orderId = p).map (Event.message cfg.isoformat) := by
  induction evs generalizing svc with
  | nil => exact (List.append_nil _).symm
  | cons ev evs ih =>
    rw [receive_cons, ih, List.filter_cons]
    by_cases hp : cfg.partitionOf ev.orderId = p
    · subst hp
      simp
    · simp [hp, Function.update_of_ne (Ne.symm hp)]

theorem service_reachable (h : (flushedLts cfg cat).Reachable s) :
    (Service.flushedLts cfg.repr cfg.service fun _ => []).Reachable s.service := by
  refine LTS.reachable_induct (I := fun s =>
    (Service.flushedLts cfg.repr cfg.service fun _ => []).Reachable s.service) ?_ ?_ h
  · rintro s rfl
    exact .of_init rfl
  · rintro s l s' - hI ⟨hst, hfl⟩
    cases l with
    | shop l =>
      obtain ⟨shop, -, rfl⟩ := Option.map_eq_some_iff.mp hst
      exact receive_reachable _ hI
    | service l =>
      obtain ⟨svc, -, hsvc, rfl⟩ := step_service hst
      exact hI.step ⟨hsvc, hfl⟩

theorem service_honest (h : (lts cfg cat).Reachable s) : s.service.Honest cfg.repr := by
  refine LTS.reachable_induct (I := fun s => s.service.Honest cfg.repr) ?_ ?_ h
  · rintro s rfl
    exact nofun
  · rintro s l s' - hI hst
    cases l with
    | shop l =>
      obtain ⟨shop, -, rfl⟩ := Option.map_eq_some_iff.mp hst
      exact receive_honest _ hI
    | service l =>
      obtain ⟨svc, -, hsvc, rfl⟩ := step_service hst
      exact Service.honest_step hI hsvc

/-! ## How they are connected -/

/-- A step of the service adds no message. -/
theorem service_log {svc svc' : Service} {l : Lbl} (hl : appends l = false)
    (h : Service.step cfg.repr cfg.service svc l = some svc') : svc'.group.log = svc.group.log := by
  have hgroup : ∀ (svc₁ : Service) (k : Kafka.Lbl ByteArray), (∀ p msg, k ≠ .append p msg) →
      svc₁.advance cfg.service k = some svc' → svc'.group.log = svc₁.group.log := by
    intro svc₁ k hk hst
    obtain ⟨g, hg, rfl⟩ := Option.map_eq_some_iff.mp hst
    exact Kafka.Group.step_log hg hk
  cases l with
  | kafka k =>
    simp only [Service.step] at h
    split at h
    · cases h
    · refine hgroup svc k ?_ h
      rintro p msg rfl
      cases hl
  | handle i answer | cutOff i answer =>
    simp only [Service.step] at h
    split at h
    · rename_i m raw _
      exact hgroup (svc.record m (consume cfg.repr cfg.service raw answer).1 answer) _ (by simp) h
    · cases h

/-- The partitions hold what order-service has published. -/
def Linked (cfg : Pipe) (s : System) : Prop := ∀ p, s.service.group.log p =
  (s.shop.topic.filter fun ev => cfg.partitionOf ev.orderId = p).map (Event.message cfg.isoformat)

theorem linked (h : (lts cfg cat).Reachable s) : Linked cfg s := by
  refine LTS.reachable_induct ?_ ?_ h
  · rintro s rfl p
    rfl
  · rintro s l s' - hI hst p
    cases l with
    | shop l =>
      obtain ⟨shop, hshop, rfl⟩ := Option.map_eq_some_iff.mp hst
      obtain ⟨evs, htopic, -⟩ := Checkout.step_topic hshop
      simp only [htopic, List.drop_left, receive_log, hI p, List.filter_append, List.map_append]
    | service l =>
      obtain ⟨svc, hl, hsvc, rfl⟩ := step_service hst
      simp only [service_log hl hsvc]
      exact hI p

/-- A message is the bytes of an event on the topic. -/
theorem Linked.event (hI : Linked cfg s) {m : MsgId} {raw : ByteArray}
    (h : (s.service.group.log m.1)[m.2]? = some raw) :
    ∃ ev ∈ s.shop.topic, ev.message cfg.isoformat = raw := by
  rw [hI] at h
  obtain ⟨ev, hev, hraw⟩ := List.mem_map.mp (List.mem_of_getElem? h)
  exact ⟨ev, (List.mem_filter.mp hev).1, hraw⟩

/-! ## What is posted -/

/-- What a text says of an order is so. -/
inductive Factual (s : Checkout.Sys) (text : String) : Prop
  | received (o : Orders.Order) : o ∈ s.db.orders → text = "Order " ++ o.id ++ " received" → Factual s text
  | paid (o : Orders.Order) (e : Payment.Exec) : o ∈ s.db.orders →
      text = "Order " ++ o.id ++ " paid — " ++ toString o.amountCents →
      s.pay.execs.filter (Checkout.successUnder o.idempotencyKey) = [e] → e.body.orderId = o.id →
      e.body.amount = o.amountCents → Factual s text
  | failed (o : Orders.Order) (reason : String) : o ∈ s.db.orders → reason ∈ Checkout.reasonCodes →
      text = "Order " ++ o.id ++ " failed: " ++ reason → Factual s text

/-- So is what `handle_event` says of an event on the topic. -/
theorem factual {s : Checkout.Sys} {shop : Checkout.Config} (h : (Checkout.lts shop cat).Reachable s)
    (repr : Json → String) (isoformat : Nat → String) {ev : Event} (hev : ev ∈ s.topic) {texts : List String}
    (ht : handleEvent repr (ev.message isoformat) = some texts) : ∀ text ∈ texts, Factual s text := by
  have K := Checkout.keys_reachable h
  obtain ⟨x, hx, hcall⟩ := Checkout.topic_published h _ hev
  obtain ⟨order, hseen, habout⟩ := Checkout.published_about h x hx _ hcall
  obtain ⟨o, ho, hcore⟩ := Orders.mem_cores.mp hseen.core
  have hid : order.id = o.id := (congrArg Orders.Core.id hcore).symm
  obtain rfl : (ev.type.notice order).toList = texts :=
    Option.some.inj ((Checkout.notified repr isoformat habout).symm.trans ht)
  intro text htext
  cases ev with
  | created oid uid items amount =>
    obtain rfl := List.mem_singleton.mp htext
    exact .received o ho (by rw [hid])
  | paid oid uid amount paidAt =>
    obtain rfl := List.mem_singleton.mp htext
    obtain ⟨rfl, -, -⟩ := habout
    -- the order is charged, once
    obtain ⟨c, hc, hcid, hch⟩ := Checkout.published_paidFor h x hx _ hcall (.inl rfl)
    obtain rfl : c = o.core := K.ids.eq hc (Orders.mem_core ho) (hcid.trans hid)
    obtain ⟨e, he, heid, heamt, -⟩ := Checkout.charged_once h ho hch
    refine .paid o e ho ?_ he heid heamt
    rw [hid, show order.amountCents = o.amountCents from (congrArg Orders.Core.amountCents hcore).symm]
  | failed oid uid reason =>
    obtain rfl := List.mem_singleton.mp htext
    obtain ⟨r, hr, hreason⟩ := (Checkout.reasoned_reachable h).told x hx _ hcall
    obtain ⟨-, -, rfl⟩ := habout
    exact .failed o r ho hr (by rw [hid, hreason]; rfl)
  | delivered oid uid productIds deliveredAt => cases htext

/-- **What the channel is told.** In any interleaving every post says of an order what is so: that it has been
received, that it has been charged, once and that amount, or why it failed, by a code; and it is for the message
of such an event. Once `flush` means delivered, and with a webhook, every message that is committed past has been
posted, or is on the dead-letter topic. -/
theorem channel_told (cfg : Pipe) (cat : Catalog.Products) :
    (∀ s, (lts cfg cat).Reachable s → ∀ x ∈ s.service.posts, Factual s.shop x.2.1 ∧ ∃ ev ∈ s.shop.topic,
      (s.service.group.log x.1.1)[x.1.2]? = some (ev.message cfg.isoformat)) ∧
    (∀ s, (flushedLts cfg cat).Reachable s → cfg.service.slackWebhookUrl ≠ "" →
      ∀ m, m.2 < s.service.group.committed m.1 → m ∉ s.service.group.dlq →
        ∃ ev ∈ s.shop.topic, (s.service.group.log m.1)[m.2]? = some (ev.message cfg.isoformat) ∧
          ∃ texts, handleEvent cfg.repr (ev.message cfg.isoformat) = some texts ∧
            ∀ text ∈ texts, ∃ answer, (m, text, answer) ∈ s.service.posts) := by
  refine ⟨fun s h x hx => ?_, fun s h hook m hcom hdlq => ?_⟩
  · obtain ⟨texts, ⟨raw, hraw, htexts⟩, hmem⟩ := service_honest h x hx
    obtain ⟨ev, hev, rfl⟩ := (linked h).event hraw
    exact ⟨factual (shop_reachable h) cfg.repr cfg.isoformat hev htexts _ hmem, ev, hev, hraw⟩
  · have S := Service.sent_reachable (service_reachable h)
    obtain ⟨texts, ⟨raw, hraw, htexts⟩, hposted⟩ :=
      S.called m (((Kafka.Group.inv_reachable S.group).committed m.1 m.2 hcom).resolve_right hdlq)
    obtain ⟨ev, hev, rfl⟩ := (linked h.unrestrict).event hraw
    exact ⟨ev, hev, hraw, texts, htexts, hposted hook⟩

def toSlack : Pipe :=
  { service := { slackWebhookUrl := "http://webhook/hook" }
    partitionOf := fun _ => 0
    isoformat := toString
    repr := fun _ => "" }

/-- An order is paid. A consumer dies in its first call, its post made; the next one posts again. -/
def toldTwice : List Label :=
  let kafka l := Label.service (.kafka l)
  let next := [kafka (.consumer 1 (.poll 0)), .service (.handle 1 (.status 200 none)),
    kafka (.consumer 1 (.commit .accepted))]
  Checkout.paidAndAbandoned.map .shop ++ [kafka .join, kafka (.assign 0 0), kafka (.consumer 0 (.poll 0)),
    .service (.cutOff 0 (.httpError "ReadTimeout")), kafka .join, kafka (.assign 1 0)] ++ next ++ next

def posted (s : System) : List String := s.service.posts.map fun x => x.2.1

theorem channel_told_twice : ∃ s, (flushedLts toSlack Checkout.shop).Reachable s ∧
    posted s = ["Order o1 received", "Order o1 received", "Order o1 paid — 30"] ∧
    (∀ x ∈ s.service.posts, Factual s.shop x.2.1) ∧
    ∀ o < 2, (0, o) ∉ s.service.group.dlq → ∃ ev ∈ s.shop.topic, ∃ texts,
      handleEvent (fun _ => "") (ev.message toString) = some texts ∧
        ∀ text ∈ texts, ∃ answer, ((0, o), text, answer) ∈ s.service.posts := by
  obtain ⟨s, hr, hs⟩ : ∃ s, (flushedLts toSlack Checkout.shop).Reachable s ∧
      decide (posted s = ["Order o1 received", "Order o1 received", "Order o1 paid — 30"] ∧
        s.service.group.committed 0 = 2) = true :=
    LTS.reachable_of_execG toldTwice rfl (by decide +kernel)
  obtain ⟨hposted, hcom⟩ := of_decide_eq_true hs
  obtain ⟨htrue, hall⟩ := channel_told toSlack Checkout.shop
  refine ⟨s, hr, hposted, fun x hx => (htrue s hr.unrestrict x hx).1, fun o ho hdlq => ?_⟩
  obtain ⟨ev, hev, -, texts, htexts, hpost⟩ := hall s hr (by decide) (0, o) (hcom ▸ ho) hdlq
  exact ⟨ev, hev, texts, htexts, hpost⟩

end System

end Gestalt.Notifications
