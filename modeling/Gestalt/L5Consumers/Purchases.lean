import Gestalt.L4Checkout.Delivered
import Gestalt.L5Consumers.Consumer
import Gestalt.L5Consumers.EventFormat
import Gestalt.L5Consumers.Rights

/-!
# From a purchase to its review

order-service with all it touches, the `order-events` topic, and review-service with its
consumer group and its two collections, in any interleaving of their steps:

* whatever order-service publishes goes to the end of the partition of its order's id, which
  is the key of every message (`partitionOf` is the producer's partitioner);
* a consumer whose message is in hand enters `handle_event`, which is a process of
  review-service from then on, one `update_one` after another; it may leave it with an
  exception at any point, and returns from it only when it has got through all products;
* a consumer that crashes takes its `handle_event` with it.

The messages are kept as the events they are the JSON of (`received_message`). User ids are
UUIDs: the requests of order-service come from authenticated users.

`verified_purchase`: every review is by a customer who has been charged for an order of the
product. `delivered_reviewable`: the documents that allow a review are those of delivered
orders, and none of them is missing once its message is committed past.
-/
namespace Gestalt.Purchases

open Checkout (Event PaidFor)
open Orders (linesOf cores)
open Kafka (MsgId)
open Reviews (UserId ReviewIn Delivered eligibilityId)

structure Config where
  shop : Checkout.Config := {}
  consumer : Kafka.Settings := {}
  partitionOf : String → Nat
  isoformat : Nat → String

/-- A message, as `handle_event` of review-service takes it apart. -/
def received (isoformat : Nat → String) : Event → Reviews.Event
  | .delivered oid uid productIds deliveredAt =>
    if h : ':' ∉ uid.toList then .delivered ⟨⟨uid, h⟩, oid, some (isoformat deliveredAt), productIds⟩
    else .malformed
  | _ => .other

/-- It is what `handle_event` makes of the bytes. -/
theorem received_message (repr : Json → String) (isoformat : Nat → String) {ev : Event}
    (h : received isoformat ev ≠ .malformed) (c : Reviews.Collection) :
    Reviews.handleMessage repr c (ev.message isoformat) = Reviews.handleEvent c (received isoformat ev) := by
  cases ev with
  | delivered oid uid productIds deliveredAt =>
    simp only [received] at h ⊢
    split at h
    · rename_i huid
      rw [dif_pos huid]
      exact Checkout.handleMessage_delivered repr isoformat ⟨uid, huid⟩ oid productIds deliveredAt c
    · exact absurd rfl h
  | _ => exact Checkout.handleMessage_other repr isoformat (by simp [Checkout.Event.type]) c

theorem received_delivered {isoformat : Nat → String} {ev : Event} {e : Delivered}
    (h : received isoformat ev = .delivered e) :
    ∃ deliveredAt, ev = .delivered e.orderId e.userId.text e.productIds deliveredAt := by
  cases ev with
  | delivered oid uid productIds deliveredAt =>
    simp only [received] at h
    split at h
    · cases h
      exact ⟨deliveredAt, rfl⟩
    · cases h
  | _ => cases h

/-! ## The system -/

structure System where
  shop : Checkout.Sys
  /-- the `order-events` topic and review-service's consumers -/
  group : Kafka.Group Event
  reviews : Reviews.System
  /-- the process, of `reviews`, of the `handle_event` a consumer is in -/
  working : Nat → Option Nat

inductive Lbl
  | shop (l : Checkout.Lbl)
  /-- the consumers, but for `handle_event` -/
  | group (l : Kafka.Lbl Event)
  /-- consumer `i` calls `handle_event` -/
  | enter (i : Nat)
  | leave (i : Nat) (returns : Bool)
  | request (user : UserId) (body : ReviewIn)
  /-- process `k` of review-service performs its next operation -/
  | next (k now : Nat)
  /-- request `k` ends -/
  | crash (k : Nat)

/-- New messages, each at the end of its partition. -/
def append (partitionOf : String → Nat) (g : Kafka.Group Event) (evs : List Event) : Kafka.Group Event :=
  evs.foldl (fun g ev =>
    { g with log := Function.update g.log (partitionOf ev.orderId) (g.log (partitionOf ev.orderId) ++ [ev]) }) g

/-- The requests of authenticated users. -/
def authentic : Checkout.Lbl → Bool
  | .request r => decide (':' ∉ r.userId.toList)
  | _ => true

/-- What happens in `handle_event`, and new messages, are steps of their own. -/
def ofGroup : Kafka.Lbl Event → Bool
  | .append .. => false
  | .consumer _ (.handle _) => false
  | _ => true

namespace System

def start (cat : Catalog.Products) : System :=
  ⟨Checkout.start cat, .start fun _ => [], Reviews.System.start, fun _ => none⟩

/-- The message consumer `i` is to handle. -/
def hand (s : System) (i : Nat) : Option Event :=
  (s.group.inHand i).bind fun m => (s.group.log m.1)[m.2]?

/-- The `handle_event` of consumer `i`, if it is in one, does nothing more. -/
def abandon (s : System) (i : Nat) : System :=
  match s.working i with
  | some k =>
    { s with
      reviews := (Reviews.System.step s.reviews (.crash k)).getD s.reviews
      working := Function.update s.working i none }
  | none => s

/-- The `handle_event` of consumer `i` has got to its end. -/
def complete (s : System) (i : Nat) (e : Delivered) : Bool :=
  match (s.working i).bind fun k => s.reviews.procs[k]? with
  | some x =>
    match x.task with
    | .event e' n => e' = e && n = e.productIds.length
    | .create .. => false
  | none => false

/-- `handle_event` may return. -/
def returns (isoformat : Nat → String) (s : System) (i : Nat) (ev : Event) : Bool :=
  match received isoformat ev with
  | .delivered e => s.complete i e
  | .other => true
  | .malformed => false

def step (cfg : Config) (s : System) : Lbl → Option System
  | .shop l =>
    if authentic l then
      (Checkout.step cfg.shop s.shop l).map fun shop =>
        { s with
          shop := shop
          group := append cfg.partitionOf s.group (shop.topic.drop s.shop.topic.length) }
    else none
  | .group l =>
    if ofGroup l then
      (Kafka.Group.step cfg.consumer s.group l).map fun g =>
        match l with
        | .crash i => { s with group := g }.abandon i
        | _ => { s with group := g }
    else none
  | .enter i =>
    if (s.working i).isNone && (s.group.consumers[i]?).any Kafka.Consumer.alive then
      match (s.hand i).map (received cfg.isoformat) with
      | some (.delivered e) => (Reviews.System.step s.reviews (.consume (.delivered e))).map fun r =>
        { s with reviews := r, working := Function.update s.working i (some s.reviews.procs.length) }
      | _ => none
    else none
  | .leave i returned =>
    match s.hand i with
    | some ev =>
      if !returned || s.returns cfg.isoformat i ev then
        (Kafka.Group.step cfg.consumer s.group (.consumer i (.handle returned))).map fun g =>
          { s with group := g }.abandon i
      else none
    | none => none
  | .request user body =>
    (Reviews.System.step s.reviews (.request user body)).map fun r => { s with reviews := r }
  | .next k now => (Reviews.System.step s.reviews (.next k now)).map fun r => { s with reviews := r }
  | .crash k =>
    match (s.reviews.procs[k]?).map Reviews.Proc.task with
    | some (.create ..) => (Reviews.System.step s.reviews (.crash k)).map fun r => { s with reviews := r }
    | _ => none

def lts (cfg : Config) (cat : Catalog.Products) : LTS System Lbl := LTS.ofFn (· = start cat) (step cfg)

/-- A `flush` returns only once the message it follows has been delivered. -/
def flushed (s : System) : Lbl → Bool
  | .group l => s.group.flushed l
  | _ => true

def flushedLts (cfg : Config) (cat : Catalog.Products) : LTS System Lbl :=
  (lts cfg cat).restrict fun s l => flushed s l = true

/-! ## What a step does -/

/-- What a step does to review-service: nothing, or one step of its own that takes up no event. -/
def Works (s s' : System) : Prop :=
  s'.reviews = s.reviews ∨
    ∃ l, (∀ ev, l ≠ .consume ev) ∧ Reviews.System.step s.reviews l = some s'.reviews

/-- What one step can do. -/
inductive Steps (cfg : Config) (s : System) : Lbl → System → Prop
  | shop {l : Checkout.Lbl} {shop : Checkout.Sys} : authentic l = true →
      Checkout.step cfg.shop s.shop l = some shop →
      Steps cfg s (.shop l) { s with
        shop := shop
        group := append cfg.partitionOf s.group (shop.topic.drop s.shop.topic.length) }
  | group {l : Kafka.Lbl Event} {s' : System} : ofGroup l = true →
      Kafka.Group.step cfg.consumer s.group l = some s'.group → s'.shop = s.shop → Works s s' →
      Steps cfg s (.group l) s'
  | enter {i : Nat} {e : Delivered} {r : Reviews.System} {working : Nat → Option Nat} {ev : Event} :
      s.hand i = some ev → received cfg.isoformat ev = .delivered e →
      Reviews.System.step s.reviews (.consume (.delivered e)) = some r →
      Steps cfg s (.enter i) { s with reviews := r, working := working }
  | leave {i : Nat} {returned : Bool} {ev : Event} {s' : System} : s.hand i = some ev →
      (returned = true → s.returns cfg.isoformat i ev = true) →
      Kafka.Group.step cfg.consumer s.group (.consumer i (.handle returned)) = some s'.group →
      s'.shop = s.shop → Works s s' → Steps cfg s (.leave i returned) s'
  | work {l : Lbl} {s' : System} : s'.shop = s.shop → s'.group = s.group → Works s s' → Steps cfg s l s'

variable {cfg : Config} {cat : Catalog.Products} {s s' : System} {l : Lbl}

theorem abandon_works (s : System) (i : Nat) :
    (s.abandon i).shop = s.shop ∧ (s.abandon i).group = s.group ∧ Works s (s.abandon i) := by
  unfold abandon
  split
  · rename_i k _
    refine ⟨rfl, rfl, ?_⟩
    cases hk : Reviews.System.step s.reviews (.crash k) with
    | none => exact .inl rfl
    | some r => exact .inr ⟨_, by simp, hk⟩
  · exact ⟨rfl, rfl, .inl rfl⟩

theorem steps_of_step (h : step cfg s l = some s') : Steps cfg s l s' := by
  cases l with
  | shop l =>
    simp only [step] at h
    split at h
    · rename_i hl
      obtain ⟨shop, hst, rfl⟩ := Option.map_eq_some_iff.mp h
      exact .shop hl hst
    · cases h
  | group l =>
    simp only [step] at h
    split at h
    · rename_i hl
      obtain ⟨g, hst, rfl⟩ := Option.map_eq_some_iff.mp h
      split
      · rename_i i
        obtain ⟨hshop, hgroup, hworks⟩ := abandon_works { s with group := g } i
        exact .group hl (hgroup ▸ hst) hshop hworks
      · exact .group hl hst rfl (.inl rfl)
    · cases h
  | enter i =>
    simp only [step] at h
    split at h
    · split at h
      · rename_i e he
        obtain ⟨ev, hev, hrec⟩ := Option.map_eq_some_iff.mp he
        obtain ⟨r, hst, rfl⟩ := Option.map_eq_some_iff.mp h
        exact .enter hev hrec hst
      · cases h
    · cases h
  | leave i returned =>
    simp only [step] at h
    split at h
    · rename_i ev hev
      split at h
      · rename_i hret
        obtain ⟨g, hst, rfl⟩ := Option.map_eq_some_iff.mp h
        obtain ⟨hshop, hgroup, hworks⟩ := abandon_works { s with group := g } i
        refine .leave hev (fun hr => ?_) (hgroup ▸ hst) hshop hworks
        simpa [hr] using hret
      · cases h
    · cases h
  | request user body =>
    simp only [step] at h
    obtain ⟨r, hst, rfl⟩ := Option.map_eq_some_iff.mp h
    exact .work rfl rfl (.inr ⟨_, by simp, hst⟩)
  | next k now =>
    simp only [step] at h
    obtain ⟨r, hst, rfl⟩ := Option.map_eq_some_iff.mp h
    exact .work rfl rfl (.inr ⟨_, by simp, hst⟩)
  | crash k =>
    simp only [step] at h
    split at h
    · obtain ⟨r, hst, rfl⟩ := Option.map_eq_some_iff.mp h
      exact .work rfl rfl (.inr ⟨_, by simp, hst⟩)
    · cases h

/-! ## Each part is what it is alone -/

theorem shop_reachable (h : (lts cfg cat).Reachable s) : (Checkout.lts cfg.shop cat).Reachable s.shop := by
  have hsim : LTS.Simulation (lts cfg cat) (Checkout.lts cfg.shop cat) System.shop := by
    constructor
    · rintro s rfl
      rfl
    · intro s l s' _ hst
      cases steps_of_step hst with
      | shop _ hshop => exact .inr ⟨_, hshop⟩
      | group _ _ hsame _ => exact .inl hsame
      | leave _ _ _ hsame _ => exact .inl hsame
      | enter => exact .inl rfl
      | work hsame => exact .inl hsame
  exact hsim.reachable h

theorem reviews_reachable (h : (lts cfg cat).Reachable s) : Reviews.System.lts.Reachable s.reviews := by
  have hsim : LTS.Simulation (lts cfg cat) Reviews.System.lts System.reviews := by
    constructor
    · rintro s rfl
      rfl
    · intro s l s' _ hst
      have hworks : Works s s' → s'.reviews = s.reviews ∨
          ∃ l, Reviews.System.step s.reviews l = some s'.reviews :=
        fun hw => hw.imp_right fun ⟨l, _, hr⟩ => ⟨l, hr⟩
      cases steps_of_step hst with
      | shop => exact .inl rfl
      | group _ _ _ hw => exact hworks hw
      | leave _ _ _ _ hw => exact hworks hw
      | enter _ _ hr => exact .inr ⟨_, hr⟩
      | work _ _ hw => exact hworks hw
  exact hsim.reachable h

section Append

variable (partitionOf : String → Nat) (g : Kafka.Group Event) (evs : List Event)

theorem append_log (p : Nat) :
    (append partitionOf g evs).log p = g.log p ++ evs.filter fun ev => partitionOf ev.orderId = p := by
  induction evs generalizing g with
  | nil => exact (List.append_nil _).symm
  | cons ev evs ih =>
    rw [append, List.foldl_cons, ← append, ih, List.filter_cons]
    by_cases hp : partitionOf ev.orderId = p
    · subst hp
      simp
    · simp [hp, Function.update_of_ne (Ne.symm hp)]

theorem append_calls : (append partitionOf g evs).calls = g.calls := by
  induction evs generalizing g with
  | nil => rfl
  | cons ev evs ih => exact ih _

variable {g}

theorem append_reachable (h : (Kafka.Group.flushedLts cfg.consumer fun _ => []).Reachable g) :
    (Kafka.Group.flushedLts cfg.consumer fun _ => []).Reachable (append partitionOf g evs) := by
  induction evs generalizing g with
  | nil => exact h
  | cons ev evs ih => exact ih (h.step (l := .append (partitionOf ev.orderId) ev) ⟨rfl, rfl⟩)

end Append

theorem group_reachable (h : (flushedLts cfg cat).Reachable s) :
    (Kafka.Group.flushedLts cfg.consumer fun _ => []).Reachable s.group := by
  refine LTS.reachable_induct (I := fun s =>
    (Kafka.Group.flushedLts cfg.consumer fun _ => []).Reachable s.group) ?_ ?_ h
  · rintro s rfl
    exact .of_init rfl
  · rintro s l s' - hI ⟨hst, hfl⟩
    cases steps_of_step hst with
    | shop => exact append_reachable _ _ hI
    | group _ hg _ _ => exact hI.step ⟨hg, hfl⟩
    | leave _ _ hg _ _ => exact hI.step ⟨hg, rfl⟩
    | enter => exact hI
    | work _ hg => exact hg ▸ hI

/-! ## How they are connected -/

/-- A consumer's step outside `handle_event` ends no call and adds no message. -/
theorem group_frame {c : Kafka.Settings} {g g' : Kafka.Group Event} {l : Kafka.Lbl Event}
    (hl : ofGroup l = true) (h : Kafka.Group.step c g l = some g') : g'.calls = g.calls ∧ g'.log = g.log := by
  refine ⟨(Kafka.Group.step_frame h ?_).1, Kafka.Group.step_log h ?_⟩
  · rintro i returns rfl
    cases hl
  · rintro p msg rfl
    cases hl

/-- An event in work was so before, or is being taken up. -/
theorem event_from {r r' : Reviews.System} {l : Reviews.Lbl} (h : Reviews.System.step r l = some r')
    {k : Nat} {x' : Reviews.Proc} {e : Delivered} {n : Nat} (hx' : r'.procs[k]? = some x')
    (ht : x'.task = .event e n) :
    (∃ x n', r.procs[k]? = some x ∧ x.task = .event e n') ∨ l = .consume (.delivered e) := by
  cases l with
  | request user body =>
    cases h
    rcases Procs.spawn_cases hx' with hx | ⟨-, rfl⟩
    · exact .inl ⟨x', n, hx, ht⟩
    · cases ht
  | consume ev =>
    cases ev with
    | delivered e' =>
      cases h
      rcases Procs.spawn_cases hx' with hx | ⟨-, rfl⟩
      · exact .inl ⟨x', n, hx, ht⟩
      · cases ht
        exact .inr rfl
    | other | malformed =>
      cases h
      exact .inl ⟨x', n, hx', ht⟩
  | crash i =>
    simp only [Reviews.System.step] at h
    split at h
    · rename_i x hx
      cases h
      rcases Procs.set_cases hx hx' with ⟨rfl, rfl⟩ | ⟨-, hold⟩
      · exact .inl ⟨x, n, hx, ht⟩
      · exact .inl ⟨x', n, hold, ht⟩
    · cases h
  | next i now =>
    simp only [Reviews.System.step] at h
    split at h
    · rename_i x hx
      split at h
      · obtain ⟨⟨st, t'⟩, hst, rfl⟩ := Option.map_eq_some_iff.mp h
        rcases Procs.set_cases hx hx' with ⟨rfl, rfl⟩ | ⟨-, hold⟩
        · have hm := Reviews.System.moves_of_step hst
          simp only at ht
          subst ht
          generalize htask : x.task = t at hm
          cases hm with
          | upsert hp => exact .inl ⟨x, _, hx, htask⟩
        · exact .inl ⟨x', n, hold, ht⟩
      · cases h
    · cases h

/-- Some `handle_event` has got through the whole event. -/
def Through (r : Reviews.System) (e : Delivered) : Prop :=
  ∃ (k : Nat) (x : Reviews.Proc) (n : Nat), r.procs[k]? = some x ∧ x.task = .event e n ∧
    e.productIds.length ≤ n

theorem Through.step {r r' : Reviews.System} {l : Reviews.Lbl} {e : Delivered} (he : Through r e)
    (h : Reviews.System.step r l = some r') : Through r' e := by
  obtain ⟨k, x, n, hx, ht, hn⟩ := he
  obtain ⟨x', n', hx', hle, ht'⟩ := Reviews.System.event_kept (Reviews.System.steps_of_step h) hx ht
  exact ⟨k, x', n', hx', ht', hn.trans hle⟩

theorem Works.through {e : Delivered} (hw : Works s s') (he : Through s.reviews e) :
    Through s'.reviews e := by
  rcases hw with hsame | ⟨l, -, hr⟩
  · exact hsame ▸ he
  · exact he.step hr

/-- The topic, its partitions, and the `handle_event` calls. -/
structure Linked (cfg : Config) (s : System) : Prop where
  log : ∀ p, s.group.log p = s.shop.topic.filter fun ev => cfg.partitionOf ev.orderId = p
  /-- what is handled is on the topic -/
  origin : ∀ (k : Nat) (x : Reviews.Proc) (e : Delivered) (n : Nat), s.reviews.procs[k]? = some x →
    x.task = .event e n → ∃ ev ∈ s.shop.topic, received cfg.isoformat ev = .delivered e
  /-- a call that has returned has got through its event -/
  handled : ∀ m, (m, true) ∈ s.group.calls → ∃ ev, (s.group.log m.1)[m.2]? = some ev ∧
    ∀ e, received cfg.isoformat ev = .delivered e → Through s.reviews e

/-- Every message a consumer has in hand is on the topic. -/
theorem Linked.hand (hI : Linked cfg s) {i : Nat} {ev : Event} (h : s.hand i = some ev) :
    ev ∈ s.shop.topic := by
  obtain ⟨m, -, hm⟩ := Option.bind_eq_some_iff.mp h
  rw [hI.log] at hm
  exact (List.mem_filter.mp (List.mem_of_getElem? hm)).1

theorem Linked.origin_works (hI : Linked cfg s) (hw : Works s s') {k : Nat} {x : Reviews.Proc}
    {e : Delivered} {n : Nat} (hx : s'.reviews.procs[k]? = some x) (ht : x.task = .event e n) :
    ∃ ev ∈ s.shop.topic, received cfg.isoformat ev = .delivered e := by
  rcases hw with hsame | ⟨l, hl, hr⟩
  · exact hI.origin k x e n (hsame ▸ hx) ht
  · rcases event_from hr hx ht with ⟨x₀, n₀, hx₀, ht₀⟩ | hl'
    · exact hI.origin k x₀ e n₀ hx₀ ht₀
    · exact absurd hl' (hl _)

/-- A step that leaves the topic and the calls alone. -/
theorem Linked.works (hI : Linked cfg s) (hshop : s'.shop = s.shop) (hlog : s'.group.log = s.group.log)
    (hcalls : s'.group.calls = s.group.calls) (hw : Works s s') : Linked cfg s' where
  log := by
    rw [hshop, hlog]
    exact hI.log
  origin k x e n hx ht := by
    rw [hshop]
    exact hI.origin_works hw hx ht
  handled m hm := by
    rw [hcalls] at hm
    obtain ⟨ev, hev, hthrough⟩ := hI.handled m hm
    exact ⟨ev, hlog ▸ hev, fun e he => hw.through (hthrough e he)⟩

/-- `handle_event` returns only at the end of the event. -/
theorem through_of_returns {i : Nat} {ev : Event} (h : s.returns cfg.isoformat i ev = true) {e : Delivered}
    (he : received cfg.isoformat ev = .delivered e) : Through s.reviews e := by
  simp only [returns, he, complete] at h
  split at h
  · rename_i x hx
    obtain ⟨k, -, hk⟩ := Option.bind_eq_some_iff.mp hx
    split at h
    · rename_i e' n ht
      simp only [Bool.and_eq_true, decide_eq_true_eq] at h
      obtain ⟨rfl, rfl⟩ := h
      exact ⟨k, x, _, hk, ht, Nat.le_refl _⟩
    · cases h
  · cases h

theorem linked_step (hI : Linked cfg s) (h : step cfg s l = some s') : Linked cfg s' := by
  cases steps_of_step h with
  | @shop l shop _ hst =>
    obtain ⟨evs, htopic, -⟩ := Checkout.step_topic hst
    have hdrop : shop.topic.drop s.shop.topic.length = evs := by rw [htopic, List.drop_left]
    constructor
    · intro p
      simp only [append_log, hdrop]
      rw [hI.log p, htopic, List.filter_append]
    · intro k x e n hx ht
      obtain ⟨ev, hev, hrec⟩ := hI.origin k x e n hx ht
      exact ⟨ev, htopic ▸ List.mem_append_left _ hev, hrec⟩
    · intro m hm
      simp only [append_calls] at hm
      obtain ⟨ev, hev, hthrough⟩ := hI.handled m hm
      refine ⟨ev, ?_, hthrough⟩
      simp only [append_log]
      rw [List.getElem?_append_left (Procs.lt_of hev)]
      exact hev
  | group hl hst hshop hw =>
    obtain ⟨hcalls, hlog⟩ := group_frame hl hst
    exact hI.works hshop hlog hcalls hw
  | @enter i e r working ev hhand hrec hst =>
    refine ⟨hI.log, fun k x e' n hx ht => ?_, fun m hm => ?_⟩
    · rcases event_from hst hx ht with ⟨x₀, n₀, hx₀, ht₀⟩ | he
      · exact hI.origin k x₀ e' n₀ hx₀ ht₀
      · cases he
        exact ⟨ev, hI.hand hhand, hrec⟩
    · obtain ⟨ev', hev', hthrough⟩ := hI.handled m hm
      exact ⟨ev', hev', fun e' he' => (hthrough e' he').step hst⟩
  | @leave i returned ev _ hhand hret hst hshop hw =>
    obtain ⟨m₀, hin, hcalls, hlog⟩ := Kafka.Group.step_handle hst
    refine ⟨?_, fun k x e n hx ht => ?_, fun m hm => ?_⟩
    · rw [hshop, hlog]
      exact hI.log
    · rw [hshop]
      exact hI.origin_works hw hx ht
    · rw [hcalls] at hm
      rw [hlog]
      rcases List.mem_append.mp hm with hm | hm
      · obtain ⟨ev', hev', hthrough⟩ := hI.handled m hm
        exact ⟨ev', hev', fun e he => hw.through (hthrough e he)⟩
      · -- the call that has just returned
        obtain ⟨rfl, rfl⟩ := Prod.mk.inj (List.mem_singleton.mp hm)
        simp only [hand, hin, Option.bind_some] at hhand
        exact ⟨ev, hhand, fun e he => hw.through (through_of_returns (hret rfl) he)⟩
  | work hshop hg hw => exact hI.works hshop (by rw [hg]) (by rw [hg]) hw

theorem linked (h : (lts cfg cat).Reachable s) : Linked cfg s := by
  refine LTS.reachable_induct ?_ ?_ h
  · rintro s rfl
    exact ⟨fun _ => rfl, fun k x e n hx => by simp [start, Reviews.System.start] at hx, nofun⟩
  · intro s l s' _ hI hst
    exact linked_step hI hst

/-! ## User ids -/

/-- The request of a `create_order` run is the one it was started with. -/
theorem request_from {t t' : Checkout.Sys} {l : Checkout.Lbl} (h : Checkout.step cfg.shop t l = some t')
    {g' : Checkout.Saga} (hg' : g' ∈ t'.sagas) : (∃ g ∈ t.sagas, g'.req = g.req) ∨ l = .request g'.req := by
  have hset : ∀ {i : Nat} {g g₁ : Checkout.Saga}, t.sagas[i]? = some g → g₁.req = g.req →
      g' ∈ t.sagas.set i g₁ → ∃ g ∈ t.sagas, g'.req = g.req := by
    intro i g g₁ hg hreq hmem
    rcases List.mem_or_eq_of_mem_set hmem with hmem | rfl
    · exact ⟨g', hmem, rfl⟩
    · exact ⟨g, List.mem_of_getElem? hg, hreq⟩
  cases Checkout.step_shape h with
  | spawn r =>
    rcases List.mem_append.mp hg' with hg' | hg'
    · exact .inl ⟨g', hg', rfl⟩
    · obtain rfl := List.mem_singleton.mp hg'
      exact .inr rfl
  | run i a t' hrun =>
    cases hrun with
    | prelude g g₁ e hg hal hne hm => exact .inl (hset hg (by cases hm <;> rfl) hg')
    | saga g oid pc pc' e hg hal hp hm => exact .inl (hset hg (by rfl) hg')
  | crash i g hg => exact .inl (hset hg (by rfl) hg')
  | pay => exact .inl ⟨g', hg', rfl⟩
  | other l c e t' hb _ => exact .inl ⟨g', hb.sagas ▸ hg', rfl⟩

theorem requests_authentic (h : (lts cfg cat).Reachable s) :
    ∀ g ∈ s.shop.sagas, ':' ∉ g.req.userId.toList := by
  refine LTS.reachable_induct (I := fun s => ∀ g ∈ s.shop.sagas, ':' ∉ g.req.userId.toList) ?_ ?_ h
  · rintro s rfl g hg
    cases hg
  · intro s l s' _ hI hst
    cases steps_of_step hst with
    | shop hl hshop =>
      intro g' hg'
      rcases request_from hshop hg' with ⟨g, hg, hreq⟩ | rfl
      · exact hreq ▸ hI g hg
      · exact of_decide_eq_true hl
    | group _ _ hsame _ => exact hsame ▸ hI
    | leave _ _ _ hsame _ => exact hsame ▸ hI
    | enter => exact hI
    | work hsame => exact hsame ▸ hI

/-- What is delivered is delivered to an authenticated user. -/
theorem delivered_user (h : (lts cfg cat).Reachable s) {oid uid : String} {productIds : List String}
    {deliveredAt : Nat} (hev : .delivered oid uid productIds deliveredAt ∈ s.shop.topic) :
    ∃ user : UserId, user.text = uid := by
  have hshop := shop_reachable h
  have K := Checkout.keys_reachable hshop
  obtain ⟨i, hi, hcall⟩ := Checkout.topic_published hshop _ hev
  obtain ⟨order, hseen, -, huid, -⟩ := Checkout.published_about hshop i hi _ hcall
  obtain ⟨j, g, pc, hg, hp⟩ := K.owner order.core hseen.core
  obtain ⟨c, hc, hid, -, huser, -, -⟩ := (K.saga j g hg).own _ pc hp
  obtain rfl : c = order.core := K.ids.eq hc hseen.core hid
  refine ⟨⟨uid, ?_⟩, rfl⟩
  rw [huid, show order.userId = g.req.userId from huser]
  exact requests_authentic h g (List.mem_of_getElem? hg)

/-! ## Purchases and reviews -/

/-- **Verified purchases.** Every review is by a customer who has an order of the product: it has been
announced as delivered, and payment-service has charged it once, for what its line items come to, which is
their cost if the ids of the catalog lead to its products. -/
theorem verified_purchase (h : (lts cfg cat).Reachable s) : ∀ r ∈ s.reviews.store.reviews,
    ∃ o ∈ s.shop.db.orders, o.userId = r.userId.text ∧
      (∃ l ∈ linesOf s.shop.db o.id, l.productId = r.productId) ∧
      (∃ deliveredAt, Event.delivered o.id o.userId ((linesOf s.shop.db o.id).map Orders.Line.productId)
        deliveredAt ∈ s.shop.topic) ∧
      ∃ e, s.shop.pay.execs.filter (Checkout.successUnder o.idempotencyKey) = [e] ∧
        e.body.orderId = o.id ∧ e.body.amount = Checkout.quote cfg.shop s.shop.cat (linesOf s.shop.db o.id) ∧
        (Lookup.Addressable cfg.shop.catalogService cat →
          e.body.amount = Checkout.cost s.shop.cat (linesOf s.shop.db o.id)) := by
  intro r hr
  have hshop := shop_reachable h
  have R := Reviews.System.rights (reviews_reachable h)
  -- the event that wrote the document
  obtain ⟨k, x, e, n, hx, ht, hkey⟩ := R.documents _ (R.stored r hr)
  obtain ⟨p, hp, hid⟩ := List.mem_map.mp (List.mem_of_mem_take hkey)
  obtain ⟨huser, rfl⟩ := Reviews.eligibilityId_inj hid
  obtain ⟨ev, hev, hrec⟩ := (linked h).origin k x e n hx ht
  obtain ⟨deliveredAt, rfl⟩ := received_delivered hrec
  -- what order-service published, and of which order
  obtain ⟨i, hi, hcall⟩ := Checkout.topic_published hshop _ hev
  obtain ⟨order, hseen, hoid, huid, hproducts⟩ := Checkout.published_about hshop i hi _ hcall
  obtain ⟨c, hc, hcid, hcharged⟩ := Checkout.published_paidFor hshop i hi _ hcall (.inr rfl)
  obtain rfl : c = order.core := (Checkout.keys_reachable hshop).ids.eq hc hseen.core (hcid.trans hoid)
  obtain ⟨o, ho, hcore⟩ := Orders.mem_cores.mp hc
  have hio : o.id = e.orderId := (congrArg Orders.Core.id hcore).trans hoid.symm
  have huo : o.userId = e.userId.text := (congrArg Orders.Core.userId hcore).trans huid.symm
  have hlines : (linesOf s.shop.db o.id).map Orders.Line.productId = e.productIds := by
    rw [hio, hoid]
    exact hproducts.symm
  have hko : o.idempotencyKey = order.core.idempotencyKey := congrArg Orders.Core.idempotencyKey hcore
  refine ⟨o, ho, huo.trans (congrArg UserId.text huser), ?_, ⟨deliveredAt, ?_⟩, ?_⟩
  · exact List.mem_map.mp (hlines ▸ hp)
  · rw [hio, huo]
    rw [hio] at hlines
    rw [hlines]
    exact hev
  · obtain ⟨x, hx, hid, hamount, hlines⟩ := Checkout.charged_once hshop ho (hko ▸ hcharged)
    exact ⟨x, hx, hid, hamount.trans (Checkout.amount_quote hshop ho),
      fun ha => hamount.trans (Checkout.amount_cost hshop ha ho hlines)⟩

/-- A document there is lets its user review, unless a review is stored. -/
theorem reviewable_of_has (R : s.reviews.Rights) {user : UserId} {p : String}
    (h : s.reviews.store.eligibility.Has (eligibilityId user p)) :
    (∃ d, s.reviews.store.eligibility.findUnreviewed (eligibilityId user p) = some d) ∨
      ∃ r ∈ s.reviews.store.reviews, r.userId = user ∧ r.productId = p := by
  obtain ⟨b, hb⟩ := h
  cases b with
  | false =>
    obtain ⟨d, hd, hdb⟩ := Option.map_eq_some_iff.mp hb
    exact .inl ⟨d, (Reviews.Collection.findUnreviewed_eq _ _).mpr ⟨hd, hdb⟩⟩
  | true =>
    obtain ⟨r, hr, hid⟩ := R.flagged _ hb
    obtain ⟨hu, hp⟩ := Reviews.eligibilityId_inj hid
    exact .inr ⟨r, hr, hu.symm, hp.symm⟩

/-- **Every delivered purchase can be reviewed.** The partitions hold what order-service has published, in
its order. Once a message that an order has been delivered is committed past and has not been forwarded, the
customer can review each of the order's products, or has; and nobody else can review anything. -/
theorem delivered_reviewable (h : (flushedLts cfg cat).Reachable s) :
    (∀ p, s.group.log p = s.shop.topic.filter fun ev => cfg.partitionOf ev.orderId = p) ∧
    (∀ m oid uid productIds deliveredAt,
      (s.group.log m.1)[m.2]? = some (.delivered oid uid productIds deliveredAt) →
      m.2 < s.group.committed m.1 → m ∉ s.group.dlq → ∃ user : UserId, user.text = uid ∧
        ∀ p ∈ productIds,
          (∃ d, s.reviews.store.eligibility.findUnreviewed (eligibilityId user p) = some d) ∨
            ∃ r ∈ s.reviews.store.reviews, r.userId = user ∧ r.productId = p) ∧
    ∀ (user : UserId) p d, s.reviews.store.eligibility.findUnreviewed (eligibilityId user p) = some d →
      ∃ oid productIds deliveredAt, p ∈ productIds ∧
        Event.delivered oid user.text productIds deliveredAt ∈ s.shop.topic := by
  have hr : (lts cfg cat).Reachable s := h.unrestrict
  have L := linked hr
  have R := Reviews.System.rights (reviews_reachable hr)
  refine ⟨L.log, ?_, ?_⟩
  · intro m oid uid productIds deliveredAt hm hcom hdlq
    have htopic : Event.delivered oid uid productIds deliveredAt ∈ s.shop.topic := by
      rw [L.log] at hm
      exact (List.mem_filter.mp (List.mem_of_getElem? hm)).1
    obtain ⟨user, rfl⟩ := delivered_user hr htopic
    refine ⟨user, rfl, fun p hp => ?_⟩
    obtain ⟨ev, hev, hthrough⟩ := L.handled m
      (((Kafka.Group.inv_reachable (group_reachable h)).committed m.1 m.2 hcom).resolve_right hdlq)
    obtain rfl := Option.some.inj (hm.symm.trans hev)
    have hrec : received cfg.isoformat (.delivered oid user.text productIds deliveredAt) =
        .delivered ⟨user, oid, some (cfg.isoformat deliveredAt), productIds⟩ := dif_pos user.noColon
    obtain ⟨k, x, n, hx, ht, hn⟩ := hthrough _ hrec
    have hok := R.procs x (List.mem_of_getElem? hx)
    rw [ht] at hok
    refine reviewable_of_has R (hok _ ?_)
    rw [List.take_of_length_le (by simpa [Delivered.keys] using hn)]
    exact List.mem_map_of_mem hp
  · intro user p d hd
    have hhas : s.reviews.store.eligibility.Has (eligibilityId user p) :=
      ⟨d.reviewed, by rw [Reviews.Collection.reviewed, ((Reviews.Collection.findUnreviewed_eq _ _).mp hd).1]; rfl⟩
    obtain ⟨k, x, e, n, hx, ht, hkey⟩ := R.documents _ hhas
    obtain ⟨q, hq, hid⟩ := List.mem_map.mp (List.mem_of_mem_take hkey)
    obtain ⟨rfl, rfl⟩ := Reviews.eligibilityId_inj hid
    obtain ⟨ev, hev, hrec⟩ := L.origin k x e n hx ht
    obtain ⟨deliveredAt, rfl⟩ := received_delivered hrec
    exact ⟨_, _, deliveredAt, hq, hev⟩

/-! ## A purchase, its delivery and its review -/

def onePartition : Config := { partitionOf := fun _ => 0, isoformat := toString }

def buyer : UserId := ⟨"u1", by decide⟩

def aboutPens : ReviewIn := ⟨"p1", none, 4, "write well", by decide, by decide⟩

/-- Consumer 0 crashes in its `handle_event` of the delivery; consumer 1 handles it again, and the buyer
writes a review. -/
def reviewed : List Lbl :=
  let other := [Lbl.group (.consumer 0 (.poll 0)), .leave 0 true, .group (.consumer 0 (.commit .accepted))]
  Checkout.paidAndAbandoned.map .shop ++ [.group .join, .group (.assign 0 0)] ++ other ++ other ++ other ++
    other ++ [.group (.consumer 0 (.poll 0)), .enter 0, .next 0 0, .group (.crash 0), .group .join,
      .group (.assign 1 0), .group (.consumer 1 (.poll 0)), .enter 1, .next 1 0, .next 1 0, .leave 1 true,
      .group (.consumer 1 (.commit .accepted)), .request buyer aboutPens, .next 2 7, .next 2 8]

/-- The review is stored, and its document not yet flagged. -/
theorem reviewed_purchase : ∃ s, (lts onePartition Checkout.shop).Reachable s ∧
    ∃ r ∈ s.reviews.store.reviews, ∃ o ∈ s.shop.db.orders, o.userId = r.userId.text ∧
      ∃ e, s.shop.pay.execs.filter (Checkout.successUnder o.idempotencyKey) = [e] ∧
        e.body.amount = Checkout.cost s.shop.cat (linesOf s.shop.db o.id) := by
  obtain ⟨s, hs, hp⟩ : ∃ s, (lts onePartition Checkout.shop).Reachable s ∧
      (!s.reviews.store.reviews.isEmpty) = true :=
    LTS.reachable_of_exec reviewed rfl (by decide +kernel)
  obtain ⟨r, hr⟩ := List.exists_mem_of_ne_nil s.reviews.store.reviews (by simpa using hp)
  obtain ⟨o, ho, hu, -, -, e, he, -, -, hcost⟩ := verified_purchase hs r hr
  exact ⟨s, hs, r, hr, o, ho, hu, e, he, hcost (by decide +kernel)⟩

theorem reviewed_delivery : ∃ s, (flushedLts onePartition Checkout.shop).Reachable s ∧
    ∃ user : UserId, user.text = "u1" ∧
      ((∃ d, s.reviews.store.eligibility.findUnreviewed (eligibilityId user "p1") = some d) ∨
        ∃ r ∈ s.reviews.store.reviews, r.userId = user ∧ r.productId = "p1") := by
  obtain ⟨s, hs, hp⟩ : ∃ s, (flushedLts onePartition Checkout.shop).Reachable s ∧
      (decide ((s.group.log 0)[4]? = some (Event.delivered "o1" "u1" ["p1", "p1"] 61)) &&
        decide (4 < s.group.committed 0) && decide ((0, 4) ∉ s.group.dlq)) = true :=
    LTS.reachable_of_execG reviewed rfl (by decide +kernel)
  simp only [Bool.and_eq_true, decide_eq_true_eq] at hp
  obtain ⟨⟨hlog, hcom⟩, hdlq⟩ := hp
  obtain ⟨user, hu, hall⟩ := (delivered_reviewable hs).2.1 (0, 4) "o1" "u1" ["p1", "p1"] 61 hlog hcom hdlq
  exact ⟨s, hs, user, hu, hall "p1" (by decide)⟩

end System
end Gestalt.Purchases
