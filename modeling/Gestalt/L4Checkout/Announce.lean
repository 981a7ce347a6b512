import Gestalt.L4Checkout.Recovery

/-!
# Commits and the events that announce them

A status, or `delivered`, is committed first and published afterwards. For an
order and an event type (a `Fact`), `committed` counts the rows that show it,
`announcing` the live processes that have committed it and are still to publish,
and `published` the events on the topic. `Books` is what one step does to the
three: a commit adds a row that shows it and a process that is to announce it, a
publish moves the fact from the process to the topic, and a crash or a publish
that is lost drops it.

`EventLog` proves that no fact is published that is not committed,
`Bugs.LostEvents` when each one that is committed is published.
-/
namespace Gestalt.Checkout

open Gestalt.Orders (Db Order OrderItem OrderStatus Line Write cores)

variable {cfg : Config} {cat : Catalog.Products} {s s' : Sys}

inductive EventType
  | created
  | paid
  | failed
  | delivered
  deriving DecidableEq, Repr

def Event.type : Event → EventType
  | .created .. => .created
  | .paid .. => .paid
  | .failed .. => .failed
  | .delivered .. => .delivered

/-- The row shows what an event of the type reports. -/
def EventType.shownBy (o : Order) : EventType → Bool
  | .created => true
  | .paid => o.status = .paid
  | .failed => o.status = .failed
  | .delivered => o.delivered

/-- An order and an event type. -/
abbrev Fact := String × EventType

def Event.fact (e : Event) : Fact := (e.orderId, e.type)

/-- The event of a run's outcome. -/
def outcomeType (paid : Bool) : EventType := if paid then .paid else .failed

/-- What the run has committed and is still to publish. -/
def Pc.announces (oid : String) : Pc → Option Fact
  | .created => some (oid, .created)
  | .ended paid .refresh => some (oid, outcomeType paid)
  | .ended paid (.announce order) => some (order.id, outcomeType paid)
  | _ => none

def Saga.announces (g : Saga) : Option Fact :=
  match g.alive, g.phase with
  | true, .saga oid pc => pc.announces oid
  | _, _ => none

def Pass.announces (p : Pass) : Option Fact :=
  match p.alive, p.pc with
  | true, .refresh oid _ => some (oid, .failed)
  | true, .announce order _ => some (order.id, .failed)
  | _, _ => none

def DeliveryPass.announces (p : DeliveryPass) : Option Fact :=
  match p.alive, p.pc with
  | true, .refresh oid _ _ => some (oid, .delivered)
  | true, .announce order _ _ => some (order.id, .delivered)
  | _, _ => none

def published (s : Sys) (f : Fact) : Nat := s.topic.countP fun e => e.fact = f

def announcing (s : Sys) (f : Fact) : Nat :=
  Procs.holding Saga.announces s.sagas f + Procs.holding Pass.announces s.passes f +
    Procs.holding DeliveryPass.announces s.deliveries f

def committed (s : Sys) (f : Fact) : Nat := s.db.orders.countP fun o => o.id = f.1 && f.2.shownBy o

/-! ## Effects -/

/-- What an effect does to the topic. -/
def Eff.onTopic (t : List Event) : Eff → List Event
  | .publish ev logged => if logged then t ++ [ev] else t
  | _ => t

@[simp] theorem apply_topic (s : Sys) (c : Caller) (e : Eff) :
    (s.apply c e).topic = e.onTopic s.topic := by
  cases e <;> simp only [Sys.apply, Sys.perform, Eff.onTopic] <;> split <;> rfl

@[simp] theorem apply_deliveries (s : Sys) (c : Caller) (e : Eff) :
    (s.apply c e).deliveries = s.deliveries := by
  cases e <;> simp only [Sys.apply, Sys.perform] <;> split <;> rfl

/-- The effect neither adds nor changes a row that shows anything. -/
def Eff.shows (e : Eff) : Prop := e.inserts = false ∧
  ∀ now o (k : EventType), k.shownBy (e.onRow now o) = k.shownBy o

theorem shows_write {oid : String} {w : Write} (h1 : w.status = none) (h2 : w.delivered = none) :
    (Eff.write oid w).shows := by
  refine ⟨rfl, ?_⟩
  intro now o k
  simp only [Eff.onRow]
  split
  · cases k <;> simp [EventType.shownBy, Order.set, h1, h2] <;> split <;> rfl
  · rfl

theorem committed_shows {e : Eff} (h : e.shows) (hdb : s'.db = e.onDb s.now s.db) (f : Fact) :
    committed s' f = committed s f := by
  unfold committed
  rw [hdb, onDb_orders h.1, List.countP_map]
  congr 1
  funext o
  simp only [Function.comp_apply, onRow_id, h.2]

/-! ## One step -/

/-- The commit of a fact, and who makes it. -/
inductive Commits (s : Sys) : Lbl → Eff → Fact → Prop
  | created (i : Nat) (g : Saga) (order : Order) : s.sagas[i]? = some g → g.alive = true →
      g.phase = .commit order → Commits s (.saga i .commit) (.insert order g.rawItems) (order.id, .created)
  | paid (i : Nat) (g : Saga) (oid : String) : s.sagas[i]? = some g → g.alive = true →
      g.phase = .saga oid .pay →
      Commits s (.saga i .commit) (.write oid { status := some .paid }) (oid, .paid)
  | failed (i : Nat) (g : Saga) (oid : String) (b : Branch) (reason : String) : s.sagas[i]? = some g →
      g.alive = true → g.phase = .saga oid (.release b [] reason) →
      Commits s (.saga i .commit) (.write oid (failing reason)) (oid, .failed)
  | overdue (j : Nat) (p : Pass) (order : Order) (items : List OrderItem) : s.passes[j]? = some p →
      p.alive = true → p.pc = .release order items [] →
      Commits s (.pass j .commit) (.write order.id (overdue order)) (order.id, .failed)
  | delivered (j : Nat) (p : DeliveryPass) (order : Order) (items : List OrderItem) (at_ : Nat) :
      s.deliveries[j]? = some p → p.alive = true → p.pc = .commit order items at_ →
      Commits s (.delivery j .commit)
        (.write order.id { delivered := if order.delivered then none else some true })
        (order.id, .delivered)

/-- The fact that is never published by the process that was to publish it: it
crashes, or its publish does not reach the topic. -/
def Sys.loses (s : Sys) : Lbl → Option Fact
  | .crash i => (s.sagas[i]?).bind Saga.announces
  | .saga i (.publish false) => (s.sagas[i]?).bind Saga.announces
  | .crashPass j => (s.passes[j]?).bind Pass.announces
  | .pass j (.publish false) => (s.passes[j]?).bind Pass.announces
  | .crashDelivery j => (s.deliveries[j]?).bind DeliveryPass.announces
  | .delivery j (.publish false) => (s.deliveries[j]?).bind DeliveryPass.announces
  | _ => none

/-- One step, in the books. -/
inductive Books (s : Sys) (l : Lbl) (s' : Sys) : Prop
  | still : s'.topic = s.topic → (∀ f, committed s' f = committed s f) →
      (∀ f, announcing s' f = announcing s f) → Books s l s'
  | commit (e : Eff) (f : Fact) : Commits s l e f → s'.db = e.onDb s.now s.db →
      s'.topic = s.topic → (∀ f', announcing s' f' = announcing s f' + if f = f' then 1 else 0) →
      Books s l s'
  | publish (f : Fact) (ev : Event) : ev.fact = f → s'.db = s.db → s'.topic = s.topic ++ [ev] →
      (∀ f', announcing s' f' + (if f = f' then 1 else 0) = announcing s f') → Books s l s'
  | lose (f : Fact) : s.loses l = some f → s'.db = s.db → s'.topic = s.topic →
      (∀ f', announcing s' f' + (if f = f' then 1 else 0) = announcing s f') → Books s l s'

/-- A process moves from `b` to `a` and nothing else does. -/
theorem announcing_saga {i : Nat} {g g' : Saga} (hg : s.sagas[i]? = some g)
    (hs : s'.sagas = s.sagas.set i g') (hp : s'.passes = s.passes) (hd : s'.deliveries = s.deliveries)
    (f : Fact) : announcing s' f + (if g.announces = some f then 1 else 0) =
      announcing s f + if g'.announces = some f then 1 else 0 := by
  have h := Procs.holding_set (f := Saga.announces) (a := g') hg f
  unfold announcing
  rw [hs, hp, hd]
  omega

theorem announcing_pass {j : Nat} {p p' : Pass} (hj : s.passes[j]? = some p)
    (hs : s'.sagas = s.sagas) (hp : s'.passes = s.passes.set j p') (hd : s'.deliveries = s.deliveries)
    (f : Fact) : announcing s' f + (if p.announces = some f then 1 else 0) =
      announcing s f + if p'.announces = some f then 1 else 0 := by
  have h := Procs.holding_set (f := Pass.announces) (a := p') hj f
  unfold announcing
  rw [hs, hp, hd]
  omega

theorem announcing_delivery {j : Nat} {p p' : DeliveryPass} (hj : s.deliveries[j]? = some p)
    (hs : s'.sagas = s.sagas) (hp : s'.passes = s.passes)
    (hd : s'.deliveries = s.deliveries.set j p') (f : Fact) :
    announcing s' f + (if p.announces = some f then 1 else 0) =
      announcing s f + if p'.announces = some f then 1 else 0 := by
  have h := Procs.holding_set (f := DeliveryPass.announces) (a := p') hj f
  unfold announcing
  rw [hs, hp, hd]
  omega

/-- What a process was to announce before its step and is to announce after it. -/
inductive Turn (s : Sys) (l : Lbl) : Option Fact → Eff → Option Fact → Prop
  | keep (b : Option Fact) (e : Eff) : e.shows → (∀ t, e.onTopic t = t) → Turn s l b e b
  | commit (e : Eff) (f : Fact) : Commits s l e f → Turn s l none e (some f)
  | publish (f : Fact) (ev : Event) (logged : Bool) : ev.fact = f →
      (logged = false → s.loses l = some f) → Turn s l (some f) (.publish ev logged) none

theorem Commits.onTopic {l : Lbl} {e : Eff} {f : Fact} (h : Commits s l e f) (t : List Event) :
    e.onTopic t = t := by
  cases h <;> rfl

theorem Turn.books {l : Lbl} {b a : Option Fact} {e : Eff} (h : Turn s l b e a)
    (hdb : s'.db = e.onDb s.now s.db) (ht : s'.topic = e.onTopic s.topic)
    (ha : ∀ f, announcing s' f + (if b = some f then 1 else 0) =
      announcing s f + if a = some f then 1 else 0) : Books s l s' := by
  cases h with
  | keep b e he hte =>
    refine .still (ht.trans (hte _)) (committed_shows he hdb) ?_
    intro f
    have := ha f
    omega
  | commit e f hc =>
    refine .commit e f hc hdb (ht.trans (hc.onTopic _)) ?_
    intro f'
    simpa using ha f'
  | publish f ev logged hev hl =>
    have ha' : ∀ f', announcing s' f' + (if f = f' then 1 else 0) = announcing s f' :=
      fun f' => by simpa using ha f'
    cases logged with
    | true => exact .publish f ev hev hdb ht ha'
    | false => exact .lose f (hl rfl) hdb ht ha'

/-- The event that a run at its end publishes. -/
theorem saga_announces {g : Saga} {oid : String} {b : Bool} {order : Order} {logged : Bool} {pc' : Pc}
    {e : Eff} (h : saga s g oid (.ended b (.announce order)) (.publish logged) = some (pc', e)) :
    ∃ ev, ev.fact = (order.id, outcomeType b) ∧ e = .publish ev logged := by
  simp only [saga, Option.some.injEq, Prod.mk.injEq] at h
  obtain ⟨-, rfl⟩ := h
  refine ⟨_, ?_, rfl⟩
  cases b <;> rfl

theorem shows_quiet {e : Eff} (h : e.inserts = false) (hw : ∀ now o, e.onRow now o = o) : e.shows :=
  ⟨h, fun now o k => by rw [hw]⟩

/-- A step of a run past the commit of its order. -/
theorem saga_turn {i : Nat} {g : Saga} {oid : String} {pc pc' : Pc} {a : Act} {e : Eff}
    (hg : s.sagas[i]? = some g) (hal : g.alive = true) (hp : g.phase = .saga oid pc)
    (h : saga s g oid pc a = some (pc', e)) :
    Turn s (.saga i a) (pc.announces oid) e (pc'.announces oid) := by
  have hkeep : ∀ b, e.inserts = false → (∀ now o, e.onRow now o = o) → (∀ t, e.onTopic t = t) →
      Turn s (.saga i a) b e b := fun b h1 h2 h3 => .keep b e (shows_quiet h1 h2) h3
  have hlose : ∀ {logged : Bool} {f : Fact}, a = .publish logged → pc.announces oid = some f →
      logged = false → s.loses (.saga i a) = some f := by
    intro logged f ha hf hl
    subst ha hl
    simp only [Sys.loses, hg, Option.bind_some, Saga.announces, hal, hp, hf]
  cases saga_moves h with
  | created order logged hf =>
    have hid := (Orders.find_some hf).2
    exact .publish _ _ _ (by simp [Event.fact, Event.orderId, Event.type, hid]) (hlose rfl rfl)
  | marked held => exact .keep none _ (shows_write rfl rfl) fun _ => rfl
  | failed b reason => exact .commit _ _ (.failed i g oid b reason hg hal hp)
  | paid => exact .commit _ _ (.paid i g oid hg hal hp)
  | loaded b order hf =>
    have hid := (Orders.find_some hf).2
    have hann : (Pc.ended b (.announce order)).announces oid = (Pc.ended b .refresh).announces oid := by
      simp only [Pc.announces, hid]
    rw [hann]
    exact .keep _ _ (shows_quiet rfl fun _ _ => rfl) fun _ => rfl
  | announced b order ev logged hid =>
    obtain ⟨ev', hev, he⟩ := saga_announces h
    simp only [Eff.publish.injEq, and_true] at he
    subst he
    exact .publish _ _ _ hev (hlose rfl rfl)
  | _ => exact hkeep none rfl (fun _ _ => rfl) fun _ => rfl

theorem pass_turn {j : Nat} {p p' : Pass} {a : Act} {e : Eff} (hj : s.passes[j]? = some p)
    (hal : p.alive = true) (h : PassMoves s p a p' e) :
    Turn s (.pass j a) p.announces e p'.announces := by
  cases h with
  | took oid rest order hpc ht hf =>
    simp only [Pass.announces, hal, hpc, takeUp]
    exact .keep none _ (shows_quiet rfl fun _ _ => rfl) fun _ => rfl
  | released order items i todo d hpc =>
    simp only [Pass.announces, hal, hpc]
    exact .keep none _ (shows_quiet rfl fun _ _ => rfl) fun _ => rfl
  | failed order items hpc =>
    simp only [Pass.announces, hal, hpc]
    exact .commit _ _ (.overdue j p order items hj hal hpc)
  | loaded oid items order hpc hf =>
    simp only [Pass.announces, hal, hpc, (Orders.find_some hf).2]
    exact .keep _ _ (shows_quiet rfl fun _ _ => rfl) fun _ => rfl
  | announced order items logged hpc =>
    simp only [Pass.announces, hal, hpc]
    refine .publish _ _ _ rfl ?_
    intro hl
    subst hl
    simp only [Sys.loses, hj, Option.bind_some, Pass.announces, hal, hpc]
  | cleared order items d hpc =>
    simp only [Pass.announces, hal, hpc]
    exact .keep none _ (shows_quiet rfl fun _ _ => rfl) fun _ => rfl

theorem delivery_turn {j : Nat} {p p' : DeliveryPass} {a : Act} {e : Eff}
    (hj : s.deliveries[j]? = some p) (hal : p.alive = true) (h : DeliveryMoves s p a p' e) :
    Turn s (.delivery j a) p.announces e p'.announces := by
  cases h with
  | took oid rest order hpc ht hf =>
    simp only [DeliveryPass.announces, hal, hpc]
    exact .keep none _ (shows_quiet rfl fun _ _ => rfl) fun _ => rfl
  | marked order items at_ hpc =>
    simp only [DeliveryPass.announces, hal, hpc]
    exact .commit _ _ (.delivered j p order items at_ hj hal hpc)
  | loaded oid items at_ order hpc hf =>
    simp only [DeliveryPass.announces, hal, hpc, (Orders.find_some hf).2]
    exact .keep _ _ (shows_quiet rfl fun _ _ => rfl) fun _ => rfl
  | announced order items at_ logged hpc =>
    simp only [DeliveryPass.announces, hal, hpc]
    refine .publish _ _ _ rfl ?_
    intro hl
    subst hl
    simp only [Sys.loses, hj, Option.bind_some, DeliveryPass.announces, hal, hpc]

theorem prelude_turn {i : Nat} {g g' : Saga} {a : Act} {e : Eff} (hg : s.sagas[i]? = some g)
    (hal : g.alive = true) (hn : ∀ oid pc, g.phase ≠ .saga oid pc) (h : PreludeMoves cfg s g a g' e) :
    Turn s (.saga i a) g.announces e g'.announces := by
  have hnone : g.announces = none := by
    unfold Saga.announces
    split
    · rename_i oid pc _ hp; exact absurd hp (hn oid pc)
    · rfl
  rw [hnone]
  cases h with
  | committed order hpc =>
    simp only [Saga.announces, hal, Pc.announces]
    exact .commit _ _ (.created i g order hg hal hpc)
  | _ =>
    simp only [Saga.announces, hal]
    exact .keep none _ (shows_quiet rfl fun _ _ => rfl) fun _ => rfl

/-- A process that is not to announce anything appears, or something else moves. -/
theorem Books.quiet {l : Lbl} (htopic : s'.topic = s.topic) (hdb : s'.db = s.db)
    (ha : ∀ f, announcing s' f = announcing s f) : Books s l s' := by
  refine .still htopic (fun f => ?_) ha
  unfold committed; rw [hdb]

/-- A process crashes, which was to announce `b`. -/
theorem Books.crash {l : Lbl} (b : Option Fact) (htopic : s'.topic = s.topic) (hdb : s'.db = s.db)
    (ha : ∀ f, announcing s' f + (if b = some f then 1 else 0) = announcing s f)
    (hloses : ∀ f, b = some f → s.loses l = some f) : Books s l s' := by
  cases b with
  | none => exact .quiet htopic hdb fun f => by simpa using ha f
  | some f => exact .lose f (hloses f rfl) hdb htopic fun f' => by simpa using ha f'

/-! ### One step of each kind -/

theorem books_saga {i : Nat} {a : Act} (h : step cfg s (.saga i a) = some s') : Books s (.saga i a) s' := by
  simp only [step] at h
  split at h
  · rename_i g hg
    split at h
    · rename_i hal
      obtain ⟨⟨g', e⟩, hst, rfl⟩ := Option.map_eq_some_iff.mp h
      have ha : ∀ f, announcing { s.apply (.saga i) e with sagas := s.sagas.set i g' } f +
          (if g.announces = some f then 1 else 0) =
          announcing s f + if g'.announces = some f then 1 else 0 :=
        announcing_saga hg rfl (apply_passes s (.saga i) e) (apply_deliveries s (.saga i) e)
      unfold stepSaga at hst
      split at hst
      · rename_i oid pc hp
        obtain ⟨⟨pc', e'⟩, hs, he⟩ := Option.map_eq_some_iff.mp hst
        cases he
        have ht := saga_turn hg hal hp hs
        have h1 : g.announces = pc.announces oid := by simp only [Saga.announces, hal, hp]
        have h2 : ({ g with phase := .saga oid pc' } : Saga).announces = pc'.announces oid := by
          simp only [Saga.announces, hal]
        rw [← h1, ← h2] at ht
        exact ht.books (apply_db s (.saga i) _) (apply_topic s (.saga i) _) ha
      · rename_i hne
        exact (prelude_turn hg hal hne (prelude_moves hst)).books (apply_db s (.saga i) e)
          (apply_topic s (.saga i) e) ha
    · cases h
  · cases h

theorem books_pass {j : Nat} {a : Act} (h : step cfg s (.pass j a) = some s') : Books s (.pass j a) s' := by
  obtain ⟨p, p', e, hj, hal, hm, rfl⟩ := step_pass h
  exact (pass_turn hj hal hm).books (apply_db s (.pass j) e) (apply_topic s (.pass j) e)
    (announcing_pass hj (apply_sagas s (.pass j) e) rfl (apply_deliveries s (.pass j) e))

theorem books_delivery {j : Nat} {a : Act} (h : step cfg s (.delivery j a) = some s') :
    Books s (.delivery j a) s' := by
  obtain ⟨p, p', e, hj, hal, hm, rfl⟩ := step_delivery h
  exact (delivery_turn hj hal hm).books (apply_db s (.delivery j) e) (apply_topic s (.delivery j) e)
    (announcing_delivery hj (apply_sagas s (.delivery j) e) (apply_passes s (.delivery j) e) rfl)

theorem books_crash {i : Nat} (h : step cfg s (.crash i) = some s') : Books s (.crash i) s' := by
  simp only [step, Option.map_eq_some_iff] at h
  obtain ⟨g, hg, rfl⟩ := h
  refine .crash g.announces rfl rfl ?_ ?_
  · intro f
    let s₁ : Sys := { s with sagas := s.sagas.set i { g with alive := false } }
    have hs : s₁.sagas = s.sagas.set i { g with alive := false } := rfl
    have ha := announcing_saga hg hs rfl rfl f
    simpa [Saga.announces] using ha
  · intro f hf
    simp only [Sys.loses, hg, Option.bind_some, hf]

theorem books_crashPass {j : Nat} (h : step cfg s (.crashPass j) = some s') : Books s (.crashPass j) s' := by
  simp only [step, Option.map_eq_some_iff] at h
  obtain ⟨p, hj, rfl⟩ := h
  refine .crash p.announces rfl rfl ?_ ?_
  · intro f
    let s₁ : Sys := { s with passes := s.passes.set j { p with alive := false } }
    have hs : s₁.passes = s.passes.set j { p with alive := false } := rfl
    have ha := announcing_pass hj (by rfl) hs rfl f
    simpa [Pass.announces] using ha
  · intro f hf
    simp only [Sys.loses, hj, Option.bind_some, hf]

theorem books_crashDelivery {j : Nat} (h : step cfg s (.crashDelivery j) = some s') :
    Books s (.crashDelivery j) s' := by
  simp only [step, Option.map_eq_some_iff] at h
  obtain ⟨p, hj, rfl⟩ := h
  refine .crash p.announces rfl rfl ?_ ?_
  · intro f
    let s₁ : Sys := { s with deliveries := s.deliveries.set j { p with alive := false } }
    have hs : s₁.deliveries = s.deliveries.set j { p with alive := false } := rfl
    have ha := announcing_delivery hj (by rfl) (by rfl) hs f
    simpa [DeliveryPass.announces] using ha
  · intro f hf
    simp only [Sys.loses, hj, Option.bind_some, hf]

/-- **One step, in the books.** -/
theorem books_step {l : Lbl} (h : step cfg s l = some s') : Books s l s' := by
  cases l with
  | saga i a => exact books_saga h
  | crash i => exact books_crash h
  | pass j a => exact books_pass h
  | crashPass j => exact books_crashPass h
  | delivery j a => exact books_delivery h
  | crashDelivery j => exact books_crashDelivery h
  | request r =>
    cases h
    refine .quiet rfl rfl fun f => ?_
    simp only [announcing, Procs.holding_spawn (f := Saga.announces) (a := { req := r }) rfl]
  | recon =>
    cases h
    refine .quiet rfl rfl fun f => ?_
    simp only [announcing, Procs.holding_spawn (f := Pass.announces)
      (a := ⟨s.db, (stuck cfg.order s).map Order.id, .next, true⟩) rfl]
  | deliver =>
    cases h
    refine .quiet rfl rfl fun f => ?_
    simp only [announcing, Procs.holding_spawn (f := DeliveryPass.announces)
      (a := ⟨s.db, (due cfg.order s).map Order.id, .next, true⟩) rfl]
  | pay l =>
    simp only [step] at h
    split at h
    · obtain ⟨p, -, rfl⟩ := Option.map_eq_some_iff.mp h
      exact .quiet rfl rfl fun _ => rfl
    · cases h
  | cart u lines | tick =>
    cases h
    exact .quiet rfl rfl fun _ => rfl

/-! ## No process in progress -/

def Saga.over (g : Saga) : Bool :=
  !g.alive || match g.phase with
    | .replied _ => true
    | .saga _ (.ended _ (.done _)) => true
    | _ => false

def Pass.over (p : Pass) : Bool := !p.alive || (p.pc = .next && p.todo = [])

def DeliveryPass.over (p : DeliveryPass) : Bool := !p.alive || (p.pc = .next && p.todo = [])

def Sys.idle (s : Sys) : Bool :=
  s.sagas.all Saga.over && s.passes.all Pass.over && s.deliveries.all DeliveryPass.over

theorem Saga.announces_over {g : Saga} (h : g.over = true) : g.announces = none := by
  unfold Saga.announces
  split
  · rename_i oid pc hal hp
    simp only [Saga.over, hal, hp, Bool.not_true, Bool.false_or] at h
    cases pc with
    | ended paid f => cases f <;> first | rfl | cases h
    | _ => first | rfl | cases h
  · rfl

theorem Pass.announces_over {p : Pass} (h : p.over = true) : p.announces = none := by
  unfold Pass.announces
  split
  · rename_i hal hp; simp [Pass.over, hal, hp] at h
  · rename_i hal hp; simp [Pass.over, hal, hp] at h
  · rfl

theorem DeliveryPass.announces_over {p : DeliveryPass} (h : p.over = true) : p.announces = none := by
  unfold DeliveryPass.announces
  split
  · rename_i hal hp; simp [DeliveryPass.over, hal, hp] at h
  · rename_i hal hp; simp [DeliveryPass.over, hal, hp] at h
  · rfl

theorem announcing_idle (h : s.idle = true) (f : Fact) : announcing s f = 0 := by
  simp only [Sys.idle, Bool.and_eq_true, List.all_eq_true] at h
  obtain ⟨⟨h1, h2⟩, h3⟩ := h
  unfold announcing
  rw [Procs.holding_zero fun g hg => Saga.announces_over (h1 g hg),
    Procs.holding_zero fun p hp => Pass.announces_over (h2 p hp),
    Procs.holding_zero fun p hp => DeliveryPass.announces_over (h3 p hp)]

/-! ## What a commit does to the rows -/

theorem committed_pos {f : Fact} :
    0 < committed s f ↔ ∃ o ∈ s.db.orders, o.id = f.1 ∧ f.2.shownBy o = true := by
  unfold committed
  rw [List.countP_pos_iff]
  simp only [Bool.and_eq_true, decide_eq_true_eq]

theorem committed_le_one (hu : Table.Unique Order.id s.db.orders) (f : Fact) : committed s f ≤ 1 := by
  unfold committed
  rw [List.countP_eq_length_filter]
  refine Table.filter_length_le_one hu.nodup ?_
  intro a ha b hb hpa hpb
  simp only [Bool.and_eq_true, decide_eq_true_eq] at hpa hpb
  exact hu.eq ha hb (hpa.1.trans hpb.1.symm)

/-- A commit of a status or of `delivered` writes one row, and nothing else is
shown by it afterwards that was not before. -/
theorem Commits.onRow {l : Lbl} {e : Eff} {f : Fact} (h : Commits s l e f) (hf : f.2 ≠ .created)
    (now : Nat) (o : Order) : e.inserts = false ∧ (o.id ≠ f.1 → e.onRow now o = o) ∧
      ∀ k, k ≠ f.2 → k.shownBy (e.onRow now o) = true → k.shownBy o = true := by
  cases h with
  | created i g order => exact absurd rfl hf
  | paid i g oid =>
    refine ⟨rfl, fun ho => if_neg ho, fun k hk => ?_⟩
    simp only [Eff.onRow]
    split
    · cases k <;> simp_all [EventType.shownBy, Order.set]
    · exact id
  | failed i g oid b reason =>
    refine ⟨rfl, fun ho => if_neg ho, fun k hk => ?_⟩
    simp only [Eff.onRow]
    split
    · cases k <;> simp_all [EventType.shownBy, Order.set, failing]
    · exact id
  | overdue j p order items =>
    refine ⟨rfl, fun ho => if_neg ho, fun k hk => ?_⟩
    simp only [Eff.onRow]
    split
    · cases k with
      | paid =>
        simp only [EventType.shownBy, Orders.set_status, Checkout.overdue]
        split <;> simp
      | failed => exact absurd rfl hk
      | created => simp [EventType.shownBy]
      | delivered =>
        simp only [EventType.shownBy, Order.set]
        split <;> simp [Checkout.overdue]
    · exact id
  | delivered j p order items at_ =>
    refine ⟨rfl, fun ho => if_neg ho, fun k hk => ?_⟩
    simp only [Eff.onRow]
    split
    · cases k with
      | delivered => exact absurd rfl hk
      | created => simp [EventType.shownBy]
      | paid => simp [EventType.shownBy]
      | failed => simp [EventType.shownBy]
    · exact id

/-- An open INSERT is of an order that is not delivered. -/
theorem open_undelivered (h : (lts cfg cat).Reachable s) :
    ∀ g ∈ s.sagas, ∀ order, g.phase = .commit order → order.delivered = false := by
  have hind : (lts cfg cat).Inductive fun s =>
      ∀ g ∈ s.sagas, ∀ order, g.phase = .commit order → order.delivered = false := by
    refine ⟨?_, ?_⟩
    · intro s hs g hg; subst hs; cases hg
    · intro s l s' I hst
      cases step_shape hst with
      | spawn r =>
        intro g hg order hp
        rcases List.mem_append.mp hg with hg | hg
        · exact I g hg order hp
        · obtain rfl := List.mem_singleton.mp hg
          cases hp
      | run i a s' hrun =>
        cases hrun with
        | prelude g g' e hg hal hn hm =>
          intro g1 hg1 order hp
          rcases List.mem_or_eq_of_mem_set hg1 with hg1 | rfl
          · exact I g1 hg1 order hp
          · cases hm with
            | flushed amount order' hpc he => cases hp; exact congrArg Order.delivered he
            | _ => cases hp
        | saga g oid pc pc' e hg hal hp0 hm =>
          intro g1 hg1 order hp
          rcases List.mem_or_eq_of_mem_set hg1 with hg1 | rfl
          · exact I g1 hg1 order hp
          · cases hp
      | crash i g hg =>
        intro g1 hg1 order hp
        rcases List.mem_or_eq_of_mem_set hg1 with hg1 | rfl
        · exact I g1 hg1 order hp
        · exact I g (List.mem_of_getElem? hg) order hp
      | pay l p hl hp => exact I
      | other l c e s' hb hpass => rw [hb.sagas]; exact I
  exact hind.reachable s h

/-- A new row shows nothing but that it is there. -/
theorem committed_insert {i : Nat} {g : Saga} {order : Order} (h : (lts cfg cat).Reachable s)
    (hg : s.sagas[i]? = some g) (hal : g.alive = true) (hp : g.phase = .commit order)
    (hdb : s'.db = (Eff.insert order g.rawItems).onDb s.now s.db) (f : Fact) :
    committed s' f = committed s f + if f = (order.id, .created) then 1 else 0 := by
  obtain ⟨-, -, ⟨hpend, -⟩, -⟩ := ((keys_reachable h).saga i g hg).lock order hp hal
  have hdel := open_undelivered h g (List.mem_of_getElem? hg) order hp
  obtain ⟨oid, k⟩ := f
  simp only [committed, hdb, Eff.onDb, Orders.insert, List.countP_append, List.countP_singleton,
    Prod.mk.injEq, Bool.and_eq_true, decide_eq_true_eq]
  cases k <;> simp [EventType.shownBy, hpend, hdel, eq_comm]

theorem Commits.others {l : Lbl} {e : Eff} {f f' : Fact} (h : Commits s l e f) (hf : f.2 ≠ .created)
    (hne : f ≠ f') (hdb : s'.db = e.onDb s.now s.db) : committed s' f' ≤ committed s f' := by
  have hins : e.inserts = false := by cases h <;> first | rfl | exact absurd rfl hf
  unfold committed
  rw [hdb, onDb_orders hins, List.countP_map]
  refine List.countP_mono_left ?_
  intro o _ ho
  obtain ⟨-, hother, hshow⟩ := h.onRow hf s.now o
  simp only [Function.comp_apply, onRow_id, Bool.and_eq_true, decide_eq_true_eq] at ho ⊢
  refine ⟨ho.1, ?_⟩
  by_cases hid : o.id = f.1
  · refine hshow f'.2 ?_ ho.2
    intro hk
    exact hne (Prod.ext (hid.symm.trans ho.1) hk.symm)
  · rw [hother hid] at ho; exact ho.2

/-- What the order's row shows is committed once. -/
theorem committed_row (hu : Table.Unique Order.id s.db.orders) {o : Order} (ho : o ∈ s.db.orders)
    (k : EventType) : committed s (o.id, k) = if k.shownBy o then 1 else 0 := by
  unfold committed
  by_cases hk : k.shownBy o = true
  · rw [if_pos hk, List.countP_eq_length_filter, Table.filter_eq_singleton hu.nodup ho]
    · rfl
    · simp [hk]
    · intro b hb hpb
      simp only [Bool.and_eq_true, decide_eq_true_eq] at hpb
      exact hu.eq hb ho hpb.1
  · rw [if_neg hk]
    refine List.countP_eq_zero.mpr fun b hb hpb => hk ?_
    simp only [Bool.and_eq_true, decide_eq_true_eq] at hpb
    rw [← hu.eq hb ho hpb.1]; exact hpb.2

/-- A write that makes a row show one thing more. -/
theorem write_adds (hu : Table.Unique Order.id s.db.orders) {o : Order} (ho : o ∈ s.db.orders)
    {w : Write} {k : EventType} (hdb : s'.db = Orders.update s.db o.id w s.now)
    (hset : ∀ k', k'.shownBy (o.set w s.now) = (k'.shownBy o || k' = k)) (hnot : k.shownBy o = false)
    (f : Fact) : committed s' f = committed s f + if (o.id, k) = f then 1 else 0 := by
  have horders : s'.db.orders = s.db.orders.map fun r => if r.id = o.id then r.set w s.now else r := by
    rw [hdb]; rfl
  obtain ⟨oid, k'⟩ := f
  by_cases hid : oid = o.id
  · subst hid
    have hmem : o.set w s.now ∈ s'.db.orders := by
      rw [horders]
      exact List.mem_map.mpr ⟨o, ho, if_pos rfl⟩
    have hu' : Table.Unique Order.id s'.db.orders := by
      have hmap : s'.db.orders.map Order.id = s.db.orders.map Order.id := by
        rw [hdb]; exact Table.map_modify fun r => Orders.set_id w s.now r
      unfold Table.Unique
      rw [hmap]; exact hu
    have h1 := committed_row hu' hmem k'
    rw [Orders.set_id] at h1
    rw [h1, committed_row hu ho, hset]
    by_cases hk : k' = k
    · subst hk; simp [hnot]
    · simp [hk, Ne.symm hk]
  · have hne : ((o.id, k) : Fact) ≠ (oid, k') := fun e => hid (congrArg Prod.fst e).symm
    rw [if_neg hne]
    unfold committed
    rw [horders, List.countP_map]
    congr 1
    funext r
    simp only [Function.comp_apply]
    split
    · rename_i hr
      simp [hr, Ne.symm hid]
    · rfl

end Gestalt.Checkout
