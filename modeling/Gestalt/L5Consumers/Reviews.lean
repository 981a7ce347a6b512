import Gestalt.Core.LTS
import Gestalt.Core.Procs
import Gestalt.Core.Table
import Gestalt.Core.Upsert
import Gestalt.L1Shared.Http

/-!
# review-service

The `eligibility` collection, which `handle_event` fills from `order.delivered`,
and the `reviews` collection behind `create_review`. A single MongoDB operation
is atomic, and `_id` is unique in a collection (`Collection.unique`); nothing
else is: `create_review` finds, inserts and flags in three operations, and
`handle_event` upserts one product after another. `System` interleaves any
number of both, each of which may crash between any two operations.

`handle_event` of an event of another type does nothing, and of a message that
is not JSON, or lacks a field, raises before its first write (`Event`).

`list_reviews` and the text form of ids and times in `_to_out` are left out.
-/
namespace Gestalt.Reviews

/-- A user id is a UUID; what matters of it is that there is no `:` in it. -/
structure UserId where
  text : String
  noColon : ':' ∉ text.toList
  deriving DecidableEq, Repr

/-- mirrors services/review-service/app/consumer.py:51 and
services/review-service/app/routers/reviews.py:36 -/
def eligibilityId (user : UserId) (productId : String) : String := user.text ++ ":" ++ productId

/-- The first `:` ends the user id, so the key names the user and the product. -/
theorem eligibilityId_inj {u v : UserId} {p q : String} (h : eligibilityId u p = eligibilityId v q) :
    u = v ∧ p = q := by
  have hl : u.text.toList ++ ':' :: p.toList = v.text.toList ++ ':' :: q.toList := by
    have := congrArg String.toList h
    simpa [eligibilityId] using this
  have hnot : ∀ w : UserId, ∀ c ∈ w.text.toList, (c != ':') = true := by
    intro w c hc
    have hne : c ≠ ':' := fun e => w.noColon (e ▸ hc)
    simpa using hne
  -- what stands before the first `:`
  have hu := congrArg (List.takeWhile (· != ':')) hl
  rw [List.takeWhile_append_of_pos (hnot u), List.takeWhile_append_of_pos (hnot v)] at hu
  have huv : u.text.toList = v.text.toList := by simpa using hu
  rw [huv, List.append_cancel_left_eq, List.cons.injEq] at hl
  obtain ⟨ut, hu'⟩ := u
  obtain ⟨vt, hv'⟩ := v
  obtain rfl : ut = vt := String.toList_inj.mp huv
  exact ⟨rfl, String.toList_inj.mp hl.2⟩

/-- A document of the `eligibility` collection. -/
structure Eligibility where
  id : String
  orderId : String
  deliveredAt : Option String
  reviewed : Bool
  deriving DecidableEq, Repr

/-- mirrors services/review-service/app/schemas.py:4-8 -/
structure ReviewIn where
  productId : String
  orderId : Option String
  rating : Int
  comment : String
  rating_ge : 1 ≤ rating
  rating_le : rating ≤ 5

/-- A document of the `reviews` collection. -/
structure Review where
  id : Nat
  productId : String
  userId : UserId
  orderId : String
  rating : Int
  comment : String
  createdAt : Nat
  deriving DecidableEq, Repr

/-- The payload of an `order.delivered` event. -/
structure Delivered where
  userId : UserId
  orderId : String
  deliveredAt : Option String
  productIds : List String
  deriving DecidableEq, Repr

/-- A message, as `handle_event` takes it apart. -/
inductive Event
  | delivered (e : Delivered)
  | other
  | malformed
  deriving DecidableEq, Repr

/-! ## The eligibility collection -/

section Docs

variable (docs : List Eligibility) (id orderId : String) (deliveredAt : Option String)

/-- `update_one({_id}, {$set: {orderId, deliveredAt}, $setOnInsert: {reviewed:
False}}, upsert=True)` -/
def upsertDocs : List Eligibility :=
  match Table.get Eligibility.id docs id with
  | some _ =>
    Table.modify Eligibility.id docs id fun e => { e with orderId := orderId, deliveredAt := deliveredAt }
  | none => docs ++ [⟨id, orderId, deliveredAt, false⟩]

variable {docs}

theorem upsertDocs_unique (h : Table.Unique Eligibility.id docs) :
    Table.Unique Eligibility.id (upsertDocs docs id orderId deliveredAt) := by
  unfold upsertDocs
  split
  · unfold Table.Unique
    rw [Table.map_modify (by simp)]
    exact h
  · rename_i hnone
    exact h.append_one (Table.get_eq_none.mp hnone)

theorem setReviewed_unique (h : Table.Unique Eligibility.id docs) :
    Table.Unique Eligibility.id
      (Table.modify Eligibility.id docs id fun e => { e with reviewed := true }) := by
  unfold Table.Unique
  rw [Table.map_modify (by simp)]
  exact h

end Docs

structure Collection where
  docs : List Eligibility
  unique : Table.Unique Eligibility.id docs

namespace Collection

def empty : Collection := ⟨[], List.nodup_nil⟩

def get (c : Collection) (id : String) : Option Eligibility := Table.get Eligibility.id c.docs id

/-- `find_one({"_id": id, "reviewed": False})` -/
def findUnreviewed (c : Collection) (id : String) : Option Eligibility :=
  c.docs.find? fun e => decide (e.id = id) && !e.reviewed

def upsert (c : Collection) (id orderId : String) (deliveredAt : Option String) : Collection :=
  ⟨upsertDocs c.docs id orderId deliveredAt, upsertDocs_unique id orderId deliveredAt c.unique⟩

/-- `update_one({"_id": id}, {"$set": {"reviewed": True}})` -/
def setReviewed (c : Collection) (id : String) : Collection :=
  ⟨Table.modify Eligibility.id c.docs id fun e => { e with reviewed := true },
    setReviewed_unique id c.unique⟩

/-- The `reviewed` flag of each id that is there. -/
def reviewed (c : Collection) (id : String) : Option Bool := (c.get id).map (·.reviewed)

variable (c : Collection) (id k orderId : String) (deliveredAt : Option String)

theorem get_upsert : (c.upsert id orderId deliveredAt).get k =
    if k = id then some ⟨id, orderId, deliveredAt, (c.reviewed id).getD false⟩ else c.get k := by
  simp only [get, upsert, reviewed, upsertDocs]
  split
  · rename_i e he
    rw [Table.get_modify (by simp)]
    split
    · rename_i hk
      subst hk
      obtain ⟨-, rfl⟩ := Table.get_some he
      simp [he]
    · rfl
  · rename_i hnone
    rw [Table.get_append hnone]
    simp [hnone]

theorem get_setReviewed : (c.setReviewed id).get k =
    if k = id then (c.get id).map fun e => { e with reviewed := true } else c.get k := by
  simp only [get, setReviewed]
  rw [Table.get_modify (by simp)]
  split
  · rename_i hk
    rw [hk]
  · rfl

theorem findUnreviewed_eq {e : Eligibility} :
    c.findUnreviewed id = some e ↔ c.get id = some e ∧ e.reviewed = false := by
  simp only [findUnreviewed, get, c.unique.find, Bool.not_eq_true']

/-- On the flags, an upsert inserts `false` where nothing is. -/
theorem reviewed_upsert :
    (c.upsert id orderId deliveredAt).reviewed = Upsert.touch false c.reviewed id := by
  funext k
  simp only [reviewed, get_upsert, Upsert.touch, Function.update_apply]
  split <;> rfl

theorem reviewed_setReviewed : (c.setReviewed id).reviewed k =
    if k = id then (c.reviewed id).map fun _ => true else c.reviewed k := by
  simp only [reviewed, get_setReviewed]
  split
  · simp [Function.comp_def]
  · rfl

/-- No document goes, and no flag that is set is cleared. -/
def Grows (c c' : Collection) : Prop :=
  ∀ k b, c.reviewed k = some b → ∃ b', c'.reviewed k = some b' ∧ (b = true → b' = true)

theorem grows_upsert : c.Grows (c.upsert id orderId deliveredAt) := by
  intro k b hk
  refine ⟨b, ?_, fun hb => hb⟩
  rw [reviewed_upsert]
  exact (Upsert.touchAll_kept hk : Upsert.touchAll false c.reviewed [id] k = some b)

theorem grows_setReviewed : c.Grows (c.setReviewed id) := by
  intro k b hk
  rw [reviewed_setReviewed]
  split
  · rename_i he
    subst he
    exact ⟨true, by rw [hk]; rfl, fun _ => rfl⟩
  · exact ⟨b, hk, fun hb => hb⟩

end Collection

/-! ## `handle_event` -/

namespace Delivered

/-- The body of the loop. -/
def pass (e : Delivered) (c : Collection) (productId : String) : Collection :=
  c.upsert (eligibilityId e.userId productId) e.orderId e.deliveredAt

/-- The loop as far as the first `n` products. -/
def passes (e : Delivered) (n : Nat) (c : Collection) : Collection :=
  (e.productIds.take n).foldl e.pass c

/-- The ids the loop upserts, in order. -/
def keys (e : Delivered) : List String := e.productIds.map (eligibilityId e.userId)

end Delivered

/-- `none`: it raises.
mirrors services/review-service/app/consumer.py:40-57 -/
def handleEvent (c : Collection) : Event → Option Collection
  | .delivered e => some (e.productIds.foldl e.pass c)
  | .other => some c
  | .malformed => none

/-- Executions of `handle_event` one after another, each with the number of
products it gets to before it returns or fails. -/
def execute (c : Collection) (runs : List (Delivered × Nat)) : Collection :=
  runs.foldl (fun c r => r.1.passes r.2 c) c

theorem reviewed_passes (e : Delivered) (c : Collection) (ps : List String) :
    (ps.foldl e.pass c).reviewed =
      Upsert.touchAll false c.reviewed (ps.map (eligibilityId e.userId)) := by
  induction ps generalizing c with
  | nil => rfl
  | cons p ps ih =>
    rw [List.foldl_cons, ih, Delivered.pass, Collection.reviewed_upsert]
    rfl

theorem reviewed_execute (c : Collection) (runs : List (Delivered × Nat)) :
    (execute c runs).reviewed = Upsert.touchAll false c.reviewed (Upsert.touched Delivered.keys runs) := by
  induction runs generalizing c with
  | nil => rfl
  | cons r runs ih =>
    have he : execute c (r :: runs) = execute (r.1.passes r.2 c) runs := rfl
    have ht : Upsert.touched Delivered.keys (r :: runs) =
        r.1.keys.take r.2 ++ Upsert.touched Delivered.keys runs := rfl
    rw [he, ih, ht, Upsert.touchAll_append, Delivered.passes, reviewed_passes, Delivered.keys,
      List.map_take]

/-- `handle_event` of each event in turn. -/
def handleAll (c : Collection) (es : List Delivered) : Option Collection :=
  es.foldlM (fun c e => handleEvent c (.delivered e)) c

theorem reviewed_handleAll (c : Collection) (es : List Delivered) :
    (handleAll c es).map Collection.reviewed =
      some (Upsert.touchAll false c.reviewed (es.flatMap Delivered.keys)) := by
  induction es generalizing c with
  | nil => rfl
  | cons e es ih =>
    have hc : handleAll c (e :: es) = handleAll (e.productIds.foldl e.pass c) es := rfl
    rw [hc, ih, List.flatMap_cons, Upsert.touchAll_append, reviewed_passes]
    rfl

/-- **Redelivery and reordering.** However often, in whatever order and however
incompletely the events have been handled, once each has been handled to its
end the ids and their flags are those of one pass in order. A flag that is set
stays set all along. -/
theorem redelivery_insensitive (c : Collection) {es : List Delivered} {runs : List (Delivered × Nat)}
    (h : Upsert.AtLeastOnce Delivered.keys es runs) :
    some (execute c runs).reviewed = (handleAll c es).map Collection.reviewed ∧
      ∀ n id, c.reviewed id = some true → (execute c (runs.take n)).reviewed id = some true := by
  constructor
  · rw [reviewed_execute, reviewed_handleAll, h.touchAll]
  · intro n id hid
    rw [reviewed_execute]
    exact Upsert.touchAll_kept hid

def alice : UserId := ⟨"6f9619ff-8b86-4d01-b42d-00cf4fc964ff", by decide⟩

def firstOrder : Delivered := ⟨alice, "O1", some "2026-08-19T09:00:00Z", ["P001", "P001", "P002"]⟩
def secondOrder : Delivered := ⟨alice, "O2", none, ["P002", "P003"]⟩

/-- Alice has reviewed `P002`. The first event is cut short, overtaken, handled
and redelivered. -/
theorem redelivery_insensitive_overtaken :
    let c : Collection := ⟨[⟨eligibilityId alice "P002", "O0", none, true⟩], by simp [Table.Unique]⟩
    let runs := [(firstOrder, 1), (secondOrder, 2), (firstOrder, 3), (secondOrder, 0), (firstOrder, 3)]
    some (execute c runs).reviewed = (handleAll c [firstOrder, secondOrder]).map Collection.reviewed ∧
      (execute c runs).reviewed (eligibilityId alice "P002") = some true := by
  intro c runs
  have h : Upsert.AtLeastOnce Delivered.keys [firstOrder, secondOrder] runs := ⟨by decide, by decide⟩
  obtain ⟨heq, hkept⟩ := redelivery_insensitive c h
  exact ⟨heq, hkept 5 (eligibilityId alice "P002") rfl⟩

/-! ## `create_review` -/

/-- mirrors services/review-service/app/routers/reviews.py:38-43 -/
def notEligible : AppError :=
  ⟨"NOT_ELIGIBLE", "You can only review products from your own delivered orders", 403⟩

/-- `body.orderId or eligibility["orderId"]` -/
def ReviewIn.order (body : ReviewIn) (e : Eligibility) : String :=
  match body.orderId with
  | some o => if o = "" then e.orderId else o
  | none => e.orderId

structure Store where
  eligibility : Collection
  reviews : List Review

/-- Where a request is, by its next operation. -/
inductive CreatePc
  | find
  | insert (eligibility : Eligibility)
  | flag (doc : Review)
  | done (answer : Except AppError Review)

/-- mirrors services/review-service/app/routers/reviews.py:34-58 -/
def CreatePc.step (user : UserId) (body : ReviewIn) (now : Nat) (s : Store) :
    CreatePc → Option (Store × CreatePc)
  | .find =>
    match s.eligibility.findUnreviewed (eligibilityId user body.productId) with
    | none => some (s, .done (.error notEligible))
    | some e => some (s, .insert e)
  | .insert e =>
    let doc : Review := ⟨s.reviews.length, body.productId, user, body.order e, body.rating,
      body.comment, now⟩
    some ({ s with reviews := s.reviews ++ [doc] }, .flag doc)
  | .flag doc =>
    some ({ s with eligibility := s.eligibility.setReviewed (eligibilityId user body.productId) },
      .done (.ok doc))
  | .done _ => none

/-! ## Both together -/

/-- A request, or a `handle_event` that has got through its first `done` products. -/
inductive Task
  | create (user : UserId) (body : ReviewIn) (pc : CreatePc)
  | event (e : Delivered) (done : Nat)

structure Proc where
  task : Task
  alive : Bool := true

def Task.step (now : Nat) (s : Store) : Task → Option (Store × Task)
  | .create user body pc => (pc.step user body now s).map fun r => (r.1, .create user body r.2)
  | .event e done =>
    match e.productIds[done]? with
    | some p => some ({ s with eligibility := e.pass s.eligibility p }, .event e (done + 1))
    | none => none

/-- An event's operations, one after another, are the passes of its loop. -/
theorem event_step (e : Delivered) (c : Collection) (reviews : List Review) (now : Nat) {n : Nat}
    (h : n < e.productIds.length) :
    (Task.event e n).step now ⟨e.passes n c, reviews⟩ =
      some (⟨e.passes (n + 1) c, reviews⟩, .event e (n + 1)) := by
  have hp : e.productIds[n]? = some e.productIds[n] := List.getElem?_eq_getElem h
  have hpass : e.passes (n + 1) c = e.pass (e.passes n c) e.productIds[n] := by
    simp only [Delivered.passes, List.take_add_one, hp, Option.toList_some, List.foldl_append,
      List.foldl_cons, List.foldl_nil]
  simp only [Task.step, hp, hpass]

/-- All of them together are `handle_event`. -/
theorem handleEvent_passes (e : Delivered) (c : Collection) :
    handleEvent c (.delivered e) = some (e.passes e.productIds.length c) := by
  rw [handleEvent, Delivered.passes, List.take_length]

structure System where
  store : Store
  procs : List Proc

inductive Lbl
  | request (user : UserId) (body : ReviewIn)
  /-- a delivery, or a redelivery, of a message -/
  | consume (e : Event)
  /-- process `i` performs its next operation; `now` is its clock -/
  | next (i now : Nat)
  | crash (i : Nat)

namespace System

def step (s : System) : Lbl → Option System
  | .request user body => some { s with procs := s.procs ++ [{ task := .create user body .find }] }
  | .consume (.delivered e) => some { s with procs := s.procs ++ [{ task := .event e 0 }] }
  | .consume _ => some s
  | .next i now =>
    match s.procs[i]? with
    | some x =>
      if x.alive then
        (x.task.step now s.store).map fun r => ⟨r.1, s.procs.set i { x with task := r.2 }⟩
      else none
    | none => none
  | .crash i =>
    match s.procs[i]? with
    | some x => some { s with procs := s.procs.set i { x with alive := false } }
    | none => none

def start : System := ⟨⟨.empty, []⟩, []⟩

def lts : LTS System Lbl := LTS.ofFn (· = start) step

/-! ## What a step does -/

/-- What one operation does to the store, by process. -/
inductive Moves (s : Store) : Task → Store → Task → Prop
  | refuse {user : UserId} {body : ReviewIn} :
      Moves s (.create user body .find) s (.create user body (.done (.error notEligible)))
  | check {user : UserId} {body : ReviewIn} {e : Eligibility}
      (he : s.eligibility.get (eligibilityId user body.productId) = some e) (hr : e.reviewed = false) :
      Moves s (.create user body .find) s (.create user body (.insert e))
  | insert {user : UserId} {body : ReviewIn} {e : Eligibility} {doc : Review}
      (hu : doc.userId = user) (hp : doc.productId = body.productId) (ho : doc.orderId = body.order e) :
      Moves s (.create user body (.insert e)) { s with reviews := s.reviews ++ [doc] }
        (.create user body (.flag doc))
  | flag {user : UserId} {body : ReviewIn} {doc : Review} :
      Moves s (.create user body (.flag doc))
        { s with eligibility := s.eligibility.setReviewed (eligibilityId user body.productId) }
        (.create user body (.done (.ok doc)))
  | upsert {e : Delivered} {n : Nat} {p : String} (hp : e.productIds[n]? = some p) :
      Moves s (.event e n) { s with eligibility := e.pass s.eligibility p } (.event e (n + 1))

theorem moves_of_step {now : Nat} {s s' : Store} {t t' : Task} (h : t.step now s = some (s', t')) :
    Moves s t s' t' := by
  match t, h with
  | .create user body .find, h =>
    simp only [Task.step, CreatePc.step] at h
    split at h
    · simp only [Option.map_some, Option.some.injEq, Prod.mk.injEq] at h
      obtain ⟨rfl, rfl⟩ := h
      exact .refuse
    · rename_i e he
      simp only [Option.map_some, Option.some.injEq, Prod.mk.injEq] at h
      obtain ⟨rfl, rfl⟩ := h
      obtain ⟨hg, hr⟩ := (Collection.findUnreviewed_eq ..).mp he
      exact .check hg hr
  | .create user body (.insert e), h =>
    simp only [Task.step, CreatePc.step, Option.map_some, Option.some.injEq, Prod.mk.injEq] at h
    obtain ⟨rfl, rfl⟩ := h
    exact .insert rfl rfl rfl
  | .create user body (.flag doc), h =>
    simp only [Task.step, CreatePc.step, Option.map_some, Option.some.injEq, Prod.mk.injEq] at h
    obtain ⟨rfl, rfl⟩ := h
    exact .flag
  | .create user body (.done _), h => cases h
  | .event e n, h =>
    simp only [Task.step] at h
    split at h
    · rename_i p hp
      simp only [Option.some.injEq, Prod.mk.injEq] at h
      obtain ⟨rfl, rfl⟩ := h
      exact .upsert hp
    · cases h

/-- What a step does to the processes. -/
inductive Steps (s : System) : Lbl → System → Prop
  | spawn {l : Lbl} (t : Task)
      (ht : (∃ user body, t = .create user body .find) ∨ ∃ e, t = .event e 0) :
      Steps s l { s with procs := s.procs ++ [{ task := t }] }
  | ignore (e : Event) : Steps s (.consume e) s
  | next {i now : Nat} {x : Proc} {s' : Store} {t' : Task} (hx : s.procs[i]? = some x)
      (ha : x.alive = true) (hm : Moves s.store x.task s' t') :
      Steps s (.next i now) ⟨s', s.procs.set i { x with task := t' }⟩
  | crash {i : Nat} {x : Proc} (hx : s.procs[i]? = some x) :
      Steps s (.crash i) { s with procs := s.procs.set i { x with alive := false } }

theorem steps_of_step {s s' : System} {l : Lbl} (h : step s l = some s') : Steps s l s' := by
  match l, h with
  | .request user body, h =>
    simp only [step, Option.some.injEq] at h
    subst h
    exact .spawn _ (.inl ⟨user, body, rfl⟩)
  | .consume (.delivered e), h =>
    simp only [step, Option.some.injEq] at h
    subst h
    exact .spawn _ (.inr ⟨e, rfl⟩)
  | .consume .other, h =>
    simp only [step, Option.some.injEq] at h
    subst h
    exact .ignore _
  | .consume .malformed, h =>
    simp only [step, Option.some.injEq] at h
    subst h
    exact .ignore _
  | .next i now, h =>
    simp only [step] at h
    split at h
    · rename_i x hx
      split at h
      · rename_i ha
        simp only [Option.map_eq_some_iff] at h
        obtain ⟨⟨s₁, t'⟩, ht, rfl⟩ := h
        exact .next hx ha (moves_of_step ht)
      · cases h
    · cases h
  | .crash i, h =>
    simp only [step] at h
    split at h
    · rename_i x hx
      simp only [Option.some.injEq] at h
      subst h
      exact .crash hx
    · cases h

end System
end Gestalt.Reviews
