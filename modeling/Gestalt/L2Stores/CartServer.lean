import Gestalt.Core.LTS
import Gestalt.Core.Procs
import Gestalt.L2Stores.Cart
import Mathlib.Logic.Function.Basic

/-!
# cart-service: any number of requests at once

The endpoints of `Cart` and the abandonment scan, each cut at its Redis commands
and at its readings of the clock. A `Proc` is a request and what it does next (its
`Pc` is named after it), a `Scan` is a `run_pass`. They interleave in any order; a
request or a scan may die between any two steps. A key expires at its deadline or
later.

`SCAN` may return any keys, in any order and several times. `abandonments` is
`CART_ABANDONMENT_TOTAL` with the keys it was incremented for.

`alone`: a request that nothing interrupts does what `Request.serve` does.
-/
namespace Gestalt.Cart

/-- `touch_cart`, by what it does next. -/
inductive TouchPc
  | time
  | updatedAt (now : Nat)
  | counted
  | expire
  deriving DecidableEq, Repr

/-- Where a request is, by what it does next. -/
inductive Pc
  | catalog
  | hget (stock : Int)
  | hset (newQty : Int)
  | hgetall
  | hdel
  | hkeys
  | hmget
  | hdelPresent (present : List String)
  /-- `add_item` reads the cart afterwards, the others answer -/
  | touch (next : Option Answer) (pc : TouchPc)
  | done (answer : Answer)
  deriving DecidableEq, Repr

def Request.entry : Request → Pc
  | .addItem _ _ => .catalog
  | .removeItem _ _ => .hdel
  | .batchRemoveItems _ _ => .hmget

/-- What follows `touch_cart`. -/
def Pc.after : Option Answer → Pc
  | none => .hgetall
  | some a => .done a

section
variable (cfg : Settings)

/-- mirrors services/cart-service/app/redis_client.py:21-27 -/
def TouchPc.step (now : Nat) (e : Entry) (next : Option Answer) : TouchPc → Entry × Pc
  | .time => (e, .touch next (.updatedAt now))
  | .updatedAt t => (e.hset updatedAtField (.time t), .touch next .counted)
  | .counted => (e.hdel [abandonmentCountedField], .touch next .expire)
  | .expire => (e.expire (now + cfg.cartTtlSeconds * microseconds), .after next)

/-- mirrors services/cart-service/app/routers/cart.py:38-53 -/
def addItemStep (catalog : Except AppError Int) (now : Nat) (e : Entry) (body : AddItemRequest) :
    Pc → Option (Entry × Pc)
  | .catalog =>
    match catalog with
    | .error err => some (e, .done (.error err))
    | .ok stock => some (e, .hget stock)
  | .hget stock =>
    match currentQty e body.productId with
    | none => some (e, .done (.error internalError))
    | some current =>
      if stock < current + body.quantity then some (e, .done (.error insufficientStock))
      else some (e, .hset (current + body.quantity))
  | .hset newQty => some (e.hset body.productId (.int newQty), .touch none .time)
  | .touch next pc => some (pc.step cfg now e next)
  | .hgetall => some (e, .done (readCart e))
  | _ => none

/-- mirrors services/cart-service/app/routers/cart.py:56-62 -/
def removeItemStep (now : Nat) (e : Entry) (productId : String) : Pc → Option (Entry × Pc)
  | .hdel => some (e.hdel [productId], .hkeys)
  | .hkeys => some (e, if e.hasItems then .touch (some .noContent) .time else .done .noContent)
  | .touch next pc => some (pc.step cfg now e next)
  | _ => none

/-- mirrors services/cart-service/app/routers/cart.py:84-101 -/
def batchRemoveItemsStep (now : Nat) (e : Entry) (productIds : List String) : Pc → Option (Entry × Pc)
  | .hmget =>
    if productIds.isEmpty then some (e, .done (.removed []))
    else
      let present := presentIds e productIds
      some (e, if present.isEmpty then .done (.removed present) else .hdelPresent present)
  | .hdelPresent present => some (e.hdel present, .touch (some (.removed present)) .time)
  | .touch next pc => some (pc.step cfg now e next)
  | _ => none

def Request.step (catalog : Except AppError Int) (now : Nat) (e : Entry) :
    Request → Pc → Option (Entry × Pc)
  | .addItem _ body => addItemStep cfg catalog now e body
  | .removeItem _ p => removeItemStep cfg now e p
  | .batchRemoveItems _ ps => batchRemoveItemsStep cfg now e ps

end

/-- Where a `run_pass` is, by what it does next. -/
inductive ScanPc
  | scan
  | hgetall (key : String)
  | flag (key : String)
  | done
  deriving DecidableEq, Repr

/-- A `run_pass`, with the time it read at its start. -/
structure Scan where
  now : Nat
  pc : ScanPc := .scan
  alive : Bool := true
  deriving DecidableEq, Repr

structure Proc where
  call : Request
  pc : Pc
  alive : Bool := true
  deriving DecidableEq, Repr

structure System where
  redis : String → Entry
  procs : List Proc
  scans : List Scan
  abandonments : List String
  clock : Nat

inductive Lbl
  | call (r : Request)
  /-- request `i` goes on; `catalog` is what `get_price_and_stock` would return -/
  | next (i : Nat) (catalog : Except AppError Int)
  | crash (i : Nat)
  | runPass
  /-- scan `j` goes on; `key` is what the iterator would return -/
  | nextKey (j : Nat) (key : Option String)
  | crashScan (j : Nat)
  | expire (key : String)
  | tick (d : Nat)

namespace System

section
variable (cfg : Settings)

/-- mirrors services/cart-service/app/abandonment.py:25-47 -/
def scanStep (s : System) (j : Nat) (x : Scan) (key : Option String) : Option System :=
  match x.pc with
  | .scan =>
    let pc := match key with
      | some k => .hgetall k
      | none => .done
    some { s with scans := s.scans.set j { x with pc } }
  | .hgetall k =>
    if abandoned cfg x.now (s.redis k) then
      some { s with
        abandonments := s.abandonments ++ [k]
        scans := s.scans.set j { x with pc := .flag k } }
    else some { s with scans := s.scans.set j { x with pc := .scan } }
  | .flag k =>
    some { s with
      redis := Function.update s.redis k (flag (s.redis k))
      scans := s.scans.set j { x with pc := .scan } }
  | .done => none

def step (s : System) : Lbl → Option System
  | .call r => some { s with procs := s.procs ++ [{ call := r, pc := r.entry }] }
  | .next i catalog =>
    match s.procs[i]? with
    | some x =>
      if x.alive then
        let key := cartKey x.call.userId
        (x.call.step cfg catalog s.clock (s.redis key) x.pc).map fun r =>
          { s with
            redis := Function.update s.redis key r.1
            procs := s.procs.set i { x with pc := r.2 } }
      else none
    | none => none
  | .crash i =>
    match s.procs[i]? with
    | some x => some { s with procs := s.procs.set i { x with alive := false } }
    | none => none
  | .runPass => some { s with scans := s.scans ++ [{ now := s.clock }] }
  | .nextKey j key =>
    match s.scans[j]? with
    | some x => if x.alive then s.scanStep cfg j x key else none
    | none => none
  | .crashScan j =>
    match s.scans[j]? with
    | some x => some { s with scans := s.scans.set j { x with alive := false } }
    | none => none
  | .expire key =>
    match (s.redis key).expireAt with
    | some t => if t ≤ s.clock then some { s with redis := Function.update s.redis key .empty } else none
    | none => none
  | .tick d => some { s with clock := s.clock + d }

/-- Any carts whose products have quantities, and nothing in progress. -/
def lts : LTS System Lbl :=
  LTS.ofFn (fun s => s.procs = [] ∧ s.scans = [] ∧ ∀ key, (s.redis key).Typed) (step cfg)

/-- No carts. -/
def noCarts : System := ⟨fun _ => .empty, [], [], [], 0⟩

theorem noCarts_typed (key : String) : (noCarts.redis key).Typed := by
  intro f v h
  cases h

/-- From no carts. -/
def freshLts : LTS System Lbl := LTS.ofFn (fun s => s = noCarts) (step cfg)

end
end System

/-! ## What a step does -/

/-- What one step of a request does to the entry of its key. -/
inductive Moves (cfg : Settings) (now : Nat) (e : Entry) : Request → Pc → Entry → Pc → Prop
  | refuse {u : String} {body : AddItemRequest} {pc : Pc} (hpc : pc = .catalog ∨ ∃ stock, pc = .hget stock)
      (err : AppError) : Moves cfg now e (.addItem u body) pc e (.done (.error err))
  | stock {u : String} {body : AddItemRequest} (stock : Int) :
      Moves cfg now e (.addItem u body) .catalog e (.hget stock)
  | read {u : String} {body : AddItemRequest} {stock current : Int}
      (hq : currentQty e body.productId = some current) (hs : current + body.quantity ≤ stock) :
      Moves cfg now e (.addItem u body) (.hget stock) e (.hset (current + body.quantity))
  | write {u : String} {body : AddItemRequest} {newQty : Int} :
      Moves cfg now e (.addItem u body) (.hset newQty) (e.hset body.productId (.int newQty))
        (.touch none .time)
  | touch {r : Request} {next : Option Answer} {pc : TouchPc} :
      Moves cfg now e r (.touch next pc) (pc.step cfg now e next).1 (pc.step cfg now e next).2
  | cart {u : String} {body : AddItemRequest} :
      Moves cfg now e (.addItem u body) .hgetall e (.done (readCart e))
  | hdel {u p : String} : Moves cfg now e (.removeItem u p) .hdel (e.hdel [p]) .hkeys
  | hkeys {u p : String} :
      Moves cfg now e (.removeItem u p) .hkeys e
        (if e.hasItems then .touch (some .noContent) .time else .done .noContent)
  | hmget {u : String} {ps : List String} :
      Moves cfg now e (.batchRemoveItems u ps) .hmget e
        (if (presentIds e ps).isEmpty then .done (.removed []) else .hdelPresent (presentIds e ps))
  | hdelPresent {u : String} {ps present : List String} :
      Moves cfg now e (.batchRemoveItems u ps) (.hdelPresent present) (e.hdel present)
        (.touch (some (.removed present)) .time)

theorem presentIds_nil (e : Entry) : presentIds e [] = [] := rfl

theorem moves_of_step {cfg : Settings} {catalog : Except AppError Int} {now : Nat} {e e' : Entry}
    {r : Request} {pc pc' : Pc} (h : r.step cfg catalog now e pc = some (e', pc')) :
    Moves cfg now e r pc e' pc' := by
  cases r with
  | addItem u body =>
    simp only [Request.step, addItemStep] at h
    split at h
    · split at h <;> simp only [Option.some.injEq, Prod.mk.injEq] at h <;> obtain ⟨rfl, rfl⟩ := h
      · exact .refuse (.inl rfl) _
      · exact .stock _
    · split at h
      · simp only [Option.some.injEq, Prod.mk.injEq] at h
        obtain ⟨rfl, rfl⟩ := h
        exact .refuse (.inr ⟨_, rfl⟩) _
      · rename_i hq
        split at h <;> simp only [Option.some.injEq, Prod.mk.injEq] at h <;> obtain ⟨rfl, rfl⟩ := h
        · exact .refuse (.inr ⟨_, rfl⟩) _
        · exact .read hq (by omega)
    · simp only [Option.some.injEq, Prod.mk.injEq] at h
      obtain ⟨rfl, rfl⟩ := h
      exact .write
    · simp only [Option.some.injEq] at h
      obtain rfl : e' = _ := (congrArg Prod.fst h).symm
      obtain rfl : pc' = _ := (congrArg Prod.snd h).symm
      exact .touch
    · simp only [Option.some.injEq, Prod.mk.injEq] at h
      obtain ⟨rfl, rfl⟩ := h
      exact .cart
    · cases h
  | removeItem u p =>
    simp only [Request.step, removeItemStep] at h
    split at h
    · simp only [Option.some.injEq, Prod.mk.injEq] at h
      obtain ⟨rfl, rfl⟩ := h
      exact .hdel
    · simp only [Option.some.injEq, Prod.mk.injEq] at h
      obtain ⟨rfl, rfl⟩ := h
      exact .hkeys
    · simp only [Option.some.injEq] at h
      obtain rfl : e' = _ := (congrArg Prod.fst h).symm
      obtain rfl : pc' = _ := (congrArg Prod.snd h).symm
      exact .touch
    · cases h
  | batchRemoveItems u ps =>
    simp only [Request.step, batchRemoveItemsStep] at h
    split at h
    · split at h <;> simp only [Option.some.injEq, Prod.mk.injEq] at h <;> obtain ⟨rfl, rfl⟩ := h
      · rename_i hnil
        obtain rfl := List.isEmpty_iff.mp hnil
        exact .hmget
      · convert Moves.hmget using 1
        split
        · rename_i hp
          rw [List.isEmpty_iff.mp hp]
        · rfl
    · simp only [Option.some.injEq, Prod.mk.injEq] at h
      obtain ⟨rfl, rfl⟩ := h
      exact .hdelPresent
    · simp only [Option.some.injEq] at h
      obtain rfl : e' = _ := (congrArg Prod.fst h).symm
      obtain rfl : pc' = _ := (congrArg Prod.snd h).symm
      exact .touch
    · cases h

/-- What a step does to the system. -/
inductive System.Steps (cfg : Settings) (s : System) : Lbl → System → Prop
  | call (r : Request) : Steps cfg s (.call r) { s with procs := s.procs ++ [{ call := r, pc := r.entry }] }
  | next {i : Nat} {catalog : Except AppError Int} {x : Proc} {e' : Entry} {pc' : Pc}
      (hx : s.procs[i]? = some x) (ha : x.alive = true)
      (hm : Moves cfg s.clock (s.redis (cartKey x.call.userId)) x.call x.pc e' pc') :
      Steps cfg s (.next i catalog) { s with
        redis := Function.update s.redis (cartKey x.call.userId) e'
        procs := s.procs.set i { x with pc := pc' } }
  | crash {i : Nat} {x : Proc} (hx : s.procs[i]? = some x) :
      Steps cfg s (.crash i) { s with procs := s.procs.set i { x with alive := false } }
  | runPass : Steps cfg s .runPass { s with scans := s.scans ++ [{ now := s.clock }] }
  | scan {j : Nat} {key : Option String} {x : Scan} (hx : s.scans[j]? = some x) (ha : x.alive = true)
      (hpc : x.pc = .scan) :
      Steps cfg s (.nextKey j key) { s with
        scans := s.scans.set j { x with pc := match key with | some k => .hgetall k | none => .done } }
  | pass {j : Nat} {key : Option String} {x : Scan} {k : String} (hx : s.scans[j]? = some x)
      (ha : x.alive = true) (hpc : x.pc = .hgetall k) (hab : abandoned cfg x.now (s.redis k) = false) :
      Steps cfg s (.nextKey j key) { s with scans := s.scans.set j { x with pc := .scan } }
  | count {j : Nat} {key : Option String} {x : Scan} {k : String} (hx : s.scans[j]? = some x)
      (ha : x.alive = true) (hpc : x.pc = .hgetall k) (hab : abandoned cfg x.now (s.redis k) = true) :
      Steps cfg s (.nextKey j key) { s with
        abandonments := s.abandonments ++ [k]
        scans := s.scans.set j { x with pc := .flag k } }
  | flag {j : Nat} {key : Option String} {x : Scan} {k : String} (hx : s.scans[j]? = some x)
      (ha : x.alive = true) (hpc : x.pc = .flag k) :
      Steps cfg s (.nextKey j key) { s with
        redis := Function.update s.redis k (flag (s.redis k))
        scans := s.scans.set j { x with pc := .scan } }
  | crashScan {j : Nat} {x : Scan} (hx : s.scans[j]? = some x) :
      Steps cfg s (.crashScan j) { s with scans := s.scans.set j { x with alive := false } }
  | expire {key : String} {t : Nat} (ht : (s.redis key).expireAt = some t) (hdue : t ≤ s.clock) :
      Steps cfg s (.expire key) { s with redis := Function.update s.redis key .empty }
  | tick (d : Nat) : Steps cfg s (.tick d) { s with clock := s.clock + d }

namespace System

theorem steps_of_step {cfg : Settings} {s s' : System} {l : Lbl} (h : s.step cfg l = some s') :
    System.Steps cfg s l s' := by
  cases l with
  | call r =>
    obtain rfl := Option.some.inj h
    exact .call r
  | runPass =>
    obtain rfl := Option.some.inj h
    exact .runPass
  | tick d =>
    obtain rfl := Option.some.inj h
    exact .tick d
  | next i catalog =>
    simp only [System.step] at h
    split at h
    · rename_i x hx
      split at h
      · rename_i ha
        simp only [Option.map_eq_some_iff] at h
        obtain ⟨⟨e', pc'⟩, hop, rfl⟩ := h
        exact .next hx ha (moves_of_step hop)
      · cases h
    · cases h
  | crash i =>
    simp only [System.step] at h
    split at h
    · rename_i x hx
      obtain rfl := Option.some.inj h
      exact .crash hx
    · cases h
  | crashScan j =>
    simp only [System.step] at h
    split at h
    · rename_i x hx
      obtain rfl := Option.some.inj h
      exact .crashScan hx
    · cases h
  | expire key =>
    simp only [System.step] at h
    split at h
    · rename_i t ht
      split at h
      · rename_i hdue
        obtain rfl := Option.some.inj h
        exact .expire ht hdue
      · cases h
    · cases h
  | nextKey j key =>
    simp only [System.step] at h
    split at h
    · rename_i x hx
      split at h
      · rename_i ha
        simp only [scanStep] at h
        split at h
        · rename_i hpc
          obtain rfl := Option.some.inj h
          exact .scan hx ha hpc
        · rename_i k hpc
          split at h <;> obtain rfl := Option.some.inj h
          · rename_i hab
            exact .count hx ha hpc hab
          · rename_i hab
            exact .pass hx ha hpc (by simpa using hab)
        · rename_i k hpc
          obtain rfl := Option.some.inj h
          exact .flag hx ha hpc
        · cases h
      · cases h
    · cases h

end System

/-! ## A request that nothing interrupts -/

section
variable {cfg : Settings} {catalog : Except AppError Int} {now : Nat}

/-- The request by itself: the entry of its key, and where it is. -/
def Request.lts (cfg : Settings) (catalog : Except AppError Int) (now : Nat) (r : Request) :
    LTS (Entry × Pc) Unit :=
  LTS.ofFn (fun _ => True) fun x _ => r.step cfg catalog now x.1 x.2

/-- It leads from one entry and place to another. -/
def Request.Leads (cfg : Settings) (catalog : Except AppError Int) (now : Nat) (r : Request)
    (x x' : Entry × Pc) : Prop :=
  ∃ ls, (r.lts cfg catalog now).Run x ls x'

theorem Request.Leads.step {r : Request} {e e₁ : Entry} {pc pc₁ : Pc} {x : Entry × Pc}
    (h : r.step cfg catalog now e pc = some (e₁, pc₁)) (hx : r.Leads cfg catalog now (e₁, pc₁) x) :
    r.Leads cfg catalog now (e, pc) x := by
  obtain ⟨ls, hrun⟩ := hx
  exact ⟨() :: ls, .cons h hrun⟩

theorem Request.Leads.refl {r : Request} {x : Entry × Pc} : r.Leads cfg catalog now x x := ⟨[], .nil _⟩

/-- `touch_cart` and what follows. -/
theorem leads_touch {r : Request} {e : Entry} {next : Option Answer} {x : Entry × Pc}
    (hr : ∀ e pc, r.step cfg catalog now e (.touch next pc) = some (pc.step cfg now e next))
    (h : r.Leads cfg catalog now (touchCart cfg now e, .after next) x) :
    r.Leads cfg catalog now (e, .touch next .time) x :=
  .step (hr _ _) <| .step (hr _ _) <| .step (hr _ _) <| .step (hr _ _) h

variable (cfg catalog now) in
theorem leads_serve (r : Request) (e : Entry) :
    r.Leads cfg catalog now (e, r.entry)
      ((r.serve cfg catalog now e).1, .done (r.serve cfg catalog now e).2) := by
  cases r with
  | addItem u body =>
    cases catalog with
    | error err => exact .step rfl .refl
    | ok stock =>
      refine .step rfl ?_
      simp only [Request.serve, addItem]
      cases hq : currentQty e body.productId with
      | none => exact .step (by simp [Request.step, addItemStep, hq]) .refl
      | some current =>
        simp only
        split
        · rename_i hlt
          exact .step (by simp [Request.step, addItemStep, hq, hlt]) .refl
        · rename_i hge
          have hread : (Request.addItem u body).step cfg (.ok stock) now e (.hget stock) =
              some (e, .hset (current + body.quantity)) := by
            simp [Request.step, addItemStep, hq, hge]
          exact .step hread (.step rfl (leads_touch (fun _ _ => rfl) (.step rfl .refl)))
  | removeItem u p =>
    refine .step rfl (.step rfl ?_)
    simp only [Request.serve, removeItem]
    split
    · exact leads_touch (fun _ _ => rfl) .refl
    · exact .refl
  | batchRemoveItems u ps =>
    simp only [Request.serve, batchRemoveItems]
    by_cases hnil : ps.isEmpty
    · rw [if_pos hnil]
      exact .step (by simp [Request.step, batchRemoveItemsStep, Request.entry, hnil]) .refl
    · rw [if_neg hnil]
      have hread : (Request.batchRemoveItems u ps).step cfg catalog now e .hmget =
          some (e, if (presentIds e ps).isEmpty then .done (.removed (presentIds e ps))
            else .hdelPresent (presentIds e ps)) := by
        simp [Request.step, batchRemoveItemsStep, hnil]
      refine .step hread ?_
      split
      · exact .refl
      · exact .step rfl (leads_touch (fun _ _ => rfl) .refl)

end

namespace System

/-- The system while only request `i` goes on. -/
theorem run_of_leads {cfg : Settings} {catalog : Except AppError Int} {now i : Nat} {r : Request}
    {x x' : Entry × Pc} {ls : List Unit} (h : (r.lts cfg catalog now).Run x ls x') :
    ∀ {s : System}, s.clock = now → s.procs[i]? = some ⟨r, x.2, true⟩ →
      s.redis (cartKey r.userId) = x.1 →
      ∃ n, (lts cfg).Run s (List.replicate n (.next i catalog))
        { s with
          redis := Function.update s.redis (cartKey r.userId) x'.1
          procs := s.procs.set i ⟨r, x'.2, true⟩ } := by
  induction h with
  | nil x =>
    intro s _ hx he
    obtain ⟨hlt, hget⟩ := List.getElem?_eq_some_iff.mp hx
    rw [← he, Function.update_eq_self, ← hget, List.set_getElem_self]
    exact ⟨0, .nil _⟩
  | @cons x x₁ x₂ l ls hst _ ih =>
    intro s hclock hx he
    let s₁ : System := { s with
      redis := Function.update s.redis (cartKey r.userId) x₁.1
      procs := s.procs.set i ⟨r, x₁.2, true⟩ }
    have hop : r.step cfg catalog now x.1 x.2 = some x₁ := hst
    have hs₁ : s.step cfg (.next i catalog) = some s₁ := by
      simp [step, hx, he, hclock, hop, s₁]
    obtain ⟨n, hrun⟩ := ih (s := s₁) hclock (Procs.set_self hx) (Function.update_self ..)
    refine ⟨n + 1, .cons hs₁ ?_⟩
    simpa [s₁, Function.update_idem, List.set_set] using hrun

/-- **A request alone.** Nothing interrupts it and no time passes: it does what `serve` does. -/
theorem alone (cfg : Settings) (catalog : Except AppError Int) {s : System} {i : Nat} {r : Request}
    (hx : s.procs[i]? = some ⟨r, r.entry, true⟩) :
    ∃ n, (lts cfg).Run s (List.replicate n (.next i catalog))
      { s with
        redis := Function.update s.redis (cartKey r.userId)
          (r.serve cfg catalog s.clock (s.redis (cartKey r.userId))).1
        procs := s.procs.set i
          ⟨r, .done (r.serve cfg catalog s.clock (s.redis (cartKey r.userId))).2, true⟩ } := by
  obtain ⟨ls, hrun⟩ := leads_serve cfg catalog s.clock r
    (s.redis (cartKey r.userId))
  exact run_of_leads hrun rfl hx rfl

end System
end Gestalt.Cart
