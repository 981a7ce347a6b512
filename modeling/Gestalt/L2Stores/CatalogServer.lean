import Gestalt.Core.Procs
import Gestalt.Core.Serial
import Gestalt.L2Stores.CatalogCache

/-!
# catalog-service: any number of requests at once

The endpoints of `CatalogCache`, each cut at its SQL statements and Redis calls.
A `Proc` is a request and the statement it executes next (its `Pc` is named
after it). The requests of the server interleave in any order; a statement that
waits for a row lock is a step that is not enabled.

InnoDB: `SELECT ... FOR UPDATE` and `UPDATE` read the last committed version of
a row and lock it until COMMIT or ROLLBACK, if the row exists. A plain `SELECT`
does not lock; it reads the committed rows, and the version of a row its own
transaction has written. `UPDATE` leaves that version to COMMIT (`install`).
`raise` inside `with engine.begin()` is a ROLLBACK.

`serial`: the answers and the table are those of executing the answered stock
requests one after another. The invariant is `Proc.Ok`: what a request inside
its transaction has read is still the committed row, because it holds the lock.
`alone`: a request that nothing interrupts does what `handle` does.
-/
namespace Gestalt.Catalog

/-- Row locks: the request that holds the lock of a product's row. -/
abbrev Locks := String → Option Nat

namespace Locks

def free (k : Locks) (p : String) (i : Nat) : Bool := k p = none ∨ k p = some i

def take (k : Locks) (p : String) (i : Nat) : Locks := Function.update k p (some i)

/-- COMMIT and ROLLBACK drop the locks of the transaction. -/
def drop (k : Locks) (i : Nat) : Locks := fun p => if k p = some i then none else k p

end Locks

/-- `UPDATE products SET stock = stock + d WHERE id = p`: the new version of the
row, or that there is none (`rowcount == 0`). -/
def updateRow (t : Products) (k : Locks) (i : Nat) (p : String) (d : Int) :
    Option (Locks × Option Product) :=
  match find t p with
  | none => some (k, none)
  | some row =>
    if k.free p i then some (k.take p i, some { row with stock := row.stock + d }) else none

/-- COMMIT of a row's new version. -/
def install (t : Products) : Option Product → Products
  | none => t
  | some w => Table.modify Product.id t w.id fun _ => w

inductive ReservePc
  | select
  | check (row : Option Product)
  | commit (write : Option Product) (remaining : Int)
  | invalidate (remaining : Int)
  | done (a : Except AppError ReserveResponse)

inductive ReleasePc
  | update
  | select (write : Option Product)
  | commit (write : Option Product) (row : Option Product)
  | invalidate (row : Option Product)
  | done (a : Except AppError ReserveResponse)

inductive GetPc
  | cache
  | db
  | set (out : ProductOut)
  | done (a : Except AppError ProductOut)

/-- Both SELECTs read the snapshot of the first. -/
inductive ListPc
  | cache
  | total
  | page (snapshot : Products)
  | set (result : ProductListOut)
  | done (a : ProductListOut)

def reserved (body : StockRequest) (remaining : Int) : ReserveResponse :=
  ⟨body.productId, body.orderId, true, remaining⟩

/-- `row.stock` of a row that is None raises. -/
def released (body : StockRequest) : Option Product → Except AppError ReserveResponse
  | none => .error internalError
  | some row => .ok ⟨body.productId, body.orderId, false, row.stock⟩

/-- mirrors services/catalog-service/app/routers/catalog.py:93-119 -/
def ReservePc.step (i : Nat) (body : StockRequest) (s : Store) (k : Locks) :
    ReservePc → Option (Store × Locks × ReservePc)
  | .select =>
    match find s.db body.productId with
    | none => some (s, k, .check none)
    | some row =>
      if k.free body.productId i then some (s, k.take body.productId i, .check (some row)) else none
  | .check none => some (s, k.drop i, .done (.error (productNotFound body.productId)))
  | .check (some row) =>
    if row.stock < body.quantity then some (s, k.drop i, .done (.error insufficientStock))
    else (updateRow s.db k i body.productId (-body.quantity)).map fun u =>
      (s, u.1, .commit u.2 (row.stock - body.quantity))
  | .commit write remaining =>
    some ({ s with db := install s.db write }, k.drop i, .invalidate remaining)
  | .invalidate remaining =>
    some ({ s with cache := s.cache.invalidateProduct body.productId }, k,
      .done (.ok (reserved body remaining)))
  | .done _ => none

/-- mirrors services/catalog-service/app/routers/catalog.py:122-138 -/
def ReleasePc.step (i : Nat) (body : StockRequest) (s : Store) (k : Locks) :
    ReleasePc → Option (Store × Locks × ReleasePc)
  | .update => (updateRow s.db k i body.productId body.quantity).map fun u => (s, u.1, .select u.2)
  | .select none => some (s, k.drop i, .done (.error (productNotFound body.productId)))
  | .select (some write) => some (s, k, .commit (some write) (some write))
  | .commit write row => some ({ s with db := install s.db write }, k.drop i, .invalidate row)
  | .invalidate row =>
    some ({ s with cache := s.cache.invalidateProduct body.productId }, k, .done (released body row))
  | .done _ => none

/-- mirrors services/catalog-service/app/routers/catalog.py:68-82 -/
def GetPc.step (p : String) (s : Store) : GetPc → Option (Store × GetPc)
  | .cache =>
    match s.cache.product p with
    | some cached => some (s, .done (.ok cached))
    | none => some (s, .db)
  | .db =>
    match readProduct s.db p with
    | .error e => some (s, .done (.error e))
    | .ok out => some (s, .set out)
  | .set out => some ({ s with cache := s.cache.setProduct p out }, .done (.ok out))
  | .done _ => none

/-- mirrors services/catalog-service/app/routers/catalog.py:46-65 -/
def ListPc.step (le : String → String → Bool) (q : PageQuery) (s : Store) :
    ListPc → Option (Store × ListPc)
  | .cache =>
    match s.cache.page (q.limit, q.offset) with
    | some cached => some (s, .done cached)
    | none => some (s, .total)
  | .total => some (s, .page s.db)
  | .page snapshot => some (s, .set (readPage le snapshot q))
  | .set result =>
    some ({ s with cache := s.cache.setPage (q.limit, q.offset) result }, .done result)
  | .done _ => none

/-- A request, and where it is. -/
inductive Proc
  | reserve (body : StockRequest) (pc : ReservePc)
  | release (body : StockRequest) (pc : ReleasePc)
  | get (p : String) (pc : GetPc)
  | list (q : PageQuery) (pc : ListPc)

namespace Proc

def start : Request → Proc
  | .reserve body => .reserve body .select
  | .release body => .release body .update
  | .get p => .get p .cache
  | .list q => .list q .cache

/-- The next statement of request `i`. -/
def step (le : String → String → Bool) (i : Nat) (s : Store) (k : Locks) :
    Proc → Option (Store × Locks × Proc)
  | .reserve body pc => (pc.step i body s k).map fun r => (r.1, r.2.1, .reserve body r.2.2)
  | .release body pc => (pc.step i body s k).map fun r => (r.1, r.2.1, .release body r.2.2)
  | .get p pc => (pc.step p s).map fun r => (r.1, k, .get p r.2)
  | .list q pc => (pc.step le q s).map fun r => (r.1, k, .list q r.2)

/-- The answer the request has given. -/
def answer : Proc → Option Answer
  | .reserve _ (.done a) => some (.stock a)
  | .release _ (.done a) => some (.stock a)
  | .get _ (.done a) => some (.get a)
  | .list _ (.done a) => some (.list a)
  | _ => none

end Proc

structure Server where
  store : Store
  locks : Locks
  procs : List Proc

inductive Lbl
  | arrive (r : Request)
  | next (i : Nat)
  | expire (k : Key)

namespace Server

def boot (t : Products) : Server := ⟨⟨t, .empty⟩, fun _ => none, []⟩

def step (le : String → String → Bool) (s : Server) : Lbl → Option Server
  | .arrive r => some { s with procs := s.procs ++ [.start r] }
  | .next i =>
    match s.procs[i]? with
    | none => none
    | some p => (p.step le i s.store s.locks).map fun r => ⟨r.1, r.2.1, s.procs.set i r.2.2⟩
  | .expire key => some { s with store := { s.store with cache := s.store.cache.expire key } }

/-- The server on the rows `t`, whose `id` is the primary key. -/
def lts (le : String → String → Bool) (t : Products) : LTS Server Lbl :=
  LTS.ofFn (fun s => Table.Unique Product.id t ∧ s = boot t) (step le)

/-- No request is in flight. -/
def Quiet (s : Server) : Prop := ∀ p ∈ s.procs, p.answer.isSome

end Server
end Gestalt.Catalog
