import Gestalt.L2Stores.Catalog
import Gestalt.Core.LTS
import Mathlib.Logic.Function.Basic

/-!
# catalog-service: cached reads

The read endpoints and the Redis cache they share with the stock writes, one
request after another. A `Store` is the `products` table and the cache. Redis
has one key for each product, `product:{id}`, and one for each page,
`products:list:{limit}:{offset}`; no string is both. The JSON text stored under
a key is read back as the value it was written from. An entry may expire at any
moment (`ex=settings.product_cache_ttl_seconds`).

A stock write deletes the key of its product. `CatalogServer` runs the same
requests statement by statement.

`ORDER BY id` sorts by the column's collation, which is the parameter `le`.
Ids are compared for equality as strings.
-/
namespace Gestalt.Catalog

/-- mirrors services/catalog-service/app/schemas.py:4-8 -/
structure ProductOut where
  id : String
  name : String
  priceCents : Int
  stock : Int
  deriving DecidableEq, Repr

/-- mirrors services/catalog-service/app/schemas.py:11-15 -/
structure ProductListOut where
  items : List ProductOut
  total : Nat
  limit : Nat
  offset : Nat
  deriving DecidableEq, Repr

/-- The query parameters of `list_products`, as FastAPI validates them.
mirrors services/catalog-service/app/routers/catalog.py:48-49 -/
structure PageQuery where
  limit : Nat
  offset : Nat
  limit_pos : 1 ≤ limit
  limit_le : limit ≤ 100

/-- mirrors services/catalog-service/app/routers/catalog.py:42-43 -/
def toOut (p : Product) : ProductOut := ⟨p.id, p.name, p.priceCents, p.stock⟩

/-- The Redis keys.
mirrors services/catalog-service/app/cache.py:16-17 and
services/catalog-service/app/routers/catalog.py:52 -/
inductive Key
  | product (id : String)
  | page (limit offset : Nat)
  deriving DecidableEq, Repr

structure Cache where
  product : String → Option ProductOut
  page : Nat × Nat → Option ProductListOut

namespace Cache

def empty : Cache := ⟨fun _ => none, fun _ => none⟩

/-- mirrors services/catalog-service/app/cache.py:25-26 -/
def setProduct (c : Cache) (p : String) (v : ProductOut) : Cache :=
  { c with product := Function.update c.product p (some v) }

/-- mirrors services/catalog-service/app/cache.py:29-30 -/
def invalidateProduct (c : Cache) (p : String) : Cache :=
  { c with product := Function.update c.product p none }

/-- mirrors services/catalog-service/app/routers/catalog.py:64 -/
def setPage (c : Cache) (k : Nat × Nat) (v : ProductListOut) : Cache :=
  { c with page := Function.update c.page k (some v) }

/-- An entry reaches its time to live. -/
def expire (c : Cache) : Key → Cache
  | .product p => c.invalidateProduct p
  | .page l o => { c with page := Function.update c.page (l, o) none }

end Cache

structure Store where
  db : Products
  cache : Cache

/-- A request to one of the four endpoints. -/
inductive Request
  | list (q : PageQuery)
  | get (p : String)
  | reserve (body : StockRequest)
  | release (body : StockRequest)

inductive Answer
  | list (r : ProductListOut)
  | get (r : Except AppError ProductOut)
  | stock (r : Except AppError ReserveResponse)

section
variable (le : String → String → Bool)

/-- `SELECT * FROM products ORDER BY id LIMIT :limit OFFSET :offset`. -/
def selectPage (t : Products) (q : PageQuery) : Products :=
  ((t.mergeSort fun a b => le a.id b.id).drop q.offset).take q.limit

/-- The page as the database has it.
mirrors services/catalog-service/app/routers/catalog.py:59-63 -/
def readPage (t : Products) (q : PageQuery) : ProductListOut :=
  ⟨(selectPage le t q).map toOut, t.length, q.limit, q.offset⟩

/-- mirrors services/catalog-service/app/routers/catalog.py:46-65 -/
def listProducts (s : Store) (q : PageQuery) : ProductListOut × Store :=
  match s.cache.page (q.limit, q.offset) with
  | some cached => (cached, s)
  | none =>
    let result := readPage le s.db q
    (result, { s with cache := s.cache.setPage (q.limit, q.offset) result })

/-- The product as the database has it.
mirrors services/catalog-service/app/routers/catalog.py:76-80 -/
def readProduct (t : Products) (p : String) : Except AppError ProductOut :=
  match find t p with
  | none => .error (productNotFound p)
  | some row => .ok (toOut row)

/-- mirrors services/catalog-service/app/routers/catalog.py:68-82 -/
def getProduct (s : Store) (p : String) : Except AppError ProductOut × Store :=
  match s.cache.product p with
  | some cached => (.ok cached, s)
  | none =>
    match readProduct s.db p with
    | .error e => (.error e, s)
    | .ok out => (.ok out, { s with cache := s.cache.setProduct p out })

/-- A stock write and the `invalidate_product` after it: a handler that raises
leaves before the deletion.
mirrors services/catalog-service/app/routers/catalog.py:93-138 -/
def stockWrite (s : Store) (body : StockRequest) (r : Except AppError ReserveResponse × Products) :
    Except AppError ReserveResponse × Store :=
  match r.1 with
  | .error e => (.error e, { s with db := r.2 })
  | .ok out => (.ok out, ⟨r.2, s.cache.invalidateProduct body.productId⟩)

/-- One request, from its arrival to its answer. -/
def handle (s : Store) : Request → Answer × Store
  | .list q => (.list (listProducts le s q).1, (listProducts le s q).2)
  | .get p => (.get (getProduct s p).1, (getProduct s p).2)
  | .reserve body =>
    (.stock (stockWrite s body (reserveStock s.db body)).1,
      (stockWrite s body (reserveStock s.db body)).2)
  | .release body =>
    (.stock (stockWrite s body (releaseStock s.db body)).1,
      (stockWrite s body (releaseStock s.db body)).2)

/-- The answer computed from the database alone. -/
def direct (t : Products) : Request → Answer
  | .list q => .list (readPage le t q)
  | .get p => .get (readProduct t p)
  | .reserve body => .stock (reserveStock t body).1
  | .release body => .stock (releaseStock t body).1

end

/-- What a request moves of a product's stock: minus the quantity of a
reservation that the stock covers, plus that of a release. -/
def Request.moves (t : Products) : Request → String → Int
  | .reserve body, p =>
    if p = body.productId ∧ body.quantity ≤ stockOf t p then -body.quantity else 0
  | .release body, p => if p = body.productId then body.quantity else 0
  | _, _ => 0

/-- Add to every row's stock. -/
def bump (d : String → Int) (r : Product) : Product := { r with stock := r.stock + d r.id }

/-! ## What one request does to the table -/

theorem bump_zero {d : String → Int} {t : Products} (h : ∀ r ∈ t, d r.id = 0) : t.map (bump d) = t := by
  rw [List.map_congr_left (g := id) fun r hr => by simp [bump, h r hr], List.map_id]

theorem bump_bump (d e : String → Int) (t : Products) :
    (t.map (bump d)).map (bump e) = t.map (bump fun p => d p + e p) := by
  rw [List.map_map]
  apply List.map_congr_left
  intro r _
  simp [bump, Int.add_assoc]

theorem addStock_bump (t : Products) (p : String) (d : Int) :
    addStock t p d = t.map (bump fun x => if x = p then d else 0) := by
  unfold addStock Table.modify
  apply List.map_congr_left
  intro r _
  by_cases h : r.id = p <;> simp [bump, h]

@[simp] theorem stockWrite_db (s : Store) (body : StockRequest)
    (r : Except AppError ReserveResponse × Products) : (stockWrite s body r).2.db = r.2 := by
  unfold stockWrite
  split <;> rfl

/-- Every request adds what it moves to the table. -/
theorem handle_db (le : String → String → Bool) (s : Store) (r : Request) :
    (handle le s r).2.db = s.db.map (bump (r.moves s.db)) := by
  cases r with
  | list q =>
    rw [bump_zero fun _ _ => rfl]
    unfold handle listProducts
    simp only
    split <;> rfl
  | get p =>
    rw [bump_zero fun _ _ => rfl]
    unfold handle getProduct
    simp only
    split
    · rfl
    · split <;> rfl
  | reserve body =>
    simp only [handle, stockWrite_db, reserveStock]
    have hq := body.quantity_pos
    cases hf : find s.db body.productId with
    | none =>
      refine (bump_zero ?_).symm
      intro r _
      have hs : stockOf s.db body.productId = 0 := by simp [stockOf, hf]
      refine if_neg ?_
      intro h
      rw [h.1] at h
      omega
    | some row =>
      have hs : stockOf s.db body.productId = row.stock := by simp [stockOf, hf]
      by_cases hlt : row.stock < body.quantity
      · simp only [if_pos hlt]
        refine (bump_zero ?_).symm
        intro r _
        refine if_neg ?_
        intro h
        rw [h.1] at h
        omega
      · simp only [if_neg hlt]
        rw [addStock_bump]
        congr 2
        funext x
        by_cases hx : x = body.productId
        · subst hx
          have hle : body.quantity ≤ stockOf s.db body.productId := by omega
          simp [Request.moves, hle]
        · simp [Request.moves, hx]
  | release body =>
    simp only [handle, stockWrite_db, releaseStock]
    cases hf : find (addStock s.db body.productId body.quantity) body.productId with
    | none =>
      refine (bump_zero ?_).symm
      intro r hr
      refine if_neg ?_
      intro h
      have hmem : ∃ row, find s.db body.productId = some row := h ▸ Table.get_isSome hr
      obtain ⟨row, hrow⟩ := hmem
      rw [find_addStock, hrow] at hf
      simp at hf
    | some row => exact addStock_bump _ _ _

/-- A stock operation raises and leaves the table, or adds to one product's stock. -/
theorem reserveStock_cases (t : Products) (body : StockRequest) :
    (∃ e, reserveStock t body = (.error e, t)) ∨
      ∃ out d, reserveStock t body = (.ok out, addStock t body.productId d) := by
  unfold reserveStock
  split
  · exact .inl ⟨_, rfl⟩
  · split
    · exact .inl ⟨_, rfl⟩
    · exact .inr ⟨_, _, rfl⟩

theorem releaseStock_cases (t : Products) (body : StockRequest) :
    (∃ e, releaseStock t body = (.error e, t)) ∨
      ∃ out d, releaseStock t body = (.ok out, addStock t body.productId d) := by
  unfold releaseStock
  split
  · exact .inl ⟨_, rfl⟩
  · exact .inr ⟨_, _, rfl⟩

/-- A page of the table with other stocks has the same rows. -/
theorem selectPage_bump (le : String → String → Bool) (t : Products) (q : PageQuery)
    (d : String → Int) : selectPage le (t.map (bump d)) q = (selectPage le t q).map (bump d) := by
  unfold selectPage
  have h : (t.mergeSort fun a b => le a.id b.id).map (bump d) =
      (t.map (bump d)).mergeSort fun a b => le a.id b.id :=
    List.map_mergeSort fun _ _ _ _ => rfl
  rw [← h, List.map_take, List.map_drop]

end Gestalt.Catalog
