import Gestalt.Core.Table
import Gestalt.L1Shared.Http

/-!
# catalog-service: stock

The `products` table and the handlers order-service calls. `reserve_stock` and
`release_stock` each run in one transaction that holds the product's row lock
to its end, so each is one step here: the new table, and the answer. The
handlers raise inside the transaction block, which rolls it back: an error
leaves the table as it was.

`stockOf` and `priceOf` are the columns by product id. The specification of the
two handlers is `stockOf_reserve` and `stockOf_release` (the stock of each
product moves by exactly the quantity, iff the call succeeds),
`reserve_ok` (a reservation is covered by the stock it takes from) and
`release_succeeds`.
-/
namespace Gestalt.Catalog

/-- mirrors services/catalog-service/app/models.py:7-13 -/
structure Product where
  id : String
  name : String
  priceCents : Int
  stock : Int
  deriving DecidableEq, Repr

abbrev Products := List Product

/-- `db.get(Product, id)`, ids being compared as texts; `Lookup.row` is for any collation. -/
def find (t : Products) (p : String) : Option Product := Table.get Product.id t p

/-- `ReserveRequest` and `ReleaseRequest`, whose fields are the same:
`quantity` is `Field(gt=0)`.
mirrors services/catalog-service/app/schemas.py:24-33 -/
structure StockRequest where
  productId : String
  quantity : Int
  orderId : String
  quantity_pos : 0 < quantity
  deriving Repr

/-- mirrors services/catalog-service/app/schemas.py:36-40 -/
structure ReserveResponse where
  productId : String
  orderId : String
  reserved : Bool
  remainingStock : Int
  deriving DecidableEq, Repr

/-- mirrors services/catalog-service/app/schemas.py:18-21 -/
structure PriceOut where
  id : String
  priceCents : Int
  stock : Int
  deriving DecidableEq, Repr

def productNotFound (p : String) : AppError := ⟨"PRODUCT_NOT_FOUND", "No product with id " ++ p, 404⟩

def insufficientStock : AppError :=
  ⟨"INSUFFICIENT_STOCK", "Requested quantity exceeds available stock", 409⟩

/-- `UPDATE products SET stock = stock + d WHERE id = p`. -/
def addStock (t : Products) (p : String) (d : Int) : Products :=
  Table.modify Product.id t p fun r => { r with stock := r.stock + d }

/-- mirrors services/catalog-service/app/routers/catalog.py:85-90 -/
def getPrice (t : Products) (p : String) : Except AppError PriceOut :=
  match find t p with
  | none => .error (productNotFound p)
  | some r => .ok ⟨r.id, r.priceCents, r.stock⟩

/-- mirrors services/catalog-service/app/routers/catalog.py:93-119 -/
def reserveStock (t : Products) (body : StockRequest) : Except AppError ReserveResponse × Products :=
  match find t body.productId with
  | none => (.error (productNotFound body.productId), t)
  | some row =>
    if row.stock < body.quantity then (.error insufficientStock, t)
    else (.ok ⟨body.productId, body.orderId, true, row.stock - body.quantity⟩,
      addStock t body.productId (-body.quantity))

/-- mirrors services/catalog-service/app/routers/catalog.py:122-138 -/
def releaseStock (t : Products) (body : StockRequest) : Except AppError ReserveResponse × Products :=
  match find (addStock t body.productId body.quantity) body.productId with
  | none => (.error (productNotFound body.productId), t)
  | some row => (.ok ⟨body.productId, body.orderId, false, row.stock⟩,
      addStock t body.productId body.quantity)

/-- A stock endpoint on the JSON body `{productId, quantity, orderId}`: the
handler runs only on a body its model accepts. -/
def post (handler : Products → StockRequest → Except AppError ReserveResponse × Products)
    (t : Products) (p : String) (q : Int) (o : String) : Except AppError ReserveResponse × Products :=
  if h : 0 < q then handler t ⟨p, q, o, h⟩ else (.error validationError, t)

/-- `POST /catalog/stock/reserve`. -/
def reserve : Products → String → Int → String → Except AppError ReserveResponse × Products :=
  post reserveStock

/-- `POST /catalog/stock/release`. -/
def release : Products → String → Int → String → Except AppError ReserveResponse × Products :=
  post releaseStock

/-! ## Columns -/

def stockOf (t : Products) (p : String) : Int := ((find t p).map Product.stock).getD 0

def priceOf (t : Products) (p : String) : Int := ((find t p).map Product.priceCents).getD 0

def Exists (t : Products) (p : String) : Prop := (find t p).isSome = true

theorem find_addStock (t : Products) (p x : String) (d : Int) :
    find (addStock t p d) x =
      if x = p then (find t x).map fun r => { r with stock := r.stock + d } else find t x := by
  unfold find addStock
  exact Table.get_modify fun _ => rfl

@[simp] theorem priceOf_addStock (t : Products) (p x : String) (d : Int) :
    priceOf (addStock t p d) x = priceOf t x := by
  unfold priceOf
  rw [find_addStock]
  split
  · cases find t x <;> rfl
  · rfl

@[simp] theorem exists_addStock (t : Products) (p x : String) (d : Int) :
    Exists (addStock t p d) x ↔ Exists t x := by
  unfold Exists
  rw [find_addStock]
  split <;> simp

theorem stockOf_addStock {t : Products} {p : String} (hp : Exists t p) (x : String) (d : Int) :
    stockOf (addStock t p d) x = stockOf t x + if x = p then d else 0 := by
  unfold stockOf
  rw [find_addStock]
  split
  · rename_i hx; subst hx
    unfold Exists at hp
    cases hf : find t x with
    | none => rw [hf] at hp; cases hp
    | some r => simp
  · simp

/-! ## The handlers -/

/-- The call answers 200. -/
def succeeds (r : Except AppError ReserveResponse × Products) : Bool := (wire r.1).ok

theorem reserve_cases (t : Products) (p : String) (q : Int) (o : String) :
    (succeeds (reserve t p q o) = true ∧ 0 < q ∧ q ≤ stockOf t p ∧ Exists t p ∧
      (reserve t p q o).2 = addStock t p (-q)) ∨
    (succeeds (reserve t p q o) = false ∧ (reserve t p q o).2 = t) := by
  unfold reserve post reserveStock
  split
  · rename_i hq
    simp only
    split
    · exact .inr ⟨rfl, rfl⟩
    · rename_i row hf
      split
      · exact .inr ⟨rfl, rfl⟩
      · exact .inl ⟨rfl, hq, by simp [stockOf, hf]; omega, by simp [Exists, hf], rfl⟩
  · exact .inr ⟨rfl, rfl⟩

theorem release_cases (t : Products) (p : String) (q : Int) (o : String) :
    (succeeds (release t p q o) = true ∧ 0 < q ∧ Exists t p ∧
      (release t p q o).2 = addStock t p q) ∨
    (succeeds (release t p q o) = false ∧ (release t p q o).2 = t) := by
  unfold release post releaseStock
  split
  · rename_i hq
    simp only
    split
    · exact .inr ⟨rfl, rfl⟩
    · rename_i row hf
      have he : Exists (addStock t p q) p := by simp [Exists, hf]
      exact .inl ⟨rfl, hq, (exists_addStock t p p q).mp he, rfl⟩
  · exact .inr ⟨rfl, rfl⟩

/-- A successful reservation is of a positive quantity that the stock covers. -/
theorem reserve_ok {t : Products} {p : String} {q : Int} {o : String}
    (h : succeeds (reserve t p q o) = true) : 0 < q ∧ q ≤ stockOf t p ∧ Exists t p := by
  rcases reserve_cases t p q o with ⟨-, h1, h2, h3, -⟩ | ⟨hf, -⟩
  · exact ⟨h1, h2, h3⟩
  · rw [hf] at h; cases h

theorem stockOf_reserve (t : Products) (p : String) (q : Int) (o x : String) :
    stockOf (reserve t p q o).2 x =
      stockOf t x - if succeeds (reserve t p q o) = true ∧ x = p then q else 0 := by
  rcases reserve_cases t p q o with ⟨hs, -, -, he, ht⟩ | ⟨hs, ht⟩
  · rw [ht, stockOf_addStock he, hs]
    split <;> simp_all [Int.sub_eq_add_neg]
  · rw [ht, hs]; simp

theorem stockOf_release (t : Products) (p : String) (q : Int) (o x : String) :
    stockOf (release t p q o).2 x =
      stockOf t x + if succeeds (release t p q o) = true ∧ x = p then q else 0 := by
  rcases release_cases t p q o with ⟨hs, -, he, ht⟩ | ⟨hs, ht⟩
  · rw [ht, stockOf_addStock he, hs]; simp
  · rw [ht, hs]; simp

/-- A release of a positive quantity of a known product cannot be refused. -/
theorem release_succeeds {t : Products} {p : String} {q : Int} (o : String) (hq : 0 < q)
    (hp : Exists t p) : succeeds (release t p q o) = true := by
  have he := (exists_addStock t p p q).mpr hp
  unfold Exists at he
  unfold release post releaseStock
  rw [dif_pos hq]
  simp only
  split
  · rename_i hf; rw [hf] at he; cases he
  · rfl

@[simp] theorem priceOf_reserve (t : Products) (p : String) (q : Int) (o x : String) :
    priceOf (reserve t p q o).2 x = priceOf t x := by
  rcases reserve_cases t p q o with ⟨-, -, -, -, ht⟩ | ⟨-, ht⟩ <;> simp [ht]

@[simp] theorem priceOf_release (t : Products) (p : String) (q : Int) (o x : String) :
    priceOf (release t p q o).2 x = priceOf t x := by
  rcases release_cases t p q o with ⟨-, -, -, ht⟩ | ⟨-, ht⟩ <;> simp [ht]

@[simp] theorem exists_reserve (t : Products) (p : String) (q : Int) (o x : String) :
    Exists (reserve t p q o).2 x ↔ Exists t x := by
  rcases reserve_cases t p q o with ⟨-, -, -, -, ht⟩ | ⟨-, ht⟩ <;> simp [ht]

@[simp] theorem exists_release (t : Products) (p : String) (q : Int) (o x : String) :
    Exists (release t p q o).2 x ↔ Exists t x := by
  rcases release_cases t p q o with ⟨-, -, -, ht⟩ | ⟨-, ht⟩ <;> simp [ht]

end Gestalt.Catalog
