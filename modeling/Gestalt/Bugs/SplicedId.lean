import Gestalt.L4Checkout.Lookup

/-!
# A product id that names another product in the URL

Status: open.

Behaviour: cart-service (services/cart-service/app/catalog_client.py:18) and
order-service (services/order-service/app/clients.py:35) put the product id into
the path of a URL without encoding it. `?` and `#` end the path there, `/`, `.`
and `..` change its segments, and catalog-service decodes `%XX`. The answer for
the product that is reached is taken for the id that was sent: `add_item` stores
that id with the other product's stock (cart.py:42-50), and `create_order` takes
the other product's price and goes on to persist the line (orders.py:81-93).

Documented: services/cart-service/app/routers/cart.py:40-41, "Validate against
catalog-service so the cart never advertises a price or stock level that's no
longer true"; services/order-service/app/routers/orders.py:79, the price lookup
"also validates every product exists". The stock calls of the same client send
the id in a JSON body, where it arrives as it is (clients.py:52 and :85).

An id that needs no encoding may still name another product: the database
compares ids by the column's collation (the parameter `same`), which may take
`p001` for `P001`, and neither client looks at the `id` of the answer.

Counterexample: `P001?`. The request path is `/catalog/products/P001`, so
`get_product` answers for `P001`.

Fix: `quote(product_id, safe="")` in both clients, and refuse an answer whose `id`
is not the one asked for.
-/
namespace Gestalt.Lookup

open Gestalt.Catalog (Product Products PriceOut)
open Gestalt.Orders (Line)

/-- The catalog has a product with exactly this id, and the answer is its price
and stock. -/
def Shows (db : Products) (productId : String) (out : PriceOut) : Prop :=
  ∃ r ∈ db, r.id = productId ∧ out = ⟨productId, r.priceCents, r.stock⟩

/-- A product id is matched exactly, at every moment: its quantity in a cart
grows, and an order with a line for it gets its amount, only by the price and
stock of the product with that id. -/
structure Exact (o : Url.Origin) (elsewhere : Text → Response) (same : Collation) (t : Products)
    (productId : String) : Prop where
  cart : ∀ m, Occurs same t m → ∀ (cfg : Cart.Settings) (now : Nat) (e : Cart.Entry)
    (body : Cart.AddItemRequest), body.productId = productId →
    (e.quantity productId).getD 0 <
      ((addItem o elsewhere same cfg m now e body).1.quantity productId).getD 0 →
    ∃ out, getPriceAndStock o elsewhere same m productId = .ok out ∧ Shows m.db productId out
  order : ∀ lines : List (Line × Moment), (∀ x ∈ lines, Occurs same t x.2) → ∀ amount,
    priceSnapshot o elsewhere same 0 lines = .ok amount → ∀ x ∈ lines, x.1.productId = productId →
    ∃ out, getPrice o elsewhere same x.2 productId = .ok out ∧ Shows x.2.db productId out

/-! ## The id that goes wrong -/

def notFound (_ : Text) : Response := .status 404 none

def beforeAnyRequest (t : Products) : Moment := ⟨.empty, t, .answered⟩

theorem occurs_first (same : Collation) (t : Products) : Occurs same t (beforeAnyRequest t) :=
  ⟨rfl, fun x v hv => by cases hv⟩

/-- One product, one unit of it. -/
def oneProduct : Products := [⟨"P001", "pen", 250, 1⟩]

def oneItem : Cart.AddItemRequest := ⟨"P001?", 1, Int.one_pos⟩

/-- The cart has an item, and an order has an amount, for a product that does
not exist. -/
theorem accepted_unknown :
    (addItem catalogServiceUrl notFound asText {} (beforeAnyRequest oneProduct) 0 .empty oneItem).1.quantity
        "P001?" = some 1 ∧
      (priceSnapshot catalogServiceUrl notFound asText 0
        [(⟨"P001?", 1⟩, beforeAnyRequest oneProduct)]).toOption = some 250 ∧
      ∀ r ∈ oneProduct, r.id ≠ "P001?" := by
  decide +kernel

/-- **Counterexample.** `P001?` is not matched exactly. -/
theorem product_mismatched : ¬ ∀ (o : Url.Origin) (elsewhere : Text → Response) (same : Collation)
    (t : Products), Table.Unique Product.id t → ∀ p, Exact o elsewhere same t p := by
  intro h
  have hu : Table.Unique Product.id oneProduct := by unfold Table.Unique; decide
  obtain ⟨hcart, -, hnone⟩ := accepted_unknown
  obtain ⟨out, -, r, hr, hid, -⟩ := (h catalogServiceUrl notFound asText oneProduct hu "P001?").cart _
    (occurs_first asText oneProduct) {} 0 .empty oneItem rfl (by rw [hcart]; decide)
  exact hnone r hr hid

/-! ## When an id is matched exactly -/

/-- At the price of the id that its URL leads to, the database finds no product but
the one with exactly this id, and at a product it finds none. -/
structure LeadsHome (o : Url.Origin) (same : Collation) (t : Products) (productId : String) : Prop where
  price : ∀ x r, endpoint o productId = some (.getPrice x) → row same t x = some r → r.id = productId
  product : ∀ x, endpoint o productId = some (.getProduct x) → row same t x = none

section
variable {o : Url.Origin} {elsewhere : Text → Response} {same : Collation} {t : Products} {p : String}

/-- An item is added only after its lookup has succeeded. -/
theorem addItem_grows {cfg : Cart.Settings} {m : Moment} {now : Nat} {e : Cart.Entry}
    {body : Cart.AddItemRequest} (h : (e.quantity p).getD 0 <
      ((addItem o elsewhere same cfg m now e body).1.quantity p).getD 0) :
    ∃ out, getPriceAndStock o elsewhere same m body.productId = .ok out := by
  cases hp : getPriceAndStock o elsewhere same m body.productId with
  | ok out => exact ⟨out, rfl⟩
  | error err =>
    simp only [addItem, hp, Except.map, Cart.addItem] at h
    exact absurd h (Int.lt_irrefl _)

/-- An order has an amount only after the lookup of each line has succeeded. -/
theorem priceSnapshot_ok {amount total : Int} {lines : List (Line × Moment)}
    (h : priceSnapshot o elsewhere same amount lines = .ok total) :
    ∀ x ∈ lines, ∃ out, getPrice o elsewhere same x.2 x.1.productId = .ok out := by
  induction lines generalizing amount with
  | nil => simp
  | cons x lines ih =>
    simp only [priceSnapshot] at h
    split at h
    · cases h
    · rename_i out hout
      exact List.forall_mem_cons.mpr ⟨⟨out, hout⟩, ih h⟩

/-- Every lookup that succeeds is exact. -/
theorem Exact.of_lookup (h : ∀ m out, Occurs same t m → readPrice o elsewhere same m p = .ok out →
    Shows m.db p out) : Exact o elsewhere same t p where
  cart m hm cfg now e body hp hgrow := by
    obtain ⟨out, hout⟩ := addItem_grows hgrow
    rw [hp] at hout
    exact ⟨out, hout, h m out hm hout⟩
  order lines hlines amount hamount x hx hp := by
    obtain ⟨out, hout⟩ := priceSnapshot_ok hamount x hx
    rw [hp] at hout
    exact ⟨out, hout, h x.2 out (hlines x hx) hout⟩

/-- A lookup that succeeds shows the product of exactly this id: it is one line of
an order. -/
theorem Exact.shows (h : Exact o elsewhere same t p) {m : Moment} (hm : Occurs same t m) {out : PriceOut}
    (hread : readPrice o elsewhere same m p = .ok out) : Shows m.db p out := by
  have hsnapshot : priceSnapshot o elsewhere same 0 [(⟨p, 1⟩, m)] = .ok (0 + out.priceCents * 1) := by
    simp only [priceSnapshot, getPrice, hread]
  obtain ⟨out', hout', hshows⟩ := h.order _ (by simpa using hm) _ hsnapshot _ List.mem_cons_self rfl
  obtain rfl := Except.ok.inj (hread.symm.trans hout')
  exact hshows

/-- Redis has the product that the database takes for `x`, read when there was one
unit more. -/
def oneMore (t : Products) (x : String) (r : Product) : Moment :=
  ⟨Catalog.Cache.empty.setProduct x { Catalog.toOut r with stock := r.stock + 1 }, t, .answered⟩

theorem occurs_oneMore {x : String} {r : Product} (hr : row same t x = some r) :
    Occurs same t (oneMore t x r) where
  rows := rfl
  cached y v hv := by
    simp only [oneMore, Catalog.Cache.setProduct, Function.update_apply, Catalog.Cache.empty] at hv
    split at hv
    · rename_i hy
      subst hy
      obtain rfl := Option.some.inj hv
      rw [hr]
      rfl
    · cases hv

theorem Exact.leadsHome (hu : Table.Unique Product.id t) (h : Exact o elsewhere same t p) :
    LeadsHome o same t p where
  price x r he hr := by
    have hread : readPrice o elsewhere same (beforeAnyRequest t) p = .ok ⟨r.id, r.priceCents, r.stock⟩ :=
      readPrice_answered rfl he (by simp only [Endpoint.answer, beforeAnyRequest, hr])
    obtain ⟨r', -, -, hout⟩ := h.shows (occurs_first same t) hread
    exact congrArg PriceOut.id hout
  product x he := by
    cases hr : row same t x with
    | none => rfl
    | some r =>
      have hread : readPrice o elsewhere same (oneMore t x r) p =
          .ok ⟨r.id, r.priceCents, r.stock + 1⟩ :=
        readPrice_answered rfl he (by
          simp [Endpoint.answer, oneMore, Catalog.Cache.setProduct, priced, Catalog.toOut])
      -- the stock is of no row of the table
      obtain ⟨r', hr', hid, hout⟩ := h.shows (occurs_oneMore hr) hread
      have hsame : r' = r := hu.eq hr' (List.mem_of_find?_eq_some hr) (hid.trans (congrArg PriceOut.id hout).symm)
      have hstock : r.stock + 1 = r'.stock := congrArg PriceOut.stock hout
      rw [hsame] at hstock
      omega

theorem LeadsHome.exact (h : LeadsHome o same t p) : Exact o elsewhere same t p := by
  refine .of_lookup fun m out hm hread => ?_
  obtain ⟨-, e, he, ha⟩ := readPrice_ok hread
  cases e with
  | getPrice x =>
    simp only [Endpoint.answer] at ha
    split at ha
    · cases ha
    · rename_i r' hr'
      obtain rfl := Except.ok.inj ha
      have hcols := hm.row x
      rw [hr', Option.map_some] at hcols
      obtain ⟨r, hr, hc⟩ := Option.map_eq_some_iff.mp hcols.symm
      have hid : r'.id = r.id := congrArg Prod.fst hc.symm
      have hp := hid.trans (h.price x r he hr)
      exact ⟨r', List.mem_of_find?_eq_some hr', hp, by rw [hp]⟩
  | getProduct x =>
    have hnone := h.product x he
    have hrow : row same m.db x = none := by simpa [hnone] using hm.row x
    cases hc : m.cache.product x with
    | none => simp [Endpoint.answer, hc, hrow] at ha
    | some v =>
      have := hm.cached x v hc
      simp [hnone] at this

/-- With ids compared as texts: a plain path segment, or a URL that leads to no
product of the catalog. -/
theorem leadsHome_asText : LeadsHome o asText t p ↔ Url.plain p.toList = true ∨
    ∀ e, endpoint o p = some e → ¬ Catalog.Exists t e.productId := by
  have hfind : ∀ {x : String} {r : Product}, row asText t x = some r → r.id = x := fun hr =>
    (Table.get_some hr).2
  constructor
  · intro h
    by_contra hcon
    obtain ⟨hplain, hleads⟩ := not_or.mp hcon
    push Not at hleads
    obtain ⟨e, he, hexists⟩ := hleads
    obtain ⟨r, hr⟩ := Option.isSome_iff_exists.mp hexists
    cases e with
    | getPrice x => exact hplain (plain_of_endpoint he ((hfind hr).symm.trans (h.price x r he hr)))
    | getProduct x => cases (h.product x he).symm.trans hr
  · rintro (hplain | hleads)
    · have hprice : ∀ e, endpoint o p = some e → e = .getPrice p := fun e he =>
        Option.some.inj (he.symm.trans (endpoint_plain hplain (endpoint_some he).1))
      refine ⟨fun x r he hr => ?_, fun x he => by cases hprice _ he⟩
      cases hprice _ he
      exact hfind hr
    · refine ⟨fun x r he hr => absurd ?_ (hleads _ he), fun x he => ?_⟩
      · simp [Catalog.Exists, ← row_asText, Endpoint.productId, hr]
      · simpa [Catalog.Exists, ← row_asText, Endpoint.productId] using hleads _ he

end

/-- **An id is matched exactly** iff its URL leads home: to the price of an id for
which the database finds the product with exactly this id or none, or to no product
at all. -/
theorem exact_iff (o : Url.Origin) (elsewhere : Text → Response) (same : Collation) {t : Products}
    (hu : Table.Unique Product.id t) (p : String) : Exact o elsewhere same t p ↔ LeadsHome o same t p :=
  ⟨Exact.leadsHome hu, LeadsHome.exact⟩

/-- As a case-insensitive collation does for these ids. -/
def lowerCase : Collation := fun a b => a.toLower = b.toLower

/-- Compared as texts, `P001` is matched exactly and `P001/price#` is not; without
regard to case, `p001` is not either. -/
theorem exact_iff_oneProduct : Exact catalogServiceUrl notFound asText oneProduct "P001" ∧
    ¬ Exact catalogServiceUrl notFound asText oneProduct "P001/price#" ∧
    ¬ Exact catalogServiceUrl notFound lowerCase oneProduct "p001" := by
  have hu : Table.Unique Product.id oneProduct := by unfold Table.Unique; decide
  refine ⟨(exact_iff _ _ _ hu _).mpr (leadsHome_asText.mpr (.inl (by decide))), fun h => ?_, fun h => ?_⟩
  · have hleads : endpoint catalogServiceUrl "P001/price#" = some (.getPrice "P001") := by decide +kernel
    exact absurd (((exact_iff _ _ _ hu _).mp h).price "P001" ⟨"P001", "pen", 250, 1⟩ hleads (by decide +kernel))
      (by decide)
  · have hleads : endpoint catalogServiceUrl "p001" = some (.getPrice "p001") := by decide +kernel
    exact absurd (((exact_iff _ _ _ hu _).mp h).price "p001" ⟨"P001", "pen", 250, 1⟩ hleads (by decide +kernel))
      (by decide)

end Gestalt.Lookup
