import Gestalt.Core.Url
import Gestalt.L2Stores.Cart
import Gestalt.L2Stores.CatalogReads
import Gestalt.L2Stores.Orders

/-!
# Product lookup through a URL

cart-service and order-service ask catalog-service for a price at
`{catalog_service_url}/catalog/products/{product_id}/price`, with the product id
put into the text as it is. `endpoint` is the handler of a single product that
the request reaches, if any, with the id that the router reads from the path.
Any other path (the product list, health, metrics, the documentation, no route)
is answered without a `price_cents` or a `stock`.

`get_product` and `get_price` both answer with these two, so the clients cannot
tell them apart. A `Moment` is what a lookup finds: the cache when Redis is read,
the table when the row is selected, and whether the answer arrives. The database
compares ids by the column's collation, the parameter `same`; with `asText` the
handlers are those of `Catalog` (`answer_asText`).

`endpoint_plain`: an id that is a plain path segment reaches `get_price` under
its own name. `plain_of_endpoint`: no other id is read back as itself.
`readPrice_cache`: stock may move meanwhile and Redis may hold anything it can
(`Occurs`), the price is that of the row.
-/
namespace Gestalt.Lookup

open Gestalt.Catalog (PriceOut Product ProductOut Products)
open Gestalt.Orders (Line)

def catalog : Text := "catalog".toList

def products : Text := "products".toList

def price : Text := "price".toList

/-- mirrors services/cart-service/app/catalog_client.py:18 and
services/order-service/app/clients.py:35 -/
def priceUrl (o : Url.Origin) (productId : String) : Text :=
  o.text ++ ("/catalog/products/".toList ++ productId.toList ++ "/price".toList)

/-- services/cart-service/app/config.py:17 and services/order-service/app/config.py:12 -/
def catalogServiceUrl : Url.Origin where
  scheme := "http".toList
  authority := "catalog-service:8080".toList
  scheme_ok := by decide
  authority_ok := by decide

inductive Endpoint
  | getProduct (productId : String)
  | getPrice (productId : String)
  deriving DecidableEq, Repr

def Endpoint.productId : Endpoint → String
  | .getProduct p => p
  | .getPrice p => p

/-- The routes of a single product; a parameter matches one segment that is not empty.
mirrors services/catalog-service/app/routers/catalog.py:26, :68 and :85 -/
def route (segments : List Text) : Option Endpoint :=
  match segments with
  | [root, a, b, p] =>
    if root = [] ∧ a = catalog ∧ b = products ∧ p ≠ [] then some (.getProduct (String.ofList p)) else none
  | [root, a, b, p, c] =>
    if root = [] ∧ a = catalog ∧ b = products ∧ p ≠ [] ∧ c = price then
      some (.getPrice (String.ofList p))
    else none
  | _ => none

/-- Where the lookup of a product id ends up. -/
def endpoint (o : Url.Origin) (productId : String) : Option Endpoint :=
  (Url.target (priceUrl o productId)).bind route

/-- The id that catalog-service is asked for; `productId` itself where it is asked for none. -/
def named (o : Url.Origin) (productId : String) : String :=
  ((endpoint o productId).map Endpoint.productId).getD productId

/-- The lookup of the id ends up at a product. -/
def leads (o : Url.Origin) (t : Products) (productId : String) : Bool :=
  (endpoint o productId).any fun e => (Catalog.find t e.productId).isSome

/-- Every product has its price at the URL of its id. -/
def Addressable (o : Url.Origin) (t : Products) : Prop := ∀ r ∈ t, endpoint o r.id = some (.getPrice r.id)

instance (o : Url.Origin) (t : Products) : Decidable (Addressable o t) :=
  inferInstanceAs (Decidable (∀ r ∈ t, endpoint o r.id = some (.getPrice r.id)))

/-- Whether the database takes the first id, a row's, for the second. -/
abbrev Collation := String → String → Bool

/-- Equal texts. -/
def asText : Collation := fun a b => a = b

/-- `db.get(Product, id)`. -/
def row (same : Collation) (t : Products) (p : String) : Option Product := t.find? fun r => same r.id p

structure Moment where
  cache : Catalog.Cache
  db : Products
  delivery : Delivery

/-- The `id`, `price_cents` and `stock` of the body. -/
def priced (out : ProductOut) : PriceOut := ⟨out.id, out.priceCents, out.stock⟩

/-- mirrors services/catalog-service/app/routers/catalog.py:68-90 -/
def Endpoint.answer (same : Collation) (m : Moment) : Endpoint → Except AppError PriceOut
  | .getProduct p =>
    match m.cache.product p, row same m.db p with
    | some cached, _ => .ok (priced cached)
    | none, none => .error (Catalog.productNotFound p)
    | none, some r => .ok (priced (Catalog.toOut r))
  | .getPrice p =>
    match row same m.db p with
    | none => .error (Catalog.productNotFound p)
    | some r => .ok ⟨r.id, r.priceCents, r.stock⟩

/-- mirrors services/cart-service/app/catalog_client.py:21-27 and
services/order-service/app/clients.py:39-44 -/
def priceError (productId : String) : Response → AppError
  | .httpError exc => ⟨"CATALOG_UNAVAILABLE", "catalog-service is unavailable: " ++ exc, 503⟩
  | .status 404 _ => ⟨"PRODUCT_NOT_FOUND", "No product with id " ++ productId, 404⟩
  | .status _ _ => ⟨"CATALOG_ERROR", "catalog-service returned an unexpected error", 502⟩

section
variable (o : Url.Origin) (elsewhere : Text → Response) (same : Collation)

/-- What the two clients share. `httpx.InvalidURL` is no `httpx.HTTPError`, and
`["stock"]` of a body without one is a `KeyError`: both end as a 500. -/
def readPrice (m : Moment) (productId : String) : Except AppError PriceOut :=
  let url := priceUrl o productId
  match Url.target url with
  | none => .error internalError
  | some segments =>
    match route segments with
    | none =>
      match m.delivery.seen (elsewhere url) with
      | .status 200 _ => .error internalError
      | r => .error (priceError productId r)
    | some e =>
      match m.delivery, e.answer same m with
      | .answered, .ok body => .ok body
      | d, r => .error (priceError productId (d.seen (wire r)))

/-- mirrors services/cart-service/app/catalog_client.py:15-28 -/
def getPriceAndStock : Moment → String → Except AppError PriceOut := readPrice o elsewhere same

/-- mirrors services/order-service/app/clients.py:32-45 -/
def getPrice : Moment → String → Except AppError PriceOut := readPrice o elsewhere same

/-- mirrors services/cart-service/app/routers/cart.py:38-53 -/
def addItem (cfg : Cart.Settings) (m : Moment) (now : Nat) (e : Cart.Entry) (body : Cart.AddItemRequest) :
    Cart.Entry × Cart.Answer :=
  Cart.addItem cfg ((getPriceAndStock o elsewhere same m body.productId).map PriceOut.stock) now e body

/-- The amount, or the first error; each line is looked up at a moment of its own.
mirrors services/order-service/app/routers/orders.py:80-83 -/
def priceSnapshot (amount : Int) : List (Line × Moment) → Except AppError Int
  | [] => .ok amount
  | (l, m) :: lines =>
    match getPrice o elsewhere same m l.productId with
    | .error e => .error e
    | .ok p => priceSnapshot (amount + p.priceCents * l.quantity) lines

end

/-! ## The path of the URL -/

/-- The segments before the product id. -/
def base : List Text := [[], catalog, products]

/-- The segments kept, each decoded. -/
def decoded (segments : List Text) : List Text := segments.flatMap fun s => Url.split (Url.unquote s)

theorem decoded_base (segments : List Text) : decoded (base ++ segments) = base ++ decoded segments := by
  unfold decoded
  rw [List.flatMap_append]
  exact congrArg (· ++ _) (by decide)

/-- What the URL's text is after the origin. -/
theorem rawPath_priceUrl (o : Url.Origin) (p : String) :
    Url.rawPath (priceUrl o p) = Url.join base ++ '/' :: Url.cut (p.toList ++ '/' :: price) := by
  have htext : "/catalog/products/".toList ++ p.toList ++ "/price".toList =
      '/' :: ("catalog/products/".toList ++ (p.toList ++ '/' :: price)) := by
    simp [price]
  have hbase : Url.join base ++ ['/'] = '/' :: "catalog/products/".toList := by decide
  unfold priceUrl
  rw [htext, Url.rawPath_origin, ← List.cons_append, ← hbase, Url.cut_append (by decide),
    List.append_assoc]
  rfl

/-- What the router matches, `w` being what the path has after `/catalog/products/`. -/
theorem path_priceUrl {o : Url.Origin} {p : String} {w : Text}
    (h : Url.cut (p.toList ++ '/' :: price) = w) {segments : List Text}
    (hs : (Url.split w).foldl Url.pushSegment base = segments) (hne : segments ≠ []) :
    Url.path (priceUrl o p) = decoded segments := by
  have hdots : Url.removeDots (Url.split (Url.rawPath (priceUrl o p))) = segments := by
    rw [rawPath_priceUrl, h, Url.split_slash, Url.removeDots, List.foldl_append]
    exact hs
  rw [Url.path_eq (by rwa [hdots]), hdots]
  rfl

theorem route_some {segments : List Text} {e : Endpoint} (h : route segments = some e) :
    e.productId ≠ "" ∧
      (segments = base ++ [e.productId.toList] ∧ e = .getProduct e.productId ∨
        segments = base ++ [e.productId.toList, price] ∧ e = .getPrice e.productId) := by
  unfold route at h
  split at h
  · split at h
    · rename_i p hc
      obtain ⟨rfl, rfl, rfl, hp⟩ := hc
      obtain rfl := Option.some.inj h
      exact ⟨by simpa [Endpoint.productId] using hp, .inl (by simp [base, Endpoint.productId])⟩
    · cases h
  · split at h
    · rename_i p _ hc
      obtain ⟨rfl, rfl, rfl, hp, rfl⟩ := hc
      obtain rfl := Option.some.inj h
      exact ⟨by simpa [Endpoint.productId] using hp, .inr (by simp [base, Endpoint.productId])⟩
    · cases h
  · cases h

theorem endpoint_some {o : Url.Origin} {p : String} {e : Endpoint} (h : endpoint o p = some e) :
    Url.accepts (priceUrl o p) = true ∧ route (Url.path (priceUrl o p)) = some e := by
  obtain ⟨segments, ht, hr⟩ := Option.bind_eq_some_iff.mp h
  unfold Url.target at ht
  split at ht
  · rename_i ha
    obtain rfl := Option.some.inj ht
    exact ⟨ha, hr⟩
  · cases ht

theorem cut_whole {p : String} (h : p.toList.all (fun c => !Url.ends c) = true) :
    Url.cut (p.toList ++ '/' :: price) = p.toList ++ '/' :: price := by
  rw [Url.cut_append h]
  exact congrArg _ (by decide)

/-- What is left of the path of an id without slash that does not end it. -/
theorem split_whole {p : String} (h : '/' ∉ p.toList) :
    (Url.split (p.toList ++ '/' :: price)).foldl Url.pushSegment base =
      Url.pushSegment base p.toList ++ [price] := by
  rw [Url.split_slash, Url.split_singleton h]
  exact Url.pushSegment_keep (s := price) (by decide) (by decide)

/-- **A plain id** reaches `get_price` under its own name. -/
theorem endpoint_plain {o : Url.Origin} {p : String} (hp : Url.plain p.toList = true)
    (ha : Url.accepts (priceUrl o p) = true) : endpoint o p = some (.getPrice p) := by
  obtain ⟨hne, hdot, hdots, hdelim, hesc⟩ := Url.plain_iff.mp hp
  have hslash := Url.slash_of_delimits hdelim
  have hcut := cut_whole (List.all_eq_true.mpr fun c hc => by
    simpa using (Bool.or_eq_false_iff.mp (hdelim c hc)).2)
  have hpath : Url.path (priceUrl o p) = base ++ [p.toList, price] := by
    rw [path_priceUrl hcut (split_whole hslash) (by simp), Url.pushSegment_keep hdot hdots,
      List.append_assoc, decoded_base]
    simp only [decoded, List.flatMap_append, List.flatMap_singleton, Url.unquote_eq_iff.mpr hesc,
      Url.split_singleton hslash]
    rfl
  unfold endpoint Url.target
  rw [if_pos ha, Option.bind_some, hpath]
  simp [base, route, hne]

/-- After `/catalog/products/`, a segment is kept, or is a dot that changes which
route there is to match. -/
theorem pushSegment_base (w : Text) : Url.pushSegment base w = base ∧ w = ['.'] ∨
    Url.pushSegment base w = [[], catalog] ∧ w = ['.', '.'] ∨
    Url.pushSegment base w = base ++ [w] ∧ w ≠ ['.'] ∧ w ≠ ['.', '.'] := by
  by_cases hdot : w = ['.']
  · subst hdot
    exact .inl ⟨rfl, rfl⟩
  · by_cases hdots : w = ['.', '.']
    · subst hdots
      exact .inr (.inl ⟨by decide, rfl⟩)
    · exact .inr (.inr ⟨Url.pushSegment_keep hdot hdots, hdot, hdots⟩)

/-- The path matches a route for `x`. -/
def Routes (segments : List Text) (x : Text) : Prop :=
  segments = base ++ [x] ∨ segments = base ++ [x, price]

theorem not_routes_of_length {segments : List Text} (x : Text) (h : segments.length ≤ 3) :
    ¬ Routes segments x := by
  rintro (rfl | rfl) <;> simp [base] at h

/-- A path that is cut inside the id matches for a shorter one. -/
theorem routes_cut {p : String} {x : Text} (hslash : '/' ∉ p.toList)
    (hends : p.toList.all (fun c => !Url.ends c) = false) {o : Url.Origin}
    (h : Routes (Url.path (priceUrl o p)) x) : x.length < p.toList.length := by
  obtain ⟨hcut, hlt⟩ := Url.length_cut hends ('/' :: price)
  have hw : '/' ∉ Url.cut p.toList := fun hm => hslash (List.takeWhile_subset _ hm)
  have hpush : (Url.split (Url.cut p.toList)).foldl Url.pushSegment base =
      Url.pushSegment base (Url.cut p.toList) := by
    rw [Url.split_singleton hw]
    rfl
  rcases pushSegment_base (Url.cut p.toList) with ⟨hb, -⟩ | ⟨hb, -⟩ | ⟨hb, -⟩
  · rw [path_priceUrl hcut (hpush.trans hb) (by decide)] at h
    exact absurd h (not_routes_of_length x (by decide))
  · rw [path_priceUrl hcut (hpush.trans hb) (by decide)] at h
    exact absurd h (not_routes_of_length x (by decide))
  · rw [path_priceUrl hcut (hpush.trans hb) (by simp)] at h
    have hdec : decoded [Url.cut p.toList] = Url.split (Url.unquote (Url.cut p.toList)) := by
      simp [decoded]
    have hjoin := Url.join_split (Url.unquote (Url.cut p.toList))
    have hle := Url.length_unquote (Url.cut p.toList)
    rcases h with h | h
    all_goals
      have hsplit := List.append_cancel_left ((decoded_base _).symm.trans h)
      rw [hdec] at hsplit
      rw [← hjoin, hsplit] at hle
    · simp only [Url.join, List.intercalate_singleton] at hle
      omega
    · simp only [Url.join, List.intercalate_cons_cons, List.length_append] at hle
      omega

/-- A path that is not cut matches for the id it has, decoded. -/
theorem routes_whole {p : String} (hslash : '/' ∉ p.toList)
    (hends : p.toList.all (fun c => !Url.ends c) = true) {o : Url.Origin}
    (h : Routes (Url.path (priceUrl o p)) p.toList) :
    p.toList ≠ ['.'] ∧ p.toList ≠ ['.', '.'] ∧ Url.unescaped p.toList = true := by
  have hcut := cut_whole hends
  have hpush := split_whole hslash
  rcases pushSegment_base p.toList with ⟨hb, hp⟩ | ⟨hb, hp⟩ | ⟨hb, hdot, hdots⟩
  · rw [path_priceUrl hcut (hpush.trans (congrArg (· ++ _) hb)) (by decide), hp] at h
    exact absurd h (by unfold Routes; decide)
  · rw [path_priceUrl hcut (hpush.trans (congrArg (· ++ _) hb)) (by decide)] at h
    exact absurd h (not_routes_of_length _ (by decide))
  · refine ⟨hdot, hdots, Url.unquote_eq_iff.mp ?_⟩
    rw [path_priceUrl hcut (hpush.trans (congrArg (· ++ _) hb)) (by simp), List.append_assoc] at h
    have hdec : decoded ([p.toList] ++ [price]) = Url.split (Url.unquote p.toList) ++ [price] := by
      simp only [decoded, List.flatMap_append, List.flatMap_singleton]
      exact congrArg _ (by decide)
    rcases h with h | h
    all_goals
      have hsplit := List.append_cancel_left ((decoded_base _).symm.trans h)
      rw [hdec] at hsplit
    · have hlen := congrArg List.length hsplit
      have hpos := List.length_pos_iff.mpr (List.splitOn_ne_nil '/' (Url.unquote p.toList))
      simp only [Url.split, List.length_append, List.length_cons, List.length_nil] at hlen
      omega
    · have hone : Url.split (Url.unquote p.toList) = [p.toList] :=
        List.append_cancel_right (hsplit.trans (List.append_cons [] p.toList [price]))
      rw [← Url.join_split (Url.unquote p.toList), hone]
      exact List.intercalate_singleton

/-- **Only a plain id** is read back as itself. -/
theorem plain_of_endpoint {o : Url.Origin} {p : String} {e : Endpoint} (h : endpoint o p = some e)
    (he : e.productId = p) : Url.plain p.toList = true := by
  obtain ⟨-, hr⟩ := endpoint_some h
  obtain ⟨hne, hroute⟩ := route_some hr
  rw [he] at hne hroute
  have hroutes : Routes (Url.path (priceUrl o p)) p.toList := hroute.imp And.left And.left
  have hslash : '/' ∉ p.toList := by
    have hmem : p.toList ∈ Url.path (priceUrl o p) := by
      rcases hroutes with h | h <;> simp [h]
    unfold Url.path at hmem
    exact Url.slash_not_mem hmem
  cases hends : p.toList.all fun c => !Url.ends c with
  | true =>
    obtain ⟨hdot, hdots, hesc⟩ := routes_whole hslash hends hroutes
    refine Url.plain_iff.mpr ⟨by simpa using hne, hdot, hdots, ?_, hesc⟩
    intro c hc
    have hs : c ≠ '/' := fun hs => hslash (hs ▸ hc)
    have he : Url.ends c = false := by simpa using List.all_eq_true.mp hends c hc
    simp [Url.delimits, hs, he]
  | false => exact absurd (routes_cut hslash hends hroutes) (Nat.lt_irrefl _)

/-! ## The ids -/

theorem named_of_endpoint {o : Url.Origin} {p : String} {e : Endpoint} (h : endpoint o p = some e) :
    named o p = e.productId := by
  simp [named, h]

theorem addressable_iff {o : Url.Origin} {t : Products} : Addressable o t ↔
    ∀ r ∈ t, Url.plain r.id.toList = true ∧ Url.accepts (priceUrl o r.id) = true :=
  forall₂_congr fun _ _ => ⟨fun h => ⟨plain_of_endpoint h rfl, (endpoint_some h).1⟩,
    fun h => endpoint_plain h.1 h.2⟩

/-- mirrors services/catalog-service/app/seed.py:10-16 -/
def demoProducts : Products :=
  [⟨"P001", "Wireless Mouse", 1999, 100⟩, ⟨"P002", "Mechanical Keyboard", 6999, 50⟩,
    ⟨"P003", "USB-C Hub", 2999, 75⟩, ⟨"P004", "27in Monitor", 24999, 20⟩, ⟨"P005", "Laptop Stand", 3499, 60⟩]

example : Addressable catalogServiceUrl demoProducts := by decide +kernel

theorem Addressable.endpoint {o : Url.Origin} {t : Products} (h : Addressable o t) {p : String}
    (hp : Catalog.Exists t p) : endpoint o p = some (.getPrice p) := by
  obtain ⟨r, hr⟩ := Option.isSome_iff_exists.mp hp
  obtain ⟨hmem, rfl⟩ := Table.get_some hr
  exact h r hmem

theorem Addressable.named {o : Url.Origin} {t : Products} (h : Addressable o t) {p : String}
    (hp : Catalog.Exists t p) : named o p = p :=
  named_of_endpoint (h.endpoint hp)

/-! ## The handlers -/

theorem row_asText (t : Products) (p : String) : row asText t p = Catalog.find t p := rfl

/-- With ids compared as texts, the handlers are those of `Catalog`. -/
theorem answer_asText (m : Moment) (e : Endpoint) : e.answer asText m =
    match e with
    | .getProduct p => (Catalog.getProduct ⟨m.db, m.cache⟩ p).1.map priced
    | .getPrice p => Catalog.getPrice m.db p := by
  cases e with
  | getPrice p =>
    cases h : Catalog.find m.db p <;> simp only [Endpoint.answer, row_asText, Catalog.getPrice, h]
  | getProduct p =>
    simp only [Endpoint.answer, row_asText, Catalog.getProduct, Catalog.readProduct]
    cases m.cache.product p with
    | some cached => rfl
    | none => cases Catalog.find m.db p <;> rfl

/-! ## The clients -/

section
variable {o : Url.Origin} {elsewhere : Text → Response} {same : Collation} {m : Moment} {p : String}
  {body : PriceOut}

/-- A lookup succeeds with the answer of the handler it reaches. -/
theorem readPrice_ok (h : readPrice o elsewhere same m p = .ok body) :
    m.delivery = .answered ∧ ∃ e, endpoint o p = some e ∧ e.answer same m = .ok body := by
  unfold readPrice at h
  simp only at h
  split at h
  · cases h
  · rename_i segments ht
    split at h
    · split at h <;> cases h
    · rename_i e hr
      split at h
      · rename_i hd ha
        obtain rfl := Except.ok.inj h
        exact ⟨hd, e, by rw [endpoint, ht]; exact hr, ha⟩
      · cases h

theorem readPrice_answered {e : Endpoint} (hd : m.delivery = .answered) (he : endpoint o p = some e)
    (ha : e.answer same m = .ok body) : readPrice o elsewhere same m p = .ok body := by
  obtain ⟨segments, ht, hr⟩ := Option.bind_eq_some_iff.mp he
  simp only [readPrice, ht, hr, hd, ha]

/-- The price read from the table is that of the product that is asked for. -/
theorem readPrice_named {t : Products} {d : Delivery}
    (h : readPrice o elsewhere asText ⟨.empty, t, d⟩ p = .ok body) :
    body.priceCents = Catalog.priceOf t (named o p) ∧ Catalog.Exists t (named o p) := by
  obtain ⟨-, e, he, ha⟩ := readPrice_ok h
  rw [named_of_endpoint he]
  unfold Catalog.priceOf Catalog.Exists
  cases e with
  | getPrice x =>
    simp only [Endpoint.answer, row_asText] at ha
    split at ha
    · cases ha
    · rename_i r hr
      obtain rfl := Except.ok.inj ha
      simp [Endpoint.productId, hr]
  | getProduct x =>
    simp only [Endpoint.answer, row_asText, Catalog.Cache.empty] at ha
    split at ha
    · rename_i hcached
      cases hcached
    · cases ha
    · rename_i r hr
      obtain rfl := Except.ok.inj ha
      simp [Endpoint.productId, hr, priced, Catalog.toOut]

/-- A moment while catalog-service works on the table `t`: only the stock of a row
moves, and Redis has, under an id, the product that the database takes for it,
with the stock of some other moment. -/
structure Occurs (same : Collation) (t : Products) (m : Moment) : Prop where
  rows : Catalog.SameRows t m.db
  cached : ∀ x v, m.cache.product x = some v → (row same t x).map Product.columns = some v.columns

theorem Occurs.row {t : Products} (h : Occurs same t m) (x : String) :
    (row same m.db x).map Product.columns = (row same t x).map Product.columns := by
  have hfind : ∀ u : Products, (Lookup.row same u x).map Product.columns =
      (u.map Product.columns).find? fun c => same c.1 x := by
    intro u
    rw [List.find?_map]
    rfl
  rw [hfind, hfind, h.rows]

/-- Redis read at one time of a run of catalog-service, the row at another. -/
theorem occurs_server {le : String → String → Bool} {t : Products} {s₁ s₂ : Catalog.Server}
    (h₁ : (Catalog.Server.lts le t).Reachable s₁) (h₂ : (Catalog.Server.lts le t).Reachable s₂)
    (d : Delivery) : Occurs asText t ⟨s₁.store.cache, s₂.store.db, d⟩ where
  rows := (Catalog.Server.reads h₂).2.1.rows
  cached x v hv := (Catalog.Server.reads h₁).2.1.products x v hv

/-- The price does not depend on what Redis holds. -/
theorem readPrice_cache {t : Products} (h : Occurs same t m) :
    (readPrice o elsewhere same m p).map PriceOut.priceCents =
      (readPrice o elsewhere same { m with cache := .empty } p).map PriceOut.priceCents := by
  unfold readPrice
  simp only
  cases Url.target (priceUrl o p) with
  | none => rfl
  | some segments =>
    simp only
    cases route segments with
    | none => rfl
    | some e =>
      cases e with
      | getPrice x => rfl
      | getProduct x =>
        cases hc : m.cache.product x with
        | none => simp only [Endpoint.answer, hc, Catalog.Cache.empty]
        | some v =>
          -- the row it was read from is still there, with its price
          have hcols := (h.row x).trans (h.cached x v hc)
          obtain ⟨r, hr, he⟩ := Option.map_eq_some_iff.mp hcols
          have hprice : v.priceCents = r.priceCents := congrArg (fun c => c.2.2) he.symm
          simp only [Endpoint.answer, hc, hr, Catalog.Cache.empty]
          cases m.delivery with
          | answered => exact congrArg Except.ok hprice
          | lost f => rfl
          | dropped f => rfl

/-- A lookup that ends up at a product finds it. -/
theorem readPrice_leads {t : Products} (h : leads o t p = true) :
    ∃ body, readPrice o elsewhere asText ⟨.empty, t, .answered⟩ p = .ok body := by
  obtain ⟨e, he, hx⟩ := (Option.any_eq_true _ _).mp h
  obtain ⟨r, hr⟩ := Option.isSome_iff_exists.mp hx
  cases e with
  | getPrice x =>
    refine ⟨⟨r.id, r.priceCents, r.stock⟩, readPrice_answered rfl he ?_⟩
    simp only [Endpoint.answer, row_asText, show Catalog.find t x = some r from hr]
  | getProduct x =>
    refine ⟨priced (Catalog.toOut r), readPrice_answered rfl he ?_⟩
    simp only [Endpoint.answer, row_asText, Catalog.Cache.empty, show Catalog.find t x = some r from hr]

end
end Gestalt.Lookup
