import Gestalt.L2Stores.CartQuotes
import Gestalt.L4Checkout.Entry

/-!
# From the cart to the order

cart-service and order-service with all it touches, in any interleaving: the carts that
`create_order` reads are those of the Redis of cart-service (`inCart`), and a
`clear_cart_items` that arrives there is a `batch_remove_items` request, one command after
another among all others.

`basket_ordered`: every order of a request without items is of what was in the user's cart:
lines of different products, and each quantity within a stock that catalog-service had
reported to an `add_item` of this user.
-/
namespace Gestalt.Baskets

open Cart (Quote Covers)
open Orders (Line linesOf)

structure Config where
  shop : Checkout.Config := {}
  cart : Cart.Settings := {}

structure System where
  cart : Cart.System
  /-- ghost: what the requests of `cart` have been told of stocks -/
  quotes : List Quote
  shop : Checkout.Sys

inductive Lbl
  /-- a step of order-service or what else it touches, but of no cart -/
  | shop (l : Checkout.Lbl)
  | cart (l : Cart.Lbl)

/-- The body of a 200 of `GET /cart`. -/
def inCart (c : Cart.System) (userId : String) : List Line :=
  match Cart.getCart c userId with
  | .cart items => items.map fun i => ⟨i.productId, i.quantity⟩
  | _ => []

/-- order-service sees the carts as they are. -/
def refresh (c : Cart.System) (shop : Checkout.Sys) : Checkout.Sys := { shop with carts := inCart c }

/-- The `DELETE /cart/items:batch` that a step has sent, and that arrives. -/
def removals (t t' : Checkout.Sys) : List Cart.Request :=
  (t'.trace.drop t.trace.length).filterMap fun x =>
    match x.call with
    | .clearCart userId productIds => if x.applied then some (.batchRemoveItems userId productIds) else none
    | _ => none

def receive (cfg : Cart.Settings) (c : Cart.System) (rs : List Cart.Request) : Cart.System :=
  rs.foldl (fun c r => (c.step cfg (.call r)).getD c) c

def ofCart : Checkout.Lbl → Bool
  | .cart .. => true
  | _ => false

namespace System

def start (cat : Catalog.Products) : System := ⟨.noCarts, [], Checkout.start cat⟩

def step (cfg : Config) (s : System) : Lbl → Option System
  | .shop l =>
    if ofCart l then none
    else (Checkout.step cfg.shop s.shop l).map fun shop =>
      let cart := receive cfg.cart s.cart (removals s.shop shop)
      { s with cart := cart, shop := refresh cart shop }
  | .cart l => (s.cart.step cfg.cart l).map fun cart =>
    ⟨cart, s.quotes ++ s.cart.quoted l, refresh cart s.shop⟩

def lts (cfg : Config) (cat : Catalog.Products) : LTS System Lbl := LTS.ofFn (· = start cat) (step cfg)

inductive Steps (cfg : Config) (s : System) : Lbl → System → Prop
  | shop {l : Checkout.Lbl} {shop : Checkout.Sys} : ofCart l = false →
      Checkout.step cfg.shop s.shop l = some shop →
      Steps cfg s (.shop l) { s with
        cart := receive cfg.cart s.cart (removals s.shop shop)
        shop := refresh (receive cfg.cart s.cart (removals s.shop shop)) shop }
  | cart {l : Cart.Lbl} {cart : Cart.System} : s.cart.step cfg.cart l = some cart →
      Steps cfg s (.cart l) ⟨cart, s.quotes ++ s.cart.quoted l, refresh cart s.shop⟩

variable {cfg : Config} {cat : Catalog.Products} {s s' : System} {l : Lbl}

theorem steps_of_step (h : step cfg s l = some s') : Steps cfg s l s' := by
  cases l with
  | shop l =>
    simp only [step] at h
    split at h
    · cases h
    · rename_i hl
      obtain ⟨shop, hst, rfl⟩ := Option.map_eq_some_iff.mp h
      exact .shop (Bool.eq_false_iff.mpr hl) hst
  | cart l =>
    obtain ⟨cart, hst, rfl⟩ := Option.map_eq_some_iff.mp h
    exact .cart hst

/-! ## What changes which cart -/

/-- A step of order-service changes one cart at most. -/
theorem shop_carts {c : Checkout.Config} {t t' : Checkout.Sys} {l : Checkout.Lbl} (hl : ofCart l = false)
    (h : Checkout.step c t l = some t') : ∃ u, ∀ v, v ≠ u → t'.carts v = t.carts v := by
  have heff : ∀ (k : Checkout.Caller) (e : Checkout.Eff),
      ∃ u, ∀ v, v ≠ u → (t.apply k e).carts v = t.carts v := by
    intro k e
    cases e with
    | clearCart userId productIds oid d =>
      refine ⟨userId, fun v hv => ?_⟩
      simp only [Checkout.Sys.apply, Checkout.Sys.perform]
      split
      · exact if_neg hv
      · rfl
    | _ =>
      refine ⟨"", fun v _ => ?_⟩
      simp only [Checkout.Sys.apply, Checkout.Sys.perform]
      try split
      all_goals rfl
  cases l with
  | saga i a =>
    cases Checkout.step_saga h with
    | prelude g g' e => exact heff (.saga i) e
    | saga g oid pc pc' e => exact heff (.saga i) e
  | pass j a =>
    obtain ⟨p, p', e, -, -, -, rfl⟩ := Checkout.step_pass h
    exact heff (.pass j) e
  | delivery j a =>
    obtain ⟨p, p', e, -, -, -, rfl⟩ := Checkout.step_delivery h
    exact heff (.delivery j) e
  | crash i | crashPass i | crashDelivery i =>
    obtain ⟨p, -, rfl⟩ := Option.map_eq_some_iff.mp h
    exact ⟨"", fun v _ => rfl⟩
  | pay l =>
    simp only [Checkout.step] at h
    split at h
    · obtain ⟨p, -, rfl⟩ := Option.map_eq_some_iff.mp h
      exact ⟨"", fun v _ => rfl⟩
    · cases h
  | cart u lines => cases hl
  | request r | recon | deliver | tick =>
    cases h
    exact ⟨"", fun v _ => rfl⟩

/-- A step of cart-service changes the entry of one key at most. -/
theorem cart_redis {c : Cart.Settings} {t t' : Cart.System} {l : Cart.Lbl} (h : t.step c l = some t') :
    ∃ key, ∀ key', key' ≠ key → t'.redis key' = t.redis key' := by
  cases Cart.System.steps_of_step h with
  | next => exact ⟨_, fun _ hk => Function.update_of_ne hk ..⟩
  | flag => exact ⟨_, fun _ hk => Function.update_of_ne hk ..⟩
  | expire => exact ⟨_, fun _ hk => Function.update_of_ne hk ..⟩
  | _ => exact ⟨"", fun _ _ => rfl⟩

theorem receive_redis (c : Cart.Settings) (t : Cart.System) (rs : List Cart.Request) :
    (receive c t rs).redis = t.redis := by
  induction rs generalizing t with
  | nil => rfl
  | cons r rs ih => exact ih _

theorem inCart_congr {t t' : Cart.System} {u : String} (h : t'.redis (Cart.cartKey u) = t.redis (Cart.cartKey u)) :
    inCart t' u = inCart t u := by
  unfold inCart Cart.getCart
  rw [h]

/-! ## order-service is what it is alone -/

/-- The cart of one user is brought up to date. -/
theorem refresh_reachable {c : Cart.System} {t : Checkout.Sys} (ht : (Checkout.lts cfg.shop cat).Reachable t)
    (u : String) (hu : ∀ v, v ≠ u → t.carts v = inCart c v) :
    (Checkout.lts cfg.shop cat).Reachable (refresh c t) := by
  refine ht.step (l := .cart u (inCart c u)) (congrArg some ?_)
  have hcarts : (fun v => if v = u then inCart c u else t.carts v) = inCart c := by
    funext v
    split
    · rename_i hv
      rw [hv]
    · rename_i hv
      exact hu v hv
  rw [hcarts, refresh]

/-- Every cart is the one of cart-service, and has been covered. -/
structure Linked (s : System) : Prop where
  carts : s.shop.carts = inCart s.cart
  backed : Cart.Backed s.quotes s.cart

theorem received_backed {c : Cart.Settings} {quotes : List Quote} {t : Cart.System} (h : Cart.Backed quotes t)
    (rs : List Cart.Request) : Cart.Backed quotes (receive c t rs) := by
  induction rs generalizing t with
  | nil => exact h
  | cons r rs ih =>
    have hst : t.step c (.call r) = some ((t.step c (.call r)).getD t) := rfl
    exact ih (List.append_nil quotes ▸ Cart.backed_step h hst)

theorem linked_step (I : Linked s) (h : step cfg s l = some s') : Linked s' := by
  cases steps_of_step h with
  | shop hl hst => exact ⟨rfl, received_backed I.backed _⟩
  | cart hst => exact ⟨rfl, Cart.backed_step I.backed hst⟩

theorem linked (h : (lts cfg cat).Reachable s) : Linked s := by
  refine LTS.reachable_induct ?_ ?_ h
  · rintro s rfl
    exact ⟨rfl, Cart.backed_noCarts⟩
  · intro s l s' _ I hst
    exact linked_step I hst

theorem shop_reachable (h : (lts cfg cat).Reachable s) : (Checkout.lts cfg.shop cat).Reachable s.shop := by
  refine LTS.reachable_induct (I := fun s => (Checkout.lts cfg.shop cat).Reachable s.shop) ?_ ?_ h
  · rintro s rfl
    exact .of_init rfl
  · intro s l s' hr hI hst
    have hcarts := (linked hr).carts
    cases steps_of_step hst with
    | @shop l shop hl hstep =>
      obtain ⟨u, hu⟩ := shop_carts hl hstep
      refine refresh_reachable (hI.step hstep) u fun v hv => ?_
      rw [hu v hv, hcarts]
      exact (inCart_congr (congrFun (receive_redis ..) _)).symm
    | @cart l cart hstep =>
      obtain ⟨key, hkey⟩ := cart_redis hstep
      -- the user of the key, if it is one of a cart
      have hsame : ∀ v, Cart.cartKey v ≠ key → s.shop.carts v = inCart cart v := by
        intro v hv
        rw [hcarts]
        exact (inCart_congr (hkey _ hv)).symm
      by_cases hu : ∃ u, Cart.cartKey u = key
      · obtain ⟨u, rfl⟩ := hu
        exact refresh_reachable hI u fun v hv => hsame v fun he => hv (Cart.cartKey_inj he)
      · exact refresh_reachable hI "" fun v _ => hsame v fun he => hu ⟨v, he⟩

/-! ## What is ordered from a cart -/

/-- Different products, and each quantity covered. -/
def Provided (quotes : List Quote) (userId : String) (lines : List Line) : Prop :=
  (lines.map Line.productId).Nodup ∧ ∀ l ∈ lines, Covers quotes userId l.productId l.quantity

theorem Provided.mono {quotes quotes' : List Quote} {u : String} {lines : List Line}
    (h : Provided quotes u lines) (hq : quotes ⊆ quotes') : Provided quotes' u lines :=
  ⟨h.1, fun l hl => (h.2 l hl).mono hq⟩

theorem provided_inCart {quotes : List Quote} {c : Cart.System} (h : Cart.Backed quotes c) (u : String) :
    Provided quotes u (inCart c u) := by
  obtain ⟨items, hitems, hnd, hall⟩ := h.shows u
  unfold inCart
  rw [hitems]
  constructor
  · simpa [Function.comp_def] using hnd
  · intro l hl
    obtain ⟨x, hx, rfl⟩ := List.mem_map.mp hl
    exact (hall x hx).2

/-- The runs that took their items from a cart. -/
def Taken (s : System) : Prop := ∀ (i : Nat) (g : Checkout.Saga), s.shop.sagas[i]? = some g →
  g.phase.resolved = true → g.req.lines = [] → g.rawItems ≠ [] ∧ Provided s.quotes g.req.userId g.rawItems

theorem taken_step (L : Linked s) (I : Taken s) (h : step cfg s l = some s') : Taken s' := by
  intro i g' hg' hres' hnone
  cases steps_of_step h with
  | @shop l shop hl hst =>
    have hg' : shop.sagas[i]? = some g' := hg'
    by_cases hi : Checkout.Itemized i s.shop
    · -- it had them
      obtain ⟨g, hg, hres⟩ := hi
      have hkept : Checkout.Resolved i g.req g.rawItems s.shop :=
        ⟨g, hg, rfl, rfl, by rintro hp; simp [hp, Checkout.Phase.resolved] at hres,
          by rintro hp; simp [hp, Checkout.Phase.resolved] at hres⟩
      obtain ⟨d, hd, hreq, hlines, -, -⟩ := Checkout.resolved_keeps hst hkept
      rw [hg'] at hd
      cases hd
      rw [hreq] at hnone
      rw [hreq, hlines]
      exact I i g hg hres hnone
    · -- it takes them
      obtain ⟨r, g, rfl, hg, hasked, -⟩ := Checkout.itemized_step hst hi ⟨g', hg', hres'⟩
      rw [hg'] at hg
      cases hg
      simp only [Checkout.Asked, hnone, ne_eq, not_true_eq_false, if_false] at hasked
      obtain ⟨-, hlines, hne⟩ := hasked
      refine ⟨hne, ?_⟩
      rw [hlines, L.carts]
      exact provided_inCart L.backed _
  | cart hst =>
    obtain ⟨hne, hp⟩ := I i g' hg' hres' hnone
    exact ⟨hne, hp.mono (List.subset_append_left _ _)⟩

theorem taken (h : (lts cfg cat).Reachable s) : Taken s := by
  refine LTS.reachable_induct ?_ ?_ h
  · rintro s rfl i g hg
    simp [start, Checkout.start] at hg
  · intro s l s' hr I hst
    exact taken_step (linked hr) I hst

/-- **From the cart to the order.** A cart can always be read, and shows each product once, with a quantity
that is positive and within a stock its user was quoted. An order of a request without items has one line or
more, of different products, and each quantity is within a stock the customer was quoted. -/
theorem basket_ordered (cfg : Config) (cat : Catalog.Products) {s : System} (h : (lts cfg cat).Reachable s) :
    (∀ u, ∃ items, Cart.getCart s.cart u = .cart items ∧
      (Cart.checkoutIntent s.cart u = if items = [] then .error Cart.emptyCart else .cart items) ∧
      (items.map Cart.CartItemOut.productId).Nodup ∧
      ∀ x ∈ items, x.productId ∉ Cart.metaFields ∧ Covers s.quotes u x.productId x.quantity) ∧
    ∀ (i : Nat) (g : Checkout.Saga) oid pc, s.shop.sagas[i]? = some g → g.phase = .saga oid pc →
      g.req.lines = [] → ∃ o ∈ s.shop.db.orders, o.id = oid ∧ o.userId = g.req.userId ∧
        linesOf s.shop.db oid ≠ [] ∧ Provided s.quotes o.userId (linesOf s.shop.db oid) := by
  have L := linked h
  refine ⟨fun u => ?_, fun i g oid pc hg hp hnone => ?_⟩
  · obtain ⟨items, hitems, hnd, hall⟩ := L.backed.shows u
    refine ⟨items, hitems, ?_, hnd, hall⟩
    unfold Cart.checkoutIntent
    rw [hitems]
    cases items <;> rfl
  · have K := Checkout.keys_reachable (shop_reachable h)
    obtain ⟨c, hc, hid, -, huser, hlines, -⟩ := (K.saga i g hg).own oid pc hp
    obtain ⟨o, ho, rfl⟩ := Orders.mem_cores.mp hc
    obtain ⟨hne, hprov⟩ := taken h i g hg (by rw [hp]; rfl) hnone
    have huser : o.userId = g.req.userId := huser
    exact ⟨o, ho, hid, huser, hlines ▸ hne, huser ▸ hlines ▸ hprov⟩

def penTwice : Cart.AddItemRequest := ⟨"p1", 2, Int.natCast_pos.mpr Nat.two_pos⟩

def penOnce : Cart.AddItemRequest := ⟨"p1", 1, Int.natCast_pos.mpr Nat.one_pos⟩

/-- Two requests overlap, and the quantity of the second is kept; it is what is ordered. -/
def overlapped : List Lbl :=
  let next i stock := Lbl.cart (.next i (.ok stock))
  [.cart (.call (.addItem "u1" penTwice)), .cart (.call (.addItem "u1" penOnce)), next 0 5, next 1 4, next 0 0,
    next 1 0, next 0 0, next 1 0] ++
    [.shop (.request ⟨"u1", some "k1", none⟩), .shop (.saga 0 .select),
      .shop (.saga 0 (.resolve (.status 200 none))), .shop (.saga 0 (.price .answered)),
      .shop (.saga 0 (.flush "o1")), .shop (.saga 0 .commit)]

/-- One pen is ordered; stocks of 5 and 4 have been quoted. -/
def orderedOnce (s : System) : Bool :=
  linesOf s.shop.db "o1" = [⟨"p1", 1⟩] && s.quotes = [⟨"u1", "p1", 5⟩, ⟨"u1", "p1", 4⟩] &&
    (s.shop.sagas[0]?).any fun g => g.phase = .saga "o1" .created && g.req.lines = []

theorem basket_ordered_overlapped : ∃ s, (lts {} Checkout.shop).Reachable s ∧ orderedOnce s = true ∧
    (∃ items, Cart.getCart s.cart "u1" = .cart items) ∧
    ∃ o ∈ s.shop.db.orders, o.id = "o1" ∧ Provided s.quotes o.userId (linesOf s.shop.db "o1") := by
  obtain ⟨s, hr, hs⟩ : ∃ s, (lts {} Checkout.shop).Reachable s ∧ orderedOnce s = true :=
    LTS.reachable_of_exec overlapped rfl (by decide +kernel)
  have hrun : (s.shop.sagas[0]?).any (fun g => g.phase = .saga "o1" .created && g.req.lines = []) = true := by
    simp only [orderedOnce, Bool.and_eq_true] at hs
    exact hs.2
  obtain ⟨g, hg, hp⟩ := (Option.any_eq_true _ _).mp hrun
  simp only [Bool.and_eq_true, decide_eq_true_eq] at hp
  obtain ⟨hcarts, horders⟩ := basket_ordered {} Checkout.shop hr
  obtain ⟨items, hitems, -⟩ := hcarts "u1"
  obtain ⟨o, ho, hid, -, -, hprov⟩ := horders 0 g "o1" .created hg hp.1 hp.2
  exact ⟨s, hr, hs, ⟨items, hitems⟩, o, ho, hid, hprov⟩

end System
end Gestalt.Baskets
