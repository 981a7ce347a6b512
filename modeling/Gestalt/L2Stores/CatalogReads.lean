import Gestalt.Core.Paging
import Gestalt.L2Stores.CatalogServer

/-!
# catalog-service: what a cached read can be wrong about

Requests change the stock of a product and nothing else: `id`, `name` and `price_cents`
(`columns`) of every row stay as they were, in the table, in every version of a row a
transaction has written, and in every cache entry. So whatever runs at the same time, and
however old the entries are:

* `Server.get_columns`: `get_product` finds the product there is, with its name and price;
* `Server.list_complete`: pages of `list_products`, each of its own request and at its own
  time, make up the catalog, every product once and in order.
-/
namespace Gestalt.Catalog

/-! ## The columns no request writes -/

def Product.columns (p : Product) : String × String × Int := (p.id, p.name, p.priceCents)

def ProductOut.columns (p : ProductOut) : String × String × Int := (p.id, p.name, p.priceCents)

@[simp] theorem columns_toOut (p : Product) : (toOut p).columns = p.columns := rfl

/-- The same rows, but for their stock. -/
def SameRows (t t' : Products) : Prop := t'.map Product.columns = t.map Product.columns

variable {le : String → String → Bool} {t t' : Products}

theorem SameRows.length (h : SameRows t t') : t'.length = t.length := by
  have := congrArg List.length h
  simpa using this

theorem SameRows.unique (h : SameRows t t') (hu : Table.Unique Product.id t) : Table.Unique Product.id t' := by
  have hids : t'.map Product.id = t.map Product.id := by
    have := congrArg (List.map Prod.fst) h
    simpa [List.map_map, Function.comp_def, Product.columns] using this
  unfold Table.Unique
  rwa [hids]

/-- A row of the one table is a row of the other. -/
theorem SameRows.find (h : SameRows t t') (p : String) :
    (Catalog.find t' p).map Product.columns = (Catalog.find t p).map Product.columns := by
  have hfind : ∀ u : Products, (Catalog.find u p).map Product.columns =
      (u.map Product.columns).find? fun c => c.1 = p := by
    intro u
    rw [List.find?_map]
    rfl
  rw [hfind, hfind, h]

theorem SameRows.selectPage (h : SameRows t t') (q : PageQuery) :
    (selectPage le t' q).map Product.columns = (selectPage le t q).map Product.columns := by
  have hsort : ∀ u : Products, (u.mergeSort fun a b => le a.id b.id).map Product.columns =
      (u.map Product.columns).mergeSort fun a b => le a.1 b.1 :=
    fun u => List.map_mergeSort fun _ _ _ _ => rfl
  unfold Catalog.selectPage
  rw [List.map_take, List.map_drop, List.map_take, List.map_drop, hsort, hsort, h]

/-- The page of the catalog, but for the stock. -/
structure IsPage (le : String → String → Bool) (t : Products) (q : PageQuery) (r : ProductListOut) : Prop where
  items : r.items.map ProductOut.columns = (selectPage le t q).map Product.columns
  total : r.total = t.length

/-- The product, but for its stock. -/
def IsProduct (t : Products) (p : String) (out : ProductOut) : Prop :=
  (find t p).map Product.columns = some out.columns

theorem isPage_readPage (h : SameRows t t') (q : PageQuery) : IsPage le t q (readPage le t' q) where
  items := by
    rw [← h.selectPage q]
    simp only [readPage, List.map_map]
    rfl
  total := h.length

theorem readProduct_cases (h : SameRows t t') (p : String) :
    (∃ out, readProduct t' p = .ok out ∧ IsProduct t p out) ∨
      (readProduct t' p = .error (productNotFound p) ∧ find t p = none) := by
  have hf := h.find p
  unfold readProduct
  cases hp : find t' p with
  | none =>
    rw [hp] at hf
    exact .inr ⟨rfl, by simpa using hf.symm⟩
  | some row =>
    rw [hp] at hf
    exact .inl ⟨_, rfl, hf.symm⟩

/-! ## Versions of a row -/

/-- A version of one of the rows. -/
def IsVersion (t : Products) : Option Product → Prop
  | some w => ∃ row ∈ t, w.columns = row.columns
  | none => True

theorem isVersion_find (h : SameRows t t') {p : String} {row : Product} (hf : find t' p = some row) (d : Int) :
    IsVersion t (some { row with stock := row.stock + d }) := by
  have hmem : row.columns ∈ t.map Product.columns := by
    rw [← h]
    exact List.mem_map_of_mem (Table.get_some hf).1
  obtain ⟨row', hrow', he⟩ := List.mem_map.mp hmem
  exact ⟨row', hrow', he.symm⟩

theorem sameRows_install (h : SameRows t t') (hu : Table.Unique Product.id t) {w : Option Product}
    (hw : IsVersion t w) : SameRows t (install t' w) := by
  cases w with
  | none => exact h
  | some w =>
    obtain ⟨row, hrow, hcols⟩ := hw
    refine Eq.trans ?_ h
    simp only [install, Table.modify, List.map_map]
    refine List.map_congr_left fun r hr => ?_
    simp only [Function.comp]
    split
    · rename_i hid
      -- the row with its id is the one it is a version of
      have hmem : r.columns ∈ t.map Product.columns := by
        rw [← h]
        exact List.mem_map_of_mem hr
      obtain ⟨r', hr', he⟩ := List.mem_map.mp hmem
      have hids : r'.id = row.id := by
        have h1 : r'.id = r.id := congrArg Prod.fst he
        have h2 : w.id = row.id := congrArg Prod.fst hcols
        rw [h1, hid, h2]
      rw [hcols, ← he, hu.eq hr' hrow hids]
    · rfl

theorem updateRow_version (h : SameRows t t') {k : Locks} {i : Nat} {p : String} {d : Int}
    {u : Locks × Option Product} (hu : updateRow t' k i p d = some u) : IsVersion t u.2 := by
  unfold updateRow at hu
  split at hu
  · obtain rfl := Option.some.inj hu
    trivial
  · rename_i row hf
    split at hu
    · obtain rfl := Option.some.inj hu
      exact isVersion_find h hf d
    · cases hu

/-! ## A server at work -/

/-- What a request has written or read is right about those columns. -/
def Proc.Reads (le : String → String → Bool) (t : Products) : Proc → Prop
  | .reserve _ (.commit write _) => IsVersion t write
  | .release _ (.select write) => IsVersion t write
  | .release _ (.commit write _) => IsVersion t write
  | .get p (.set out) => IsProduct t p out
  | .get p (.done (.ok out)) => IsProduct t p out
  | .get p (.done (.error e)) => e = productNotFound p ∧ find t p = none
  | .list _ (.page snapshot) => SameRows t snapshot
  | .list q (.set r) => IsPage le t q r
  | .list q (.done r) => IsPage le t q r
  | _ => True

structure Store.Reads (le : String → String → Bool) (t : Products) (s : Store) : Prop where
  rows : SameRows t s.db
  products : ∀ p out, s.cache.product p = some out → IsProduct t p out
  pages : ∀ q : PageQuery, ∀ r, s.cache.page (q.limit, q.offset) = some r → IsPage le t q r

variable {s s' : Store} {k k' : Locks} {i : Nat} {p p' : Proc}

theorem Store.Reads.invalidate (h : s.Reads le t) (x : String) :
    Store.Reads le t { s with cache := s.cache.invalidateProduct x } := by
  refine ⟨h.rows, fun p out hp => ?_, h.pages⟩
  by_cases hx : p = x
  · subst hx
    simp [Cache.invalidateProduct] at hp
  · simp only [Cache.invalidateProduct, Function.update_of_ne hx] at hp
    exact h.products p out hp

theorem Store.Reads.install (h : s.Reads le t) (hu : Table.Unique Product.id t) {w : Option Product}
    (hw : IsVersion t w) : Store.Reads le t { s with db := Catalog.install s.db w } :=
  ⟨sameRows_install h.rows hu hw, h.products, h.pages⟩

theorem Store.Reads.setProduct (h : s.Reads le t) {x : String} {out : ProductOut} (hout : IsProduct t x out) :
    Store.Reads le t { s with cache := s.cache.setProduct x out } := by
  refine ⟨h.rows, fun y r hr => ?_, h.pages⟩
  by_cases hy : y = x
  · subst hy
    simp only [Cache.setProduct, Function.update_self, Option.some.injEq] at hr
    subst hr
    exact hout
  · simp only [Cache.setProduct, Function.update_of_ne hy] at hr
    exact h.products y r hr

theorem Store.Reads.setPage (h : s.Reads le t) {q : PageQuery} {r : ProductListOut} (hr : IsPage le t q r) :
    Store.Reads le t { s with cache := s.cache.setPage (q.limit, q.offset) r } := by
  refine ⟨h.rows, h.products, fun q' r' hr' => ?_⟩
  by_cases hq : (q'.limit, q'.offset) = (q.limit, q.offset)
  · rw [hq] at hr'
    simp only [Cache.setPage, Function.update_self, Option.some.injEq] at hr'
    subst hr'
    -- the page depends on the query only by its limit and offset
    obtain ⟨hl, ho⟩ := Prod.mk.inj hq
    exact ⟨by rw [hr.items]; simp only [Catalog.selectPage, hl, ho], hr.total⟩
  · simp only [Cache.setPage, Function.update_of_ne hq] at hr'
    exact h.pages q' r' hr'

/-! ### One statement of each endpoint -/

theorem reads_reserve {body : StockRequest} {pc pc' : ReservePc} (hu : Table.Unique Product.id t)
    (h : pc.step i body s k = some (s', k', pc')) (hs : s.Reads le t) (hp : (Proc.reserve body pc).Reads le t) :
    s'.Reads le t ∧ (Proc.reserve body pc').Reads le t := by
  cases pc with
  | select =>
    simp only [ReservePc.step] at h
    split at h
    · cases h
      exact ⟨hs, trivial⟩
    · split at h
      · cases h
        exact ⟨hs, trivial⟩
      · cases h
  | check row =>
    cases row with
    | none =>
      cases h
      exact ⟨hs, trivial⟩
    | some row =>
      simp only [ReservePc.step] at h
      split at h
      · cases h
        exact ⟨hs, trivial⟩
      · obtain ⟨u, hup, h⟩ := Option.map_eq_some_iff.mp h
        cases h
        exact ⟨hs, updateRow_version hs.rows hup⟩
  | commit write remaining =>
    cases h
    exact ⟨hs.install hu hp, trivial⟩
  | invalidate remaining =>
    cases h
    exact ⟨hs.invalidate _, trivial⟩
  | done a => cases h

theorem reads_release {body : StockRequest} {pc pc' : ReleasePc} (hu : Table.Unique Product.id t)
    (h : pc.step i body s k = some (s', k', pc')) (hs : s.Reads le t) (hp : (Proc.release body pc).Reads le t) :
    s'.Reads le t ∧ (Proc.release body pc').Reads le t := by
  cases pc with
  | update =>
    obtain ⟨u, hup, h⟩ := Option.map_eq_some_iff.mp h
    cases h
    exact ⟨hs, updateRow_version hs.rows hup⟩
  | select write =>
    cases write <;> cases h
    · exact ⟨hs, trivial⟩
    · exact ⟨hs, hp⟩
  | commit write row =>
    cases h
    exact ⟨hs.install hu hp, trivial⟩
  | invalidate row =>
    cases h
    exact ⟨hs.invalidate _, trivial⟩
  | done a => cases h

theorem reads_get {x : String} {pc pc' : GetPc} (h : pc.step x s = some (s', pc')) (hs : s.Reads le t)
    (hp : (Proc.get x pc).Reads le t) : s'.Reads le t ∧ (Proc.get x pc').Reads le t := by
  cases pc with
  | cache =>
    simp only [GetPc.step] at h
    split at h
    · rename_i out hc
      cases h
      exact ⟨hs, hs.products x out hc⟩
    · cases h
      exact ⟨hs, trivial⟩
  | db =>
    rcases readProduct_cases hs.rows x with ⟨out, hr, hout⟩ | ⟨hr, hnone⟩
    · simp only [GetPc.step, hr] at h
      cases h
      exact ⟨hs, hout⟩
    · simp only [GetPc.step, hr] at h
      cases h
      exact ⟨hs, rfl, hnone⟩
  | set out =>
    cases h
    exact ⟨hs.setProduct hp, hp⟩
  | done a => cases h

theorem reads_list {q : PageQuery} {pc pc' : ListPc} (h : pc.step le q s = some (s', pc')) (hs : s.Reads le t)
    (hp : (Proc.list q pc).Reads le t) : s'.Reads le t ∧ (Proc.list q pc').Reads le t := by
  cases pc with
  | cache =>
    simp only [ListPc.step] at h
    split at h
    · rename_i r hc
      cases h
      exact ⟨hs, hs.pages q r hc⟩
    · cases h
      exact ⟨hs, trivial⟩
  | total =>
    cases h
    exact ⟨hs, hs.rows⟩
  | page snapshot =>
    cases h
    exact ⟨hs, isPage_readPage hp q⟩
  | set r =>
    cases h
    exact ⟨hs.setPage hp, hp⟩
  | done r => cases h

/-- One statement of a request. -/
theorem reads_step (hu : Table.Unique Product.id t) (h : p.step le i s k = some (s', k', p'))
    (hs : s.Reads le t) (hp : p.Reads le t) : s'.Reads le t ∧ p'.Reads le t := by
  cases p with
  | reserve body pc =>
    obtain ⟨⟨s₁, k₁, pc'⟩, hst, he⟩ := Option.map_eq_some_iff.mp h
    obtain ⟨rfl, rfl, rfl⟩ := by simpa using he
    exact reads_reserve hu hst hs hp
  | release body pc =>
    obtain ⟨⟨s₁, k₁, pc'⟩, hst, he⟩ := Option.map_eq_some_iff.mp h
    obtain ⟨rfl, rfl, rfl⟩ := by simpa using he
    exact reads_release hu hst hs hp
  | get x pc =>
    obtain ⟨⟨s₁, pc'⟩, hst, he⟩ := Option.map_eq_some_iff.mp h
    obtain ⟨rfl, rfl, rfl⟩ := by simpa using he
    exact reads_get hst hs hp
  | list q pc =>
    obtain ⟨⟨s₁, pc'⟩, hst, he⟩ := Option.map_eq_some_iff.mp h
    obtain ⟨rfl, rfl, rfl⟩ := by simpa using he
    exact reads_list hst hs hp

theorem Store.Reads.expire (h : s.Reads le t) (key : Key) :
    Store.Reads le t { s with cache := s.cache.expire key } := by
  cases key with
  | product x => exact h.invalidate x
  | page l o =>
    refine ⟨h.rows, h.products, fun q r hr => ?_⟩
    by_cases hq : (q.limit, q.offset) = (l, o)
    · rw [hq] at hr
      simp [Cache.expire] at hr
    · simp only [Cache.expire, Function.update_of_ne hq] at hr
      exact h.pages q r hr

namespace Server

variable {s s' : Server}

theorem reads (h : (lts le t).Reachable s) :
    Table.Unique Product.id t ∧ s.store.Reads le t ∧ ∀ p ∈ s.procs, p.Reads le t := by
  refine LTS.reachable_induct (I := fun s => Table.Unique Product.id t ∧ s.store.Reads le t ∧
    ∀ p ∈ s.procs, p.Reads le t) ?_ ?_ h
  · rintro s ⟨hu, rfl⟩
    exact ⟨hu, ⟨rfl, nofun, nofun⟩, by simp [boot]⟩
  · rintro s l s' - ⟨hu, hs, hp⟩ hst
    refine ⟨hu, ?_⟩
    cases l with
    | arrive r =>
      obtain rfl := Option.some.inj hst
      refine ⟨hs, fun p hmem => ?_⟩
      rcases List.mem_append.mp hmem with hmem | hmem
      · exact hp p hmem
      · obtain rfl := List.mem_singleton.mp hmem
        cases r <;> trivial
    | next i =>
      simp only [lts, LTS.ofFn, step] at hst
      split at hst
      · cases hst
      · rename_i p hx
        obtain ⟨⟨st, k, p'⟩, hstep, rfl⟩ := Option.map_eq_some_iff.mp hst
        obtain ⟨hs', hp'⟩ := reads_step hu hstep hs (hp p (List.mem_of_getElem? hx))
        refine ⟨hs', fun q hmem => ?_⟩
        rcases List.mem_or_eq_of_mem_set hmem with hmem | rfl
        · exact hp q hmem
        · exact hp'
    | expire key =>
      obtain rfl := Option.some.inj hst
      exact ⟨hs.expire key, hp⟩

/-- **A product.** `get_product` answers with the product there is, its name and its price, or with 404 if
there is none; only the stock may be another. -/
theorem get_columns (h : (lts le t).Reachable s) {p : String} {a : Except AppError ProductOut}
    (ha : Proc.get p (.done a) ∈ s.procs) :
    (∃ row out, find t p = some row ∧ a = .ok out ∧ out.columns = row.columns) ∨
      (find t p = none ∧ a = .error (productNotFound p)) := by
  have hr := (reads h).2.2 _ ha
  cases a with
  | ok out =>
    obtain ⟨row, hrow, hc⟩ := Option.map_eq_some_iff.mp (show (find t p).map _ = some out.columns from hr)
    exact .inl ⟨row, out, hrow, rfl, hc.symm⟩
  | error e => exact .inr ⟨hr.2, by rw [hr.1]⟩

/-- What the pages show, one after another. -/
def shown (n : Nat) (answer : Nat → ProductListOut) : List (String × String × Int) :=
  ((List.range n).flatMap fun k => (answer k).items).map ProductOut.columns

/-- **The catalog, page by page.** Answers of `list_products` at the offsets `0`, `limit`, `2 * limit` and so
on, whenever each was asked for and whatever ran in between, make up the catalog: every product once, with
its name and price, in the order of the ids, and each with the right total. -/
theorem list_complete (htrans : ∀ a b c, le a b = true → le b c = true → le a c = true)
    (htotal : ∀ a b, (le a b || le b a) = true) (h : (lts le t).Reachable s) {limit n : Nat}
    (hn : t.length ≤ n * limit) {answer : Nat → ProductListOut}
    (ha : ∀ k, k < n → ∃ q : PageQuery, q.limit = limit ∧ q.offset = k * limit ∧
      Proc.list q (.done (answer k)) ∈ s.procs) :
    (shown n answer).Perm (t.map Product.columns) ∧
      ((shown n answer).Pairwise fun a b => le a.1 b.1 = true) ∧
      ∀ k, k < n → (answer k).total = t.length := by
  have hpage : ∀ k, k < n → ∃ q : PageQuery, q.limit = limit ∧ q.offset = k * limit ∧ IsPage le t q (answer k) := by
    intro k hk
    obtain ⟨q, hl, ho, hmem⟩ := ha k hk
    exact ⟨q, hl, ho, (reads h).2.2 _ hmem⟩
  let sorted := (t.mergeSort fun a b => le a.id b.id).map Product.columns
  have hshown : shown n answer = sorted := by
    have hpages : shown n answer = Paging.pages limit n fun _ => sorted := by
      simp only [shown, Paging.pages, List.map_flatMap]
      refine List.flatMap_congr fun k hk => ?_
      obtain ⟨q, hl, ho, hq⟩ := hpage k (List.mem_range.mp hk)
      rw [hq.items, Catalog.selectPage, List.map_take, List.map_drop, hl, ho]
      rfl
    have hlen : sorted.length = t.length := by simp [sorted, List.length_mergeSort]
    rw [hpages, Paging.pages_same, List.take_of_length_le (hlen ▸ hn)]
  refine ⟨?_, ?_, fun k hk => ?_⟩
  · rw [hshown]
    exact (List.mergeSort_perm ..).map _
  · rw [hshown, List.pairwise_map]
    exact List.pairwise_mergeSort (fun a b c => htrans a.id b.id c.id) (fun a b => htotal a.id b.id) t
  · obtain ⟨q, -, -, hq⟩ := hpage k hk
    exact hq.total

/-- Three products, on pages of two. -/
def shelf : Products := [⟨"P003", "Ink", 900, 4⟩, ⟨"P001", "Pen", 250, 1⟩, ⟨"P002", "Pad", 400, 2⟩]

def ascending (a b : String) : Bool := a ≤ b

theorem ascending_trans (a b c : String) (hab : ascending a b = true) (hbc : ascending b c = true) :
    ascending a c = true :=
  decide_eq_true (String.le_trans (of_decide_eq_true hab) (of_decide_eq_true hbc))

theorem ascending_total (a b : String) : (ascending a b || ascending b a) = true := by
  simpa [ascending] using String.le_total a b

def twoPages (k : Nat) : PageQuery := ⟨2, k * 2, by decide, by decide⟩

/-- The first page is read, a pen is sold, the second page is read. -/
def browsing : List Lbl :=
  [.arrive (.list (twoPages 0)), .next 0, .next 0, .next 0, .next 0,
    .arrive (.reserve ⟨"P001", 1, "A", Int.one_pos⟩), .next 1, .next 1, .next 1, .next 1,
    .arrive (.list (twoPages 1)), .next 2, .next 2, .next 2, .next 2]

/-- The answer of request `i`, if it has asked for page `k`. -/
def pageOf (s : Server) (i k : Nat) : Option ProductListOut :=
  match s.procs[i]? with
  | some (.list q (.done r)) => if q.limit = 2 ∧ q.offset = k * 2 then some r else none
  | _ => none

theorem pageOf_some {i k : Nat} {r : ProductListOut} (h : s.pageOf i k = some r) :
    ∃ q : PageQuery, q.limit = 2 ∧ q.offset = k * 2 ∧ Proc.list q (.done r) ∈ s.procs := by
  unfold pageOf at h
  split at h
  · rename_i q r' hi
    split at h
    · rename_i hq
      cases h
      exact ⟨q, hq.1, hq.2, List.mem_of_getElem? hi⟩
    · cases h
  · cases h

theorem browsing_complete : ∃ s, (lts ascending shelf).Reachable s ∧ ∃ answer : Nat → ProductListOut,
    (shown 2 answer).Perm (shelf.map Product.columns) ∧ (answer 1).total = 3 := by
  obtain ⟨s, hs, hp⟩ : ∃ s, (lts ascending shelf).Reachable s ∧
      ((pageOf s 0 0).isSome && (pageOf s 2 1).isSome) = true :=
    LTS.reachable_of_exec browsing ⟨by simp [Table.Unique, shelf], rfl⟩ (by decide +kernel)
  obtain ⟨h0, h1⟩ := Bool.and_eq_true_iff.mp hp
  obtain ⟨r0, h0⟩ := Option.isSome_iff_exists.mp h0
  obtain ⟨r1, h1⟩ := Option.isSome_iff_exists.mp h1
  have hpages : ∀ k, k < 2 → ∃ q : PageQuery, q.limit = 2 ∧ q.offset = k * 2 ∧
      Proc.list q (.done (if k = 0 then r0 else r1)) ∈ s.procs := by
    intro k hk
    obtain rfl | rfl : k = 0 ∨ k = 1 := by omega
    · exact pageOf_some h0
    · exact pageOf_some h1
  obtain ⟨hperm, -, htotal⟩ := list_complete ascending_trans ascending_total hs (by decide) hpages
  exact ⟨s, hs, _, hperm, htotal 1 (by decide)⟩

end Server
end Gestalt.Catalog
