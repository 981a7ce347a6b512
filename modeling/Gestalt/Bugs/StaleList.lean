import Gestalt.L2Stores.CatalogSerial

/-!
# Pages of the product list outlive stock writes

Status: open.

Behaviour: `list_products` caches each page under `products:list:{limit}:{offset}`
(services/catalog-service/app/routers/catalog.py:52-65). A stock write deletes
`product:{id}` only (services/catalog-service/app/cache.py:29-30), so the pages
that show the product keep its old stock until their time to live ends. No
concurrency is needed.

Documented: API_REFERENCE.md:124-126, both read endpoints are cached "until TTL
or a stock-affecting write invalidates it".

Counterexample: `staleList`. List, reserve the last unit, list again: the second
answer still shows one unit.

Fix: delete the page keys in `invalidate_product` too (a version in the key that
every stock write increments), or leave the stock out of the cached pages.
-/
namespace Gestalt.Catalog

/-- Requests one after another. `since` is ghost: what the requests so far have
moved of a product since a page's entry was filled. -/
structure Session where
  store : Store
  since : Nat × Nat → String → Int

inductive Op
  | request (r : Request)
  | expire (k : Key)

/-- The page that a request fills. -/
def Request.fills (s : Store) : Request → Option (Nat × Nat)
  | .list q => if (s.cache.page (q.limit, q.offset)).isNone then some (q.limit, q.offset) else none
  | _ => none

namespace Session

def step (le : String → String → Bool) (s : Session) : Op → Option Session
  | .request r => some ⟨(handle le s.store r).2, fun k p =>
      if r.fills s.store = some k then 0 else s.since k p + r.moves s.store.db p⟩
  | .expire k => some { s with store := { s.store with cache := s.store.cache.expire k } }

def lts (le : String → String → Bool) (t : Products) : LTS Session Op :=
  LTS.ofFn (· = ⟨⟨t, .empty⟩, fun _ _ => 0⟩) (step le)

/-- A list request finds no entry for its page, or one since whose fill the
reservations and releases of every product on the page have cancelled out. -/
def Fresh (le : String → String → Bool) (s : Session) : Request → Prop
  | .list q => s.store.cache.page (q.limit, q.offset) = none ∨
      ∀ row ∈ selectPage le s.store.db q, s.since (q.limit, q.offset) row.id = 0
  | _ => True

/-! ## The run that goes wrong -/

def onePage : PageQuery := ⟨20, 0, by omega, by omega⟩

def staleList : List Op := [.request (.list onePage), .request (.reserve (oneUnit "A"))]

/-- What the next answer to `list_products` shows, and what the table has. -/
def shows (s : Session) : ProductListOut × ProductListOut :=
  ((listProducts byId s.store onePage).1, readPage byId s.store.db onePage)

/-- **Counterexample.** A list answer that is not the table's page. -/
theorem list_stale : ¬ ∀ s, (lts byId lastUnit).Reachable s → ∀ r,
    (handle byId s.store r).1 = direct byId s.store.db r := by
  have hrun : ∃ s, (lts byId lastUnit).Reachable s ∧
      decide ((shows s).1 ≠ (shows s).2) = true :=
    LTS.reachable_of_exec staleList rfl (by decide +kernel)
  obtain ⟨s, hr, hs⟩ := hrun
  intro h
  have heq := h s hr (.list onePage)
  simp only [handle, direct, Answer.list.injEq] at heq
  exact of_decide_eq_true hs heq

/-! ## When a read agrees with the table -/

/-- A page entry is the page of a table that differs from the current one by
what has moved since; a product entry is the current row. -/
structure Inv (le : String → String → Bool) (s : Session) : Prop where
  page : ∀ (q : PageQuery) (e : ProductListOut), s.store.cache.page (q.limit, q.offset) = some e →
    ∃ t₀, e = readPage le t₀ q ∧ s.store.db = t₀.map (bump (s.since (q.limit, q.offset)))
  product : ∀ (p : String) (v : ProductOut), s.store.cache.product p = some v →
    (find s.store.db p).map toOut = some v

theorem page_cases {le : String → String → Bool} {s : Store} {r : Request} {q : PageQuery}
    {e : ProductListOut} (h : (handle le s r).2.cache.page (q.limit, q.offset) = some e) :
    (r.fills s = some (q.limit, q.offset) ∧ e = readPage le s.db q) ∨
    (r.fills s ≠ some (q.limit, q.offset) ∧ s.cache.page (q.limit, q.offset) = some e) := by
  cases r with
  | list q' =>
    simp only [handle, listProducts] at h
    simp only [Request.fills]
    cases hc : s.cache.page (q'.limit, q'.offset) with
    | some cached =>
      rw [hc] at h
      exact .inr ⟨by simp, h⟩
    | none =>
      rw [hc] at h
      simp only [Cache.setPage, Function.update_apply] at h
      split at h
      · rename_i hk
        simp only [Option.some.injEq] at h
        have hq : q = q' := by
          obtain ⟨h1, h2⟩ := Prod.mk.injEq .. ▸ hk
          cases q; cases q'
          simp only at h1 h2
          subst h1 h2; rfl
        subst hq
        exact .inl ⟨by simp, h.symm⟩
      · rename_i hk
        exact .inr ⟨by simpa using Ne.symm hk, h⟩
  | get p =>
    refine .inr ⟨by simp [Request.fills], ?_⟩
    simp only [handle, getProduct] at h
    split at h
    · exact h
    · split at h <;> exact h
  | reserve body =>
    refine .inr ⟨by simp [Request.fills], ?_⟩
    simp only [handle, stockWrite] at h
    split at h <;> exact h
  | release body =>
    refine .inr ⟨by simp [Request.fills], ?_⟩
    simp only [handle, stockWrite] at h
    split at h <;> exact h

theorem stockWrite_product {s : Store} {body : StockRequest}
    {r : Except AppError ReserveResponse × Products}
    (hr : (∃ e, r = (.error e, s.db)) ∨ ∃ out d, r = (.ok out, addStock s.db body.productId d))
    (hI : ∀ p v, s.cache.product p = some v → (find s.db p).map toOut = some v) (p : String)
    (v : ProductOut) (h : (stockWrite s body r).2.cache.product p = some v) :
    (find (stockWrite s body r).2.db p).map toOut = some v := by
  rcases hr with ⟨e, rfl⟩ | ⟨out, d, rfl⟩
  · exact hI p v h
  · simp only [stockWrite, Cache.invalidateProduct, Function.update_apply] at h ⊢
    split at h
    · cases h
    · rename_i hp
      rw [find_addStock, if_neg hp]
      exact hI p v h

theorem handle_product {le : String → String → Bool} {s : Store} {r : Request}
    (hI : ∀ p v, s.cache.product p = some v → (find s.db p).map toOut = some v) (p : String)
    (v : ProductOut) (h : (handle le s r).2.cache.product p = some v) :
    (find (handle le s r).2.db p).map toOut = some v := by
  cases r with
  | list q =>
    simp only [handle, listProducts] at h ⊢
    split at h <;> exact hI p v h
  | get x =>
    simp only [handle, getProduct, readProduct] at h ⊢
    cases hc : s.cache.product x with
    | some cached =>
      rw [hc] at h
      exact hI p v h
    | none =>
      rw [hc] at h
      cases hf : find s.db x with
      | none =>
        rw [hf] at h
        exact hI p v h
      | some row =>
        rw [hf] at h
        simp only [Cache.setProduct, Function.update_apply] at h ⊢
        split at h
        · rename_i hp
          rw [hp, hf]; exact h
        · exact hI p v h
  | reserve body => exact stockWrite_product (reserveStock_cases _ _) hI p v h
  | release body => exact stockWrite_product (releaseStock_cases _ _) hI p v h

theorem Inv.step {le : String → String → Bool} {s s' : Session} {op : Op} (hI : Inv le s)
    (h : Session.step le s op = some s') : Inv le s' := by
  cases op with
  | request r =>
    simp only [Session.step, Option.some.injEq] at h
    subst h
    refine ⟨?_, handle_product hI.product⟩
    intro q e he
    simp only
    rcases page_cases he with ⟨hfill, rfl⟩ | ⟨hno, he⟩
    · -- filled just now: nothing has moved since
      refine ⟨s.store.db, rfl, ?_⟩
      simp only [if_pos hfill]
      have hmoves : r.moves s.store.db = fun _ => 0 := by
        cases r with
        | list q' => rfl
        | get p => cases hfill
        | reserve body => cases hfill
        | release body => cases hfill
      rw [handle_db, hmoves]
    · obtain ⟨t₀, rfl, hdb⟩ := hI.page q e he
      refine ⟨t₀, rfl, ?_⟩
      simp only [if_neg hno]
      rw [handle_db, ← bump_bump, ← hdb]
  | expire key =>
    simp only [Session.step, Option.some.injEq] at h
    subst h
    cases key with
    | product x =>
      refine ⟨hI.page, ?_⟩
      intro p v hv
      simp only [Cache.expire, Cache.invalidateProduct, Function.update_apply] at hv
      split at hv
      · cases hv
      · exact hI.product p v hv
    | page lim off =>
      refine ⟨?_, hI.product⟩
      intro q e he
      simp only [Cache.expire, Function.update_apply] at he
      split at he
      · cases he
      · exact hI.page q e he

theorem inv_reachable {le : String → String → Bool} {t : Products} {s : Session}
    (h : (lts le t).Reachable s) : Inv le s := by
  refine LTS.Inductive.reachable ⟨?_, fun _ _ _ hI hs => hI.step hs⟩ s h
  intro s hs
  subst hs
  exact ⟨fun q e he => (nomatch he), fun p v hv => (nomatch hv)⟩

/-- Two pages of the same rows agree iff no stock differs. -/
theorem readPage_bump (le : String → String → Bool) (t : Products) (q : PageQuery)
    (d : String → Int) : readPage le t q = readPage le (t.map (bump d)) q ↔
      ∀ row ∈ selectPage le (t.map (bump d)) q, d row.id = 0 := by
  simp only [readPage, ProductListOut.mk.injEq, List.length_map, and_true, selectPage_bump,
    List.map_map, List.map_inj_left, List.forall_mem_map, Function.comp_apply, toOut, bump,
    ProductOut.mk.injEq, true_and]
  constructor
  · intro h r hr
    have := h r hr
    omega
  · intro h r hr
    have := h r hr
    omega

/-- **Reads agree with the table** exactly when they are fresh: every
`get_product` is, and a `list_products` that finds no entry, or one whose
products' stock has not moved on balance. -/
theorem read_agrees_iff (le : String → String → Bool) (t : Products) {s : Session}
    (h : (lts le t).Reachable s) (r : Request) :
    (handle le s.store r).1 = direct le s.store.db r ↔ s.Fresh le r := by
  have hI := inv_reachable h
  cases r with
  | list q =>
    simp only [handle, direct, Answer.list.injEq, Fresh, listProducts]
    cases hc : s.store.cache.page (q.limit, q.offset) with
    | none => simp
    | some e =>
      obtain ⟨t₀, rfl, hdb⟩ := hI.page q e hc
      simp only [reduceCtorEq, false_or]
      rw [hdb]
      exact readPage_bump le t₀ q _
  | get p =>
    simp only [handle, direct, Answer.get.injEq, Fresh, iff_true, getProduct]
    cases hc : s.store.cache.product p with
    | some cached =>
      obtain ⟨row, hf, hrow⟩ := Option.map_eq_some_iff.mp (hI.product p cached hc)
      simp only [readProduct, hf, hrow]
    | none => cases readProduct s.store.db p <;> rfl
  | reserve body =>
    simp only [handle, direct, Answer.stock.injEq, Fresh, iff_true, stockWrite]
    split <;> rename_i he <;> rw [he]
  | release body =>
    simp only [handle, direct, Answer.stock.injEq, Fresh, iff_true, stockWrite]
    split <;> rename_i he <;> rw [he]

/-- The unit comes back: the entry filled at first is the page again. -/
def backAgain : List Op := staleList ++ [.request (.release (oneUnit "A"))]

theorem read_agrees_back_again : ∃ s, (lts byId lastUnit).Reachable s ∧
    s.store.cache.page (20, 0) ≠ none ∧
    (handle byId s.store (.list onePage)).1 = direct byId s.store.db (.list onePage) := by
  have hrun : ∃ s, (lts byId lastUnit).Reachable s ∧ (decide (s.store.cache.page (20, 0) ≠ none) &&
      (selectPage byId s.store.db onePage).all fun row => s.since (20, 0) row.id = 0) = true :=
    LTS.reachable_of_exec backAgain rfl (by decide +kernel)
  obtain ⟨s, hr, hs⟩ := hrun
  obtain ⟨hc, hf⟩ := Bool.and_eq_true_iff.mp hs
  refine ⟨s, hr, of_decide_eq_true hc, (read_agrees_iff byId lastUnit hr _).mpr (.inr ?_)⟩
  intro row hrow
  exact of_decide_eq_true (List.all_eq_true.mp hf row hrow)

end Session
end Gestalt.Catalog
