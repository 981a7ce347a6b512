import Gestalt.L2Stores.CartServer

/-!
# Carts that never expire

Status: open.

Behaviour: `HSET` creates a key without an expiry, and the expiry is set by the last
command of `touch_cart` alone (services/cart-service/app/redis_client.py:25-27). An
`add_item` that dies before it leaves the cart it has created for good
(routers/cart.py:50-51). `run_pass` flags a cart with a bare `HSET`
(abandonment.py:44): when the cart has expired since the `HGETALL`, the key is back,
with the flag as its only field and without an expiry.

Documented: routers/cart.py:69-75, "the cart's 24h TTL ... is what bounds staleness";
redis_client.py:22, `touch_cart` is called "on every cart write".

Counterexample: `diesEarly`, an `add_item` that dies after its `HSET`; and
`flagsExpired`, in which nothing dies: a cart expires between the `HGETALL` and the
`HSET` of a scan. Both leave a key without an expiry and nothing in progress.

Fix: the fields and the expiry in one `MULTI`, and no flag on a key that is gone.
-/
namespace Gestalt.Cart

/-- It goes on to the `EXPIRE` of `touch_cart`, whatever the cart holds. -/
def Pc.expires : Pc → Bool
  | .hset _ => true
  | .hdelPresent _ => true
  | .touch _ _ => true
  | _ => false

/-- The key whose expiry the request is still to set. -/
def Proc.owes (x : Proc) : Option String :=
  if x.alive = true ∧ x.pc.expires = true then some (cartKey x.call.userId) else none

namespace System

/-- No request and no step of a scan is in progress. -/
def Quiet (s : System) : Prop :=
  (∀ x ∈ s.procs, x.alive = true → ∃ a, x.pc = .done a) ∧
    ∀ x ∈ s.scans, x.alive = true → x.pc = .scan ∨ x.pc = .done

/-- Every cart there is expires, within the time to live of a cart. -/
def Ephemeral (cfg : Settings) (s : System) : Prop :=
  ∀ key, (s.redis key).live = true →
    ∃ t, (s.redis key).expireAt = some t ∧ t ≤ s.clock + cfg.cartTtlSeconds * microseconds

/-- A request dies only where its cart has an expiry or another request is still to set it, and
a scan flags only a cart that is still there (or is still to be given its expiry). -/
def expiryKept (s : System) : Lbl → Bool
  | .crash i =>
    match s.procs[i]? with
    | some x =>
      let key := cartKey x.call.userId
      !(s.redis key).live || (s.redis key).expireAt.isSome ||
        (s.procs.eraseIdx i).any fun y => decide (y.owes = some key)
    | none => true
  | .nextKey j _ =>
    match s.scans[j]? with
    | some ⟨_, .flag k, true⟩ => (s.redis k).live || s.procs.any fun y => decide (y.owes = some k)
    | _ => true
  | _ => true

def keptExpiryLts (cfg : Settings) : LTS System Lbl :=
  (freshLts cfg).restrict fun s l => expiryKept s l = true

/-- Who has an entry without an expiry will have one. -/
structure Owed (cfg : Settings) (s : System) : Prop where
  owed : ∀ key, (s.redis key).live = true → (s.redis key).expireAt = none →
    ∃ x ∈ s.procs, x.owes = some key
  bound : ∀ key t, (s.redis key).expireAt = some t → t ≤ s.clock + cfg.cartTtlSeconds * microseconds

end System

/-! ## What a command does to the expiry -/

theorem Entry.live_hdel {e : Entry} {fs : List String} (h : (e.hdel fs).live = true) :
    e.live = true ∧ (e.hdel fs).expireAt = e.expireAt := by
  have hgone : e.fields.keys = [] → (fs.foldl (fun a f => a.erase f) e.fields).keys = [] := by
    intro hnil
    refine List.eq_nil_iff_forall_not_mem.mpr fun g hg => ?_
    rw [← AList.mem_keys, ← AList.lookup_isSome, lookup_foldl_erase, lookup_of_keys_nil hnil] at hg
    simp at hg
  simp only [hdel] at h ⊢
  split at h
  · cases h
  · rename_i hleft
    rw [if_neg hleft]
    refine ⟨?_, rfl⟩
    unfold live
    simpa using fun hnil => hleft (hgone hnil)

theorem Entry.expireAt_hdel {e : Entry} {fs : List String} {t : Nat} (h : (e.hdel fs).expireAt = some t) :
    e.expireAt = some t := by
  simp only [hdel] at h
  split at h
  · cases h
  · exact h

theorem Entry.expireAt_expire {e : Entry} {d : Nat} (h : (e.expire d).live = true) :
    (e.expire d).expireAt = some d := by
  unfold expire at h ⊢
  split
  · rename_i hnil
    rw [if_pos hnil] at h
    simp [live, hnil] at h
  · rfl

section
variable {cfg : Settings} {now : Nat} {e e' : Entry} {r : Request} {pc pc' : Pc}

/-- An entry without an expiry is one the request is still to give it, or was so before. -/
theorem Moves.owed (h : Moves cfg now e r pc e' pc') (hlive : e'.live = true) (hnone : e'.expireAt = none) :
    pc'.expires = true ∨ (pc.expires = false ∧ e.live = true ∧ e.expireAt = none) := by
  cases h with
  | refuse hpc =>
    right
    rcases hpc with rfl | ⟨_, rfl⟩ <;> exact ⟨rfl, hlive, hnone⟩
  | stock => exact .inr ⟨rfl, hlive, hnone⟩
  | read => exact .inl rfl
  | write => exact .inl rfl
  | @touch r next pc =>
    cases pc with
    | time => exact .inl rfl
    | updatedAt => exact .inl rfl
    | counted => exact .inl rfl
    | expire =>
      -- the command that ends it
      have hsome := Entry.expireAt_expire hlive
      have : some (now + cfg.cartTtlSeconds * microseconds) = none := hsome.symm.trans hnone
      cases this
  | cart => exact .inr ⟨rfl, hlive, hnone⟩
  | hdel =>
    obtain ⟨hl, he⟩ := Entry.live_hdel hlive
    exact .inr ⟨rfl, hl, he ▸ hnone⟩
  | hkeys => exact .inr ⟨rfl, hlive, hnone⟩
  | hmget => exact .inr ⟨rfl, hlive, hnone⟩
  | hdelPresent => exact .inl rfl

theorem Moves.bound (h : Moves cfg now e r pc e' pc') {t : Nat} (ht : e'.expireAt = some t) :
    e.expireAt = some t ∨ t = now + cfg.cartTtlSeconds * microseconds := by
  cases h with
  | refuse | stock | read | write | cart | hkeys | hmget => exact .inl ht
  | hdel | hdelPresent => exact .inl (Entry.expireAt_hdel ht)
  | @touch r next pc =>
    cases pc with
    | time | updatedAt => exact .inl ht
    | counted => exact .inl (Entry.expireAt_hdel ht)
    | expire =>
      simp only [TouchPc.step, Entry.expire] at ht
      split at ht
      · exact .inl ht
      · exact .inr (Option.some.inj ht).symm

end

theorem Proc.owes_eq {x : Proc} {key : String} :
    x.owes = some key ↔ x.alive = true ∧ x.pc.expires = true ∧ cartKey x.call.userId = key := by
  unfold owes
  split
  · rename_i h
    simp [h]
  · rename_i h
    simp only [reduceCtorEq, false_iff]
    exact fun ⟨ha, he, _⟩ => h ⟨ha, he⟩

namespace System

variable {cfg : Settings} {s s' : System}

theorem owed_step {l : Lbl} (hI : s.Owed cfg) (h : s.step cfg l = some s') (hG : expiryKept s l = true) :
    s'.Owed cfg := by
  cases steps_of_step h with
  | call r =>
    refine ⟨fun key hlive hnone => ?_, hI.bound⟩
    obtain ⟨x, hx, hox⟩ := hI.owed key hlive hnone
    exact ⟨x, List.mem_append_left _ hx, hox⟩
  | @next i catalog x e' pc' hx ha hm =>
    constructor
    · intro key hlive hnone
      have hkept : x.owes ≠ some key → (∃ y ∈ s.procs, y.owes = some key) →
          ∃ y ∈ s.procs.set i { x with pc := pc' }, y.owes = some key :=
        Procs.holder_kept hx
      by_cases hkey : key = cartKey x.call.userId
      · subst hkey
        simp only [Function.update_self] at hlive hnone
        rcases hm.owed hlive hnone with hpc' | ⟨hpc, hl, hn⟩
        · exact ⟨_, List.mem_of_getElem? (Procs.set_self hx), Proc.owes_eq.mpr ⟨ha, hpc', rfl⟩⟩
        · refine hkept (fun hox => ?_) (hI.owed _ hl hn)
          rw [(Proc.owes_eq.mp hox).2.1] at hpc
          cases hpc
      · simp only [Function.update_of_ne hkey] at hlive hnone
        exact hkept (fun hox => hkey (Proc.owes_eq.mp hox).2.2.symm) (hI.owed _ hlive hnone)
    · intro key t ht
      by_cases hkey : key = cartKey x.call.userId
      · subst hkey
        simp only [Function.update_self] at ht
        rcases hm.bound ht with hold | rfl
        · exact hI.bound _ t hold
        · exact Nat.le_refl _
      · simp only [Function.update_of_ne hkey] at ht
        exact hI.bound _ t ht
  | @crash i x hx =>
    refine ⟨fun key hlive hnone => ?_, hI.bound⟩
    by_cases hkey : key = cartKey x.call.userId
    · subst hkey
      have hlive' : (s.redis (cartKey x.call.userId)).live = true := hlive
      have hnone' : (s.redis (cartKey x.call.userId)).expireAt = none := hnone
      -- another request owes it
      simp only [expiryKept, hx, hlive', hnone', Bool.not_true, Option.isSome_none, Bool.false_or,
        List.any_eq_true, decide_eq_true_eq] at hG
      obtain ⟨y, hy, hoy⟩ := hG
      obtain ⟨j, hji, hj⟩ := List.mem_eraseIdx_iff_getElem?.mp hy
      refine ⟨y, List.mem_of_getElem? (i := j) ?_, hoy⟩
      rw [List.getElem?_set_ne (Ne.symm hji)]
      exact hj
    · exact Procs.holder_kept hx (fun hox => hkey (Proc.owes_eq.mp hox).2.2.symm)
        (hI.owed key hlive hnone)
  | runPass | scan | pass | count | crashScan => exact ⟨hI.owed, hI.bound⟩
  | @flag j key x k hx ha hpc =>
    have hkept : (s.redis k).live = true ∨ ∃ y ∈ s.procs, y.owes = some k := by
      obtain ⟨now, pc, alive⟩ := x
      obtain rfl : pc = .flag k := hpc
      obtain rfl : alive = true := ha
      simpa [expiryKept, hx] using hG
    constructor
    · intro key' hlive hnone
      by_cases hkey : key' = k
      · subst hkey
        simp only [Function.update_self, Cart.flag, Entry.hset] at hnone
        rcases hkept with hl | ho
        · exact hI.owed _ hl hnone
        · exact ho
      · simp only [Function.update_of_ne hkey] at hlive hnone
        exact hI.owed _ hlive hnone
    · intro key' t ht
      by_cases hkey : key' = k
      · subst hkey
        simp only [Function.update_self, Cart.flag, Entry.hset] at ht
        exact hI.bound _ t ht
      · simp only [Function.update_of_ne hkey] at ht
        exact hI.bound _ t ht
  | @expire key t ht hdue =>
    constructor
    · intro key' hlive hnone
      by_cases hkey : key' = key
      · subst hkey
        simp [Entry.live, Entry.empty] at hlive
      · simp only [Function.update_of_ne hkey] at hlive hnone
        exact hI.owed _ hlive hnone
    · intro key' t' ht'
      by_cases hkey : key' = key
      · subst hkey
        simp [Entry.empty] at ht'
      · simp only [Function.update_of_ne hkey] at ht'
        exact hI.bound _ t' ht'
  | tick d =>
    refine ⟨hI.owed, fun key t ht => ?_⟩
    have := hI.bound key t ht
    simp only
    omega

theorem owed_noCarts : noCarts.Owed cfg := by
  constructor
  · intro key hlive
    cases hlive
  · intro key t ht
    cases ht

theorem owed_inductive (cfg : Settings) : (keptExpiryLts cfg).Inductive (Owed cfg) where
  init := by
    rintro _ rfl
    exact owed_noCarts
  step _ _ _ hI h := owed_step hI h.1 h.2

/-- With nothing in progress nobody owes an expiry. -/
theorem Quiet.owes {x : Proc} {key : String} (h : s.Quiet) (hx : x ∈ s.procs) : x.owes ≠ some key := by
  intro hox
  obtain ⟨ha, he, -⟩ := Proc.owes_eq.mp hox
  obtain ⟨a, hpc⟩ := h.1 x hx ha
  rw [hpc] at he
  cases he

/-! ## The runs that go wrong -/

/-- `add_item` dies when it has written the product. -/
def diesEarly : List Lbl := [.call (.addItem "ada" ⟨"P001", 1, Int.one_pos⟩)] ++
  List.replicate 3 (.next 0 (.ok 100)) ++ [.crash 0]

def lifetime : Nat := 86400 * microseconds

/-- A cart of the full age expires while a scan has it in its hands. -/
def flagsExpired : List Lbl := [.call (.addItem "ada" ⟨"P001", 1, Int.one_pos⟩)] ++
  List.replicate 8 (.next 0 (.ok 100)) ++
  [.tick lifetime, .runPass, .nextKey 0 (some "cart:ada"), .nextKey 0 none, .expire "cart:ada",
    .nextKey 0 none, .nextKey 0 none]

/-- Every request has died or is answered, every scan is over. -/
def allOver (s : System) : Bool :=
  (s.procs.all fun x => !x.alive || match x.pc with | .done _ => true | _ => false) &&
    s.scans.all fun x => decide (x.pc = .done)

theorem quiet_of_allOver (h : s.allOver = true) : s.Quiet := by
  simp only [allOver, Bool.and_eq_true, List.all_eq_true, decide_eq_true_eq] at h
  refine ⟨fun x hx ha => ?_, fun x hx _ => .inr (h.2 x hx)⟩
  have hx' := h.1 x hx
  rw [ha] at hx'
  cases hpc : x.pc with
  | done a => exact ⟨a, rfl⟩
  | _ => simp [hpc] at hx'

/-- Ada's cart is there, without an expiry, and nothing is in progress. -/
def leftForGood (s : System) : Bool :=
  s.allOver && (s.redis "cart:ada").live && (s.redis "cart:ada").expireAt.isNone

theorem not_ephemeral (h : s.leftForGood = true) : s.Quiet ∧ ¬ s.Ephemeral cfg := by
  simp only [leftForGood, Bool.and_eq_true] at h
  obtain ⟨⟨hover, hlive⟩, hnone⟩ := h
  refine ⟨quiet_of_allOver hover, fun he => ?_⟩
  obtain ⟨t, ht, -⟩ := he "cart:ada" hlive
  rw [ht] at hnone
  cases hnone

/-- **Counterexample.** By an `add_item` that dies, and by a scan when nothing does. -/
theorem cart_left_for_good :
    (¬ ∀ cfg s, (freshLts cfg).Reachable s → s.Quiet → s.Ephemeral cfg) ∧
      ∃ s, (freshLts {}).Run noCarts flagsExpired s ∧ s.Quiet ∧ ¬ s.Ephemeral {} := by
  have hflags : ∃ s, (freshLts {}).Run noCarts flagsExpired s ∧ s.leftForGood = true :=
    LTS.exists_run_of_exec flagsExpired (by decide +kernel)
  have hdies : ∃ s, (freshLts {}).Reachable s ∧ s.leftForGood = true :=
    LTS.reachable_of_exec diesEarly rfl (by decide +kernel)
  constructor
  · intro h
    obtain ⟨s, hr, hs⟩ := hdies
    obtain ⟨hq, hne⟩ : s.Quiet ∧ ¬ s.Ephemeral {} := not_ephemeral hs
    exact hne (h {} s hr hq)
  · obtain ⟨s, hr, hs⟩ := hflags
    exact ⟨s, hr, not_ephemeral hs⟩

/-- **Carts expire.** In every state such runs reach with nothing in progress. -/
theorem carts_expire (cfg : Settings) {s : System} (hr : (keptExpiryLts cfg).Reachable s) (hq : s.Quiet) :
    s.Ephemeral cfg := by
  intro key hlive
  have hI := (owed_inductive cfg).reachable s hr
  cases ht : (s.redis key).expireAt with
  | some t => exact ⟨t, rfl, hI.bound key t ht⟩
  | none =>
    obtain ⟨x, hx, hox⟩ := hI.owed key hlive ht
    exact absurd hox (hq.owes hx)

/-- One request dies between its `HSET` and its `EXPIRE`, and another has come in by then. -/
def relieved : List Lbl :=
  [.call (.addItem "ada" ⟨"P001", 1, Int.one_pos⟩), .call (.addItem "ada" ⟨"P002", 1, Int.one_pos⟩)] ++
    List.replicate 3 (.next 0 (.ok 100)) ++ List.replicate 2 (.next 1 (.ok 100)) ++ [.crash 0] ++
    List.replicate 6 (.next 1 (.ok 100))

theorem carts_expire_relieved :
    ∃ s, (keptExpiryLts {}).Reachable s ∧ (s.redis "cart:ada").live = true ∧ s.Quiet ∧ s.Ephemeral {} := by
  obtain ⟨s, hr, hs⟩ : ∃ s, (keptExpiryLts {}).Reachable s ∧
      (s.allOver && (s.redis "cart:ada").live) = true :=
    LTS.reachable_of_execG relieved rfl (by decide +kernel)
  rw [Bool.and_eq_true] at hs
  have hq := quiet_of_allOver hs.1
  exact ⟨s, hr, hs.2, hq, carts_expire {} hr hq⟩

end System
end Gestalt.Cart
