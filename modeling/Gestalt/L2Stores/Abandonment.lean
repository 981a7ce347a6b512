import Gestalt.L2Stores.CartServer

/-!
# cart-service: counting abandoned carts, one request and one cart at a time

Requests and scans as `Cart` has them, each request and each cart of a scan done as a
whole: nothing comes between the Redis commands of one of them, anything between two
of them. `run_pass` reads the clock once, before its first cart. `SCAN` may return any
key at any time, and again.

* `run_matches`: these runs are runs of `CartServer`.
* `counts_iff`: a cart is counted exactly when it has items, was last touched the
  threshold before the pass, and has not been counted since.

A removal touches a cart only when items are left, and may name the metadata fields;
`Stamped` holds for carts with items alone, so that it outlasts both.
-/
namespace Gestalt.Cart

/-- One cart of a scan, and whether it is counted.
mirrors services/cart-service/app/abandonment.py:29-46 -/
def passKey (cfg : Settings) (now : Nat) (e : Entry) : Entry × Bool :=
  if abandoned cfg now e then (flag e, true) else (e, false)

/-- The request calls `touch_cart`.
mirrors services/cart-service/app/routers/cart.py:46-51, :59-61 and :95-100 -/
def Request.touches (catalog : Except AppError Int) (e : Entry) : Request → Bool
  | .addItem _ body =>
    match catalog, currentQty e body.productId with
    | .ok stock, some current => decide (current + body.quantity ≤ stock)
    | _, _ => false
  | .removeItem _ p => (e.hdel [p]).hasItems
  | .batchRemoveItems _ ps => !(presentIds e ps).isEmpty

/-- **A cart of a scan alone.** Nothing comes in between: the scan does what `passKey` does. -/
theorem System.scan_alone (cfg : Settings) {t : System} {j now : Nat} (key : String)
    (hx : t.scans[j]? = some { now }) :
    ∃ ls, (System.lts cfg).Run t ls { t with
      redis := Function.update t.redis key (passKey cfg now (t.redis key)).1
      abandonments :=
        if (passKey cfg now (t.redis key)).2 then t.abandonments ++ [key] else t.abandonments } := by
  let next (pc : ScanPc) : System := { t with scans := t.scans.set j { now, pc } }
  have hj (pc : ScanPc) : (next pc).scans[j]? = some { now, pc } := Procs.set_self hx
  have hback : t.scans.set j { now } = t.scans := by
    obtain ⟨hlt, hget⟩ := List.getElem?_eq_some_iff.mp hx
    simp only [← hget, List.set_getElem_self]
  have hkey : t.step cfg (.nextKey j (some key)) = some (next (.hgetall key)) := by
    simp [System.step, System.scanStep, hx, next]
  by_cases hab : abandoned cfg now (t.redis key) = true
  · let counted : System := { next (.flag key) with abandonments := t.abandonments ++ [key] }
    have hread : (next (.hgetall key)).step cfg (.nextKey j none) = some counted := by
      simp [System.step, System.scanStep, hj, next, hab, counted]
    have hflag : counted.step cfg (.nextKey j none) = some { t with
        redis := Function.update t.redis key (flag (t.redis key))
        abandonments := t.abandonments ++ [key] } := by
      simp [System.step, System.scanStep, hj, next, hback, counted]
    refine ⟨[.nextKey j (some key), .nextKey j none, .nextKey j none], ?_⟩
    simpa [passKey, hab] using LTS.Run.cons hkey (.cons hread (.cons hflag (.nil _)))
  · have hread : (next (.hgetall key)).step cfg (.nextKey j none) = some t := by
      simp only [System.step, hj, System.scanStep, next, if_true, if_neg hab, List.set_set, hback]
    refine ⟨[.nextKey j (some key), .nextKey j none], ?_⟩
    simpa [passKey, hab] using LTS.Run.cons hkey (.cons hread (.nil _))

structure Atomic where
  redis : String → Entry
  /-- the time each `run_pass` has read -/
  passes : List Nat
  abandonments : List String
  clock : Nat

namespace Atomic

inductive Lbl
  | request (r : Request) (catalog : Except AppError Int)
  | runPass
  /-- pass `j` does the cart `key` -/
  | key (j : Nat) (key : String)
  | tick (d : Nat)

def noCarts : Atomic := ⟨fun _ => .empty, [], [], 0⟩

section
variable (cfg : Settings)

def step (s : Atomic) : Lbl → Option Atomic
  | .request r catalog =>
    let key := cartKey r.userId
    some { s with redis := Function.update s.redis key (r.serve cfg catalog s.clock (s.redis key)).1 }
  | .runPass => some { s with passes := s.passes ++ [s.clock] }
  | .key j key =>
    match s.passes[j]? with
    | some now =>
      let (e, counted) := passKey cfg now (s.redis key)
      some { s with
        redis := Function.update s.redis key e
        abandonments := if counted then s.abandonments ++ [key] else s.abandonments }
    | none => none
  | .tick d => some { s with clock := s.clock + d }

def lts : LTS Atomic Lbl := LTS.ofFn (fun s => s = noCarts) (step cfg)

end

/-! ## As a run of single commands -/

/-- Between two steps of `Atomic` every scan is between two carts. -/
structure Matches (s : Atomic) (t : System) : Prop where
  redis : t.redis = s.redis
  scans : t.scans = s.passes.map fun now => { now }
  abandonments : t.abandonments = s.abandonments
  clock : t.clock = s.clock

variable {cfg : Settings} {s s' : Atomic} {t : System}

theorem matches_request {r : Request} {catalog : Except AppError Int}
    (hst : s.step cfg (.request r catalog) = some s') (h : s.Matches t) :
    ∃ ls t', (System.lts cfg).Run t ls t' ∧ s'.Matches t' := by
  obtain rfl := Option.some.inj hst
  let t₁ : System := { t with procs := t.procs ++ [{ call := r, pc := r.entry }] }
  have hcall : t.step cfg (.call r) = some t₁ := rfl
  obtain ⟨n, hrun⟩ := System.alone cfg catalog (s := t₁) (r := r) Procs.spawn_new
  refine ⟨_, _, .cons hcall hrun, ?_, h.scans, h.abandonments, h.clock⟩
  simp only [t₁, h.redis, h.clock]

theorem matches_key {j : Nat} {key : String} (hst : s.step cfg (.key j key) = some s')
    (h : s.Matches t) : ∃ ls t', (System.lts cfg).Run t ls t' ∧ s'.Matches t' := by
  simp only [step] at hst
  split at hst
  · rename_i now hnow
    obtain rfl := Option.some.inj hst
    have hscan : t.scans[j]? = some { now } := by
      rw [h.scans, List.getElem?_map, hnow]
      rfl
    obtain ⟨ls, hrun⟩ := System.scan_alone cfg key hscan
    refine ⟨ls, _, hrun, ?_, h.scans, ?_, h.clock⟩ <;> simp only [h.redis, h.abandonments]
  · cases hst

theorem matches_step {l : Lbl} (hst : s.step cfg l = some s') (h : s.Matches t) :
    ∃ ls t', (System.lts cfg).Run t ls t' ∧ s'.Matches t' := by
  cases l with
  | request r catalog => exact matches_request hst h
  | key j key => exact matches_key hst h
  | runPass =>
    obtain rfl := Option.some.inj hst
    have hpass : t.step cfg .runPass = some { t with scans := t.scans ++ [{ now := t.clock }] } := rfl
    refine ⟨_, _, .cons hpass (.nil _), h.redis, ?_, h.abandonments, h.clock⟩
    simp [h.scans, h.clock]
  | tick d =>
    obtain rfl := Option.some.inj hst
    have htick : t.step cfg (.tick d) = some { t with clock := t.clock + d } := rfl
    exact ⟨_, _, .cons htick (.nil _), h.redis, h.scans, h.abandonments, by simp [h.clock]⟩

/-- **Whole steps are runs of commands.** -/
theorem run_matches {ls : List Lbl} (hr : (lts cfg).Run s ls s') :
    ∀ {t : System}, s.Matches t → ∃ ls' t', (System.lts cfg).Run t ls' t' ∧ s'.Matches t' := by
  induction hr with
  | nil => exact fun {t} h => ⟨[], t, .nil _, h⟩
  | cons hst _ ih =>
    intro t h
    obtain ⟨ls₁, t₁, hr₁, h₁⟩ := matches_step hst h
    obtain ⟨ls₂, t₂, hr₂, h₂⟩ := ih h₁
    exact ⟨ls₁ ++ ls₂, t₂, hr₁.append hr₂, h₂⟩

/-! ## Touches -/

/-- A `touch_cart`: when, and how often the cart had been counted by then. -/
structure Touch where
  time : Nat
  counted : Nat
  deriving DecidableEq, Repr

def noteTouch (s : Atomic) (l : Lbl) (h : String → Option Touch) : String → Option Touch :=
  match l with
  | .request r catalog =>
    let key := cartKey r.userId
    if r.touches catalog (s.redis key) then
      Function.update h key (some ⟨s.clock, s.abandonments.count key⟩)
    else h
  | _ => h

/-- The last `touch_cart` on each cart. -/
def lastTouch (cfg : Settings) (ls : List Lbl) : String → Option Touch :=
  LTS.history (step cfg) noteTouch noCarts (fun _ => none) ls

/-- The cart has items, its last touch is as old as the threshold at the time `now`, and it has not been
counted since. -/
def Due (cfg : Settings) (s : Atomic) (ls : List Lbl) (now : Nat) (key : String) : Prop :=
  (s.redis key).hasItems = true ∧
    ∃ x, lastTouch cfg ls key = some x ∧
      x.time + cfg.cartAbandonmentThresholdSeconds * microseconds ≤ now ∧
      s.abandonments.count key = x.counted

/-- No product of the catalog has the name of a metadata field. -/
def plainProducts : Lbl → Bool
  | .request (.addItem _ body) (.ok _) => decide (body.productId ∉ metaFields)
  | _ => true

def plainLts (cfg : Settings) : LTS Atomic Lbl := (lts cfg).restrict fun _ l => plainProducts l = true

/-- A cart with items holds the time of its last touch, and the flag if it was counted since. -/
def Stamped (s : Atomic) (h : String → Option Touch) : Prop :=
  ∀ key, (s.redis key).hasItems = true →
    ∃ x, h key = some x ∧ (s.redis key).hget updatedAtField = some (.time x.time) ∧
      ((s.redis key).hget abandonmentCountedField = none ↔ s.abandonments.count key = x.counted)

end Atomic

/-! ### What a request does to the metadata -/

section
variable {cfg : Settings} {catalog : Except AppError Int} {now : Nat} {e : Entry} {r : Request}

theorem serve_touches (h : r.touches catalog e = true) :
    ∃ e', (r.serve cfg catalog now e).1 = touchCart cfg now e' := by
  cases r with
  | addItem u body =>
    cases catalog with
    | error err => cases h
    | ok stock =>
      cases hq : currentQty e body.productId with
      | none => simp [Request.touches, hq] at h
      | some current =>
        have hs : ¬ stock < current + body.quantity := by simpa [Request.touches, hq] using h
        exact ⟨e.hset body.productId (.int (current + body.quantity)),
          by simp [Request.serve, addItem, hq, hs]⟩
  | removeItem u p =>
    have hitems : (e.hdel [p]).hasItems = true := h
    exact ⟨e.hdel [p], by simp [Request.serve, removeItem, hitems]⟩
  | batchRemoveItems u ps =>
    have hp : (presentIds e ps).isEmpty = false := by simpa [Request.touches] using h
    have hps : ps.isEmpty = false := by
      cases ps with
      | nil => cases hp
      | cons => rfl
    exact ⟨e.hdel (presentIds e ps), by simp [Request.serve, batchRemoveItems, hp, hps]⟩

/-- Without a touch the cart is as before, or has no items. -/
theorem serve_not_touches (h : r.touches catalog e = false) :
    (r.serve cfg catalog now e).1 = e ∨ (r.serve cfg catalog now e).1.hasItems = false := by
  cases r with
  | addItem u body =>
    left
    cases catalog with
    | error err => rfl
    | ok stock =>
      cases hq : currentQty e body.productId with
      | none => simp [Request.serve, addItem, hq]
      | some current =>
        have hs : stock < current + body.quantity := by simpa [Request.touches, hq] using h
        simp [Request.serve, addItem, hq, hs]
  | removeItem u p =>
    have hitems : (e.hdel [p]).hasItems = false := h
    exact .inr (by simp [Request.serve, removeItem, hitems])
  | batchRemoveItems u ps =>
    have hp : (presentIds e ps).isEmpty = true := by simpa [Request.touches] using h
    left
    simp only [Request.serve, batchRemoveItems, hp, if_true]
    split <;> rfl

theorem updatedAt_touchCart : (touchCart cfg now e).hget updatedAtField = some (.time now) := by
  rw [touchCart, Entry.hget_expire, Entry.hget_hdel, if_neg (by decide), Entry.hget_hset, if_pos rfl]

theorem counted_touchCart : (touchCart cfg now e).hget abandonmentCountedField = none := by
  rw [touchCart, Entry.hget_expire, Entry.hget_hdel, if_pos (by decide)]

/-- The scan counts a stamped cart with items by its time and its flag. -/
theorem abandoned_iff {t : Nat} (hstamp : e.hget updatedAtField = some (.time t)) :
    abandoned cfg now e = true ↔ e.hasItems = true ∧ e.hget abandonmentCountedField = none ∧
      t + cfg.cartAbandonmentThresholdSeconds * microseconds ≤ now := by
  have hlive : e.live = true := by
    have : updatedAtField ∈ e.hkeys := Entry.mem_hkeys.mpr (by rw [hstamp]; exact Option.some_ne_none _)
    unfold Entry.hkeys at this
    unfold Entry.live
    cases hk : e.fields.keys with
    | nil => rw [hk] at this; cases this
    | cons => rfl
  have hage : (cfg.cartAbandonmentThresholdSeconds * microseconds : Int) ≤ now - (t : Int) ↔
      t + cfg.cartAbandonmentThresholdSeconds * microseconds ≤ now := by
    rw [← Int.ofNat_le, Int.natCast_add, Int.natCast_mul]
    omega
  simp only [abandoned, hlive, hstamp, Option.map_some, Option.getD_some, Value.toTime, Bool.true_and,
    Bool.and_eq_true, Option.isNone_iff_eq_none, decide_eq_true_eq, hage]
  constructor
  · rintro ⟨⟨hn, hi⟩, ha⟩
    exact ⟨hi, hn, ha⟩
  · rintro ⟨hi, hn, ha⟩
    exact ⟨⟨hn, hi⟩, ha⟩

end

namespace Atomic

variable {cfg : Settings} {s s' : Atomic} {h : String → Option Touch}

theorem stamped_request {r : Request} {catalog : Except AppError Int} (hI : s.Stamped h) :
    Stamped { s with
        redis := Function.update s.redis (cartKey r.userId)
          (r.serve cfg catalog s.clock (s.redis (cartKey r.userId))).1 }
      (noteTouch s (.request r catalog) h) := by
  intro key hitems
  by_cases hkey : key = cartKey r.userId
  · subst hkey
    simp only [Function.update_self] at hitems ⊢
    simp only [noteTouch]
    cases ht : r.touches catalog (s.redis (cartKey r.userId)) with
    | true =>
      obtain ⟨e', he'⟩ : ∃ e', (r.serve cfg catalog s.clock (s.redis (cartKey r.userId))).1 =
          touchCart cfg s.clock e' := serve_touches ht
      rw [he', updatedAt_touchCart, counted_touchCart]
      refine ⟨⟨s.clock, s.abandonments.count (cartKey r.userId)⟩, ?_, rfl, by simp⟩
      simp only [if_true, Function.update_self]
    | false =>
      have hleft : (r.serve cfg catalog s.clock (s.redis (cartKey r.userId))).1 = s.redis (cartKey r.userId) ∨
          (r.serve cfg catalog s.clock (s.redis (cartKey r.userId))).1.hasItems = false :=
        serve_not_touches ht
      rcases hleft with he | he
      · rw [he] at hitems ⊢
        exact hI _ hitems
      · rw [he] at hitems
        cases hitems
  · simp only [Function.update_of_ne hkey] at hitems ⊢
    have hsame : noteTouch s (.request r catalog) h key = h key := by
      simp only [noteTouch]
      split
      · exact Function.update_of_ne hkey _ _
      · rfl
    rw [hsame]
    exact hI key hitems

/-- The scan counts a cart with items exactly when it is due. -/
theorem Stamped.abandoned_iff (hI : s.Stamped h) {now : Nat} {key : String} :
    abandoned cfg now (s.redis key) = true ↔ (s.redis key).hasItems = true ∧
      ∃ x, h key = some x ∧ x.time + cfg.cartAbandonmentThresholdSeconds * microseconds ≤ now ∧
        s.abandonments.count key = x.counted := by
  constructor
  · intro hab
    have hitems : (s.redis key).hasItems = true := by
      simp only [abandoned, Bool.and_eq_true] at hab
      exact hab.1.2
    obtain ⟨x, hx, hstamp, hcounted⟩ := hI key hitems
    obtain ⟨-, hnone, hage⟩ := (Cart.abandoned_iff hstamp).mp hab
    exact ⟨hitems, x, hx, hage, hcounted.mp hnone⟩
  · rintro ⟨hitems, x, hx, hage, hcount⟩
    obtain ⟨y, hy, hstamp, hcounted⟩ := hI key hitems
    obtain rfl : x = y := Option.some.inj (hx.symm.trans hy)
    exact (Cart.abandoned_iff hstamp).mpr ⟨hitems, hcounted.mpr hcount, hage⟩

/-- A cart that is counted gets its flag. -/
theorem stamped_count {key : String} (hI : s.Stamped h)
    (hnone : (s.redis key).hget abandonmentCountedField = none) :
    Stamped { s with
      redis := Function.update s.redis key (flag (s.redis key))
      abandonments := s.abandonments ++ [key] } h := by
  intro key' hitems
  by_cases hkey : key' = key
  · subst hkey
    simp only [Function.update_self] at hitems ⊢
    obtain ⟨x, hx, hstamp, hcounted⟩ := hI key' (Entry.hasItems_of_flag hitems)
    refine ⟨x, hx, (Entry.updatedAt_flag _).trans hstamp, ?_⟩
    -- counted once more, it is no longer what it was at the touch
    have hcount := hcounted.mp hnone
    rw [flag, Entry.hget_hset, if_pos rfl, List.count_append, List.count_singleton_self]
    simp only [reduceCtorEq, false_iff]
    omega
  · simp only [Function.update_of_ne hkey] at hitems ⊢
    obtain ⟨x, hx, hstamp, hcounted⟩ := hI key' hitems
    have hsame : (s.abandonments ++ [key]).count key' = s.abandonments.count key' := by
      simp [List.count_append, Ne.symm hkey]
    exact ⟨x, hx, hstamp, hsame ▸ hcounted⟩

theorem stamped_step {l : Lbl} (hst : s.step cfg l = some s') (hI : s.Stamped h) :
    s'.Stamped (noteTouch s l h) := by
  cases l with
  | request r catalog =>
    obtain rfl := Option.some.inj hst
    exact stamped_request hI
  | runPass =>
    obtain rfl := Option.some.inj hst
    exact hI
  | tick d =>
    obtain rfl := Option.some.inj hst
    exact hI
  | key j key =>
    simp only [step] at hst
    split at hst
    · rename_i now hnow
      obtain rfl := Option.some.inj hst
      have hnote : noteTouch s (.key j key) h = h := rfl
      rw [hnote]
      by_cases hab : abandoned cfg now (s.redis key) = true
      · have hnone : (s.redis key).hget abandonmentCountedField = none := by
          simp only [abandoned, Bool.and_eq_true, Option.isNone_iff_eq_none] at hab
          exact hab.1.1.2
        simpa [passKey, hab] using stamped_count hI hnone
      · simpa [passKey, hab, Function.update_eq_self] using hI
    · cases hst

theorem stamped_run {ls : List Lbl} (hr : (lts cfg).Run noCarts ls s) : s.Stamped (lastTouch cfg ls) := by
  refine hr.history_induct (fun _ _ _ hst => hst) (fun _ _ _ _ hst hI => stamped_step hst hI) ?_
  intro key hitems
  cases hitems

/-! ## Which carts are counted -/

/-- A pass reads the clock, and goes on to a cart when that has become due in the meantime. -/
def dueMeanwhile : List Lbl :=
  [.request (.addItem "ada" ⟨"P001", 1, Int.one_pos⟩) (.ok 100), .tick (1799 * microseconds), .runPass,
    .tick microseconds]

/-- It is the clock of the pass that counts, not that of the moment: a cart that becomes due while a
pass is under way is left to the next one. -/
theorem not_counts_iff_clock :
    ¬ ∀ cfg s s' ls j key, (plainLts cfg).Run noCarts ls s → s.step cfg (.key j key) = some s' →
        (s'.abandonments = s.abandonments ++ [key] ↔ s.Due cfg ls s.clock key) := by
  obtain ⟨s, hr, hs⟩ : ∃ s, (plainLts {}).Run noCarts dueMeanwhile s ∧
      ((s.redis "cart:ada").hasItems && decide (s.clock = 1800 * microseconds) &&
        decide (s.abandonments = []) && decide (s.passes = [1799 * microseconds]) &&
        !abandoned {} (1799 * microseconds) (s.redis "cart:ada")) = true :=
    LTS.exists_run_of_execG dueMeanwhile (by decide +kernel)
  simp only [Bool.and_eq_true, decide_eq_true_eq, Bool.not_eq_true'] at hs
  obtain ⟨⟨⟨⟨hitems, hclock⟩, hnone⟩, hpasses⟩, hab⟩ := hs
  have htouch : lastTouch {} dueMeanwhile "cart:ada" = some ⟨0, 0⟩ := by decide +kernel
  have hst : s.step {} (.key 0 "cart:ada") = some s := by
    have hget : s.passes[0]? = some (1799 * microseconds) := by rw [hpasses]; rfl
    simp [step, hget, passKey, hab, Function.update_eq_self]
  intro h
  have hdue : s.Due {} dueMeanwhile s.clock "cart:ada" := by
    refine ⟨hitems, ⟨0, 0⟩, htouch, ?_, by rw [hnone]; rfl⟩
    rw [hclock]
    decide
  have := (h {} s s dueMeanwhile 0 "cart:ada" hr hst).mpr hdue
  rw [hnone] at this
  cases this

/-- **Exact counting.** The step of a pass counts a cart if and only if it has items, its last touch
was as old as the threshold when the pass began, and it has not been counted since; then it counts it once. -/
theorem counts_iff (cfg : Settings) {s s' : Atomic} {ls : List Lbl} {j now : Nat} {key : String}
    (hr : (lts cfg).Run noCarts ls s) (hnow : s.passes[j]? = some now)
    (hst : s.step cfg (.key j key) = some s') :
    (s'.abandonments = s.abandonments ++ [key] ↔ s.Due cfg ls now key) ∧
      (¬ s.Due cfg ls now key → s' = s) := by
  have hiff : abandoned cfg now (s.redis key) = true ↔ s.Due cfg ls now key := (stamped_run hr).abandoned_iff
  simp only [step, hnow, Option.some.injEq] at hst
  by_cases hab : abandoned cfg now (s.redis key) = true
  · have hdue := hiff.mp hab
    subst hst
    exact ⟨by simp [passKey, hab, hdue], fun hn => absurd hdue hn⟩
  · have hs : s' = s := by
      subst hst
      simp [passKey, hab, Function.update_eq_self]
    subst hs
    refine ⟨⟨fun he => ?_, fun hdue => absurd (hiff.mpr hdue) hab⟩, fun _ => rfl⟩
    exact absurd (congrArg List.length he) (by simp)

/-- Metadata taken out, a touch, and a pass. -/
def touchedAndDue : List Lbl :=
  [.request (.addItem "ada" ⟨"P001", 1, Int.one_pos⟩) (.ok 100), .tick microseconds,
    .request (.removeItem "ada" updatedAtField) (.ok 0), .tick (1800 * microseconds), .runPass]

/-- The pass meets the cart, and then meets it once more. -/
theorem counts_iff_metSecondTime :
    ∃ s s' s'', (lts {}).Run noCarts touchedAndDue s ∧ s.step {} (.key 0 "cart:ada") = some s' ∧
      s'.step {} (.key 0 "cart:ada") = some s'' ∧
      (s'.abandonments = s.abandonments ++ ["cart:ada"] ↔
        s.Due {} touchedAndDue (1801 * microseconds) "cart:ada") ∧
      s'.abandonments = ["cart:ada"] ∧ s'' = s' := by
  obtain ⟨s, hr, hs⟩ : ∃ s, (lts {}).Run noCarts touchedAndDue s ∧
      (decide (s.passes = [1801 * microseconds]) &&
        (s.step {} (.key 0 "cart:ada")).any fun s' => decide (s'.abandonments = ["cart:ada"]) &&
          decide (s'.passes = [1801 * microseconds]) &&
          (s'.step {} (.key 0 "cart:ada")).any fun s'' => decide (s''.abandonments = ["cart:ada"])) = true :=
    LTS.exists_run_of_exec touchedAndDue (by decide +kernel)
  simp only [Bool.and_eq_true, decide_eq_true_eq, Option.any_eq_true] at hs
  obtain ⟨hpasses, s', hst, ⟨hcounted, hpasses'⟩, s'', hst', hcounted'⟩ := hs
  have hnow : s.passes[0]? = some (1801 * microseconds) := by
    rw [hpasses]
    rfl
  have hnow' : s'.passes[0]? = some (1801 * microseconds) := by
    rw [hpasses']
    rfl
  obtain ⟨hiff, hsame⟩ := counts_iff {} (hr.snoc hst) hnow' hst'
  refine ⟨s, s', s'', hr, hst, hst', (counts_iff {} hr hnow hst).1, hcounted, hsame fun hdue => ?_⟩
  -- it would be there twice
  have htwice := hiff.mpr hdue
  rw [hcounted, hcounted'] at htwice
  cases htwice

end Atomic
end Gestalt.Cart
