import Gestalt.L2Stores.CartServer

/-!
# Active carts that are counted as abandoned

Status: open.

Behaviour: a request writes its item with one command and the time of it with a later
one (services/cart-service/app/routers/cart.py:50-51, redis_client.py:25), so a scan
that reads the cart in between sees a cart that has changed just now with the time of
its last change but one; a new cart has no time at all, which `run_pass` takes for
zero (abandonment.py:38). A write between the `HGETALL` and the flag comes too late to
be seen. And a `touch_cart` that is slow to write the time it has read moves the time
of the cart back behind writes that were made since.

Documented: abandonment.py:3-9, a cart counts that "has not been modified (no
add/remove/batch-remove call ...) for the threshold window"; NEXT_STEP_REQUIREMENTS.md
§1.3, "has not been modified ... for 30 minutes".

Counterexample: `firstAdd`, a scan between the two commands of the first `add_item` of
a cart. The `HDEL` of `touch_cart` may come before the `HSET` of the scan: then the
flag stays on the active cart, and when it is abandoned it is not counted.

Fix: item and time in one `HSET`, and the scan's reading and flag in one script.
-/
namespace Gestalt.Cart

/-- The command changes the items of the cart: it sets one, or takes out one that is there. -/
def Request.writesItems (e : Entry) : Request → Pc → Bool
  | .addItem _ body, .hset _ => decide (body.productId ∉ metaFields)
  | .removeItem _ p, .hdel => decide (p ∉ metaFields) && (e.hget p).isSome
  | .batchRemoveItems _ _, .hdelPresent present =>
    present.any fun p => decide (p ∉ metaFields) && (e.hget p).isSome
  | _, _ => false

/-- It has written to the cart, and `touch_cart` has not yet written the time of it. -/
def Pc.unstamped : Pc → Bool
  | .hkeys => true
  | .touch _ .time => true
  | .touch _ (.updatedAt _) => true
  | _ => false

/-- It has read the clock for `touch_cart` and not yet written what it has read. -/
def Pc.holdsTime : Pc → Bool
  | .touch _ (.updatedAt _) => true
  | _ => false

namespace Proc

def key (x : Proc) : String := cartKey x.call.userId

/-- The cart it has still to write the time of. -/
def unstamped (x : Proc) : Option String := if x.pc.unstamped = true then some x.key else none

end Proc

namespace System

/-- The cart whose items the step changes. -/
def writes (s : System) : Lbl → Option String
  | .next i _ =>
    match s.procs[i]? with
    | some x => if x.alive && x.call.writesItems (s.redis x.key) x.pc then some x.key else none
    | none => none
  | _ => none

/-- The time of the last write to the items of each cart. -/
def noteWrite (s : System) (l : Lbl) (h : String → Option Nat) : String → Option Nat :=
  match s.writes l with
  | some key => Function.update h key (some s.clock)
  | none => h

def lastWrite (cfg : Settings) (s : System) (ls : List Lbl) : String → Option Nat :=
  LTS.history (step cfg) noteWrite s (fun _ => none) ls

/-- Every scan that has counted a cart, and writes its flag next, does so when the last write to its
items is as old as the threshold. -/
def CountsIdle (cfg : Settings) (ls : List Lbl) (s : System) : Prop :=
  ∀ x ∈ s.scans, ∀ key t, x.alive = true → x.pc = .flag key → lastWrite cfg noCarts ls key = some t →
    t + cfg.cartAbandonmentThresholdSeconds * microseconds ≤ s.clock

/-- One scan; nothing dies, and no key expires. -/
def oneScan (s : System) : Lbl → Bool
  | .runPass => s.scans.isEmpty
  | .crash _ | .crashScan _ | .expire _ => false
  | _ => true

def oneScanLts (cfg : Settings) : LTS System Lbl := (freshLts cfg).restrict fun s l => oneScan s l = true

/-- A cart is read and counted only when every request that has written to it has also written the
time; and its items are changed neither between a scan's counting and flagging it, nor
between the reading and the writing of the time in another request's `touch_cart`. -/
def writesApart (cfg : Settings) (s : System) : Lbl → Bool
  | .next i catalog =>
    match s.writes (.next i catalog) with
    | some key =>
      (s.scans.all fun x => !(x.alive && decide (x.pc = .flag key))) &&
        s.procs.all fun y => !(y.alive && decide (y.key = key) && y.pc.holdsTime)
    | none => true
  | .nextKey j _ =>
    match s.scans[j]? with
    | some ⟨now, .hgetall key, true⟩ =>
      !abandoned cfg now (s.redis key) || s.procs.all fun y => decide (y.unstamped ≠ some key)
    | _ => true
  | _ => true

def apartLts (cfg : Settings) : LTS System Lbl :=
  (freshLts cfg).restrict fun s l => writesApart cfg s l = true

/-- What the time in a cart says of the writes to its items. -/
structure Stamps (cfg : Settings) (s : System) (h : String → Option Nat) : Prop where
  stamped : ∀ key t, (s.redis key).hasItems = true → h key = some t →
    (∃ x ∈ s.procs, x.unstamped = some key) ∨
      ∃ v, (s.redis key).hget updatedAtField = some v ∧ (t : Int) ≤ v.toTime
  /-- a time that is still to be written is no older than the last write -/
  held : ∀ x ∈ s.procs, ∀ next t u, x.alive = true → x.pc = .touch next (.updatedAt t) →
    h x.key = some u → u ≤ t
  flagged : ∀ x ∈ s.scans, ∀ key u, x.alive = true → x.pc = .flag key → h key = some u →
    u + cfg.cartAbandonmentThresholdSeconds * microseconds ≤ x.now
  past : ∀ key u, h key = some u → u ≤ s.clock
  started : ∀ x ∈ s.scans, x.now ≤ s.clock

end System

/-! ## What a command does to items and time -/

/-- After a step a cart with items is still to get its time, or gets it now, or has it as before and
its items are as before. -/
theorem Moves.stamped {cfg : Settings} {now : Nat} {e e' : Entry} {r : Request} {pc pc' : Pc}
    (h : Moves cfg now e r pc e' pc') (hitems : e'.hasItems = true) :
    pc'.unstamped = true ∨
      (∃ next t, pc = .touch next (.updatedAt t) ∧ e'.hget updatedAtField = some (.time t)) ∨
      (pc.unstamped = false ∧ r.writesItems e pc = false ∧ e.hasItems = true ∧
        e'.hget updatedAtField = e.hget updatedAtField) := by
  cases h with
  | refuse hpc =>
    right; right
    rcases hpc with rfl | ⟨_, rfl⟩ <;> exact ⟨rfl, rfl, hitems, rfl⟩
  | stock | read | cart | hmget => exact .inr (.inr ⟨rfl, rfl, hitems, rfl⟩)
  | write => exact .inl rfl
  | @touch r next pc =>
    cases pc with
    | time => exact .inl rfl
    | updatedAt t =>
      refine .inr (.inl ⟨next, t, rfl, ?_⟩)
      simp [TouchPc.step, Entry.hget_hset]
    | counted =>
      refine .inr (.inr ⟨rfl, by cases r <;> rfl, Entry.hasItems_of_hdel hitems, ?_⟩)
      rw [TouchPc.step, Entry.hget_hdel, if_neg (by decide)]
    | expire =>
      exact .inr (.inr ⟨rfl, by cases r <;> rfl, Entry.hasItems_of_expire hitems, Entry.hget_expire ..⟩)
  | hdel => exact .inl rfl
  | hkeys =>
    left
    rw [if_pos hitems]
    rfl
  | hdelPresent => exact .inl rfl

/-- The time a request holds is the one it has just read, or was its own already. -/
theorem Moves.held {cfg : Settings} {now : Nat} {e e' : Entry} {r : Request} {pc : Pc}
    {next : Option Answer} {t : Nat} (h : Moves cfg now e r pc e' (.touch next (.updatedAt t))) :
    t = now := by
  generalize hpc' : Pc.touch next (.updatedAt t) = pc' at h
  cases h with
  | refuse | stock | read | write | cart | hdel | hdelPresent => cases hpc'
  | hkeys => split at hpc' <;> cases hpc'
  | hmget => split at hpc' <;> cases hpc'
  | @touch r next pc =>
    cases pc with
    | time =>
      cases hpc'
      rfl
    | updatedAt | counted => cases hpc'
    | expire => cases next <;> cases hpc'

namespace System

variable {cfg : Settings} {s s' : System} {h : String → Option Nat}

theorem noteWrite_of_none {l : Lbl} (hl : s.writes l = none) : noteWrite s l h = h := by
  unfold noteWrite
  rw [hl]

theorem noteWrite_of_some {l : Lbl} {key : String} (hl : s.writes l = some key) :
    noteWrite s l h = Function.update h key (some s.clock) := by
  unfold noteWrite
  rw [hl]

theorem writes_next {i : Nat} {catalog : Except AppError Int} {x : Proc} (hx : s.procs[i]? = some x)
    (ha : x.alive = true) :
    s.writes (.next i catalog) =
      if x.call.writesItems (s.redis x.key) x.pc = true then some x.key else none := by
  simp [writes, hx, ha]

theorem noteWrite_le {l : Lbl} (hp : ∀ key u, h key = some u → u ≤ s.clock) {key : String} {u : Nat}
    (hu : noteWrite s l h key = some u) : u ≤ s.clock := by
  cases hl : s.writes l with
  | none =>
    rw [noteWrite_of_none hl] at hu
    exact hp key u hu
  | some k =>
    rw [noteWrite_of_some hl] at hu
    by_cases hkey : key = k
    · subst hkey
      rw [Function.update_self, Option.some.injEq] at hu
      omega
    · rw [Function.update_of_ne hkey] at hu
      exact hp key u hu

/-- Where the step writes nothing to this cart, its last write is as before. -/
theorem noteWrite_ne {l : Lbl} {key : String} (hl : s.writes l ≠ some key) :
    noteWrite s l h key = h key := by
  cases hw : s.writes l with
  | none => rw [noteWrite_of_none hw]
  | some k =>
    rw [noteWrite_of_some hw, Function.update_of_ne]
    rintro rfl
    exact hl hw

/-- A step that writes to a cart finds no scan about to flag it, and no request with a time for it. -/
theorem apart_of_writes {i : Nat} {catalog : Except AppError Int} {key : String}
    (hG : writesApart cfg s (.next i catalog) = true) (hw : s.writes (.next i catalog) = some key) :
    (∀ x ∈ s.scans, x.alive = true → x.pc ≠ .flag key) ∧
      ∀ y ∈ s.procs, y.alive = true → y.key = key → y.pc.holdsTime = false := by
  simp only [writesApart, hw, Bool.and_eq_true, List.all_eq_true] at hG
  refine ⟨fun x hx ha hpc => ?_, fun y hy ha hkey => ?_⟩
  · have := hG.1 x hx
    simp [ha, hpc] at this
  · have := hG.2 y hy
    simpa [ha, hkey] using this

/-! ## What the steps keep -/

theorem stamps_next {i : Nat} {catalog : Except AppError Int} {x : Proc} {e' : Entry} {pc' : Pc}
    (hI : s.Stamps cfg h) (hx : s.procs[i]? = some x) (ha : x.alive = true)
    (hm : Moves cfg s.clock (s.redis x.key) x.call x.pc e' pc')
    (hG : writesApart cfg s (.next i catalog) = true) :
    Stamps cfg { s with
      redis := Function.update s.redis x.key e'
      procs := s.procs.set i { x with pc := pc' } } (noteWrite s (.next i catalog) h) := by
  have hw : s.writes (.next i catalog) = _ := writes_next hx ha
  constructor
  · intro key t hitems ht
    by_cases hkey : key = x.key
    · subst hkey
      simp only [Function.update_self] at hitems ⊢
      rcases hm.stamped hitems with hpc' | ⟨next, t', hpc, hstamp⟩ | ⟨hpc, hnw, hitems', hstamp⟩
      · exact .inl ⟨_, List.mem_of_getElem? (Procs.set_self hx), by simp [Proc.unstamped, hpc', Proc.key]⟩
      · -- it writes the time it holds
        have hnw : s.writes (.next i catalog) ≠ some x.key := by
          rw [hw, hpc]
          cases x.call <;> simp [Request.writesItems]
        rw [noteWrite_ne hnw] at ht
        have := hI.held x (List.mem_of_getElem? hx) next t' t ha hpc ht
        exact .inr ⟨.time t', hstamp, by simpa [Value.toTime] using this⟩
      · rw [noteWrite_ne (by simp [hw, hnw])] at ht
        rw [hstamp]
        refine (hI.stamped x.key t hitems' ht).imp_left (Procs.holder_kept hx ?_)
        simp [Proc.unstamped, hpc]
    · have hnw : s.writes (.next i catalog) ≠ some key := by
        rw [hw]
        split
        · exact fun he => hkey (Option.some.inj he).symm
        · simp
      rw [noteWrite_ne hnw] at ht
      simp only [Function.update_of_ne hkey] at hitems ⊢
      refine (hI.stamped key t hitems ht).imp_left (Procs.holder_kept hx ?_)
      unfold Proc.unstamped
      split
      · exact fun he => hkey (Option.some.inj he).symm
      · simp
  · intro y hy next t u hya hpc hu
    obtain ⟨j, hj⟩ := List.mem_iff_getElem?.mp hy
    rcases Procs.set_cases hx hj with ⟨-, rfl⟩ | ⟨-, hj⟩
    · -- it has just read the clock
      obtain rfl : pc' = .touch next (.updatedAt t) := hpc
      obtain rfl := hm.held
      exact noteWrite_le hI.past hu
    · have hy' := List.mem_of_getElem? hj
      have hnw : s.writes (.next i catalog) ≠ some y.key := by
        intro hyw
        have := (apart_of_writes hG hyw).2 y hy' hya rfl
        rw [hpc] at this
        cases this
      rw [noteWrite_ne hnw] at hu
      exact hI.held y hy' next t u hya hpc hu
  · intro y hy key u hya hpc hu
    have hnw : s.writes (.next i catalog) ≠ some key := fun hyw => (apart_of_writes hG hyw).1 y hy hya hpc
    rw [noteWrite_ne hnw] at hu
    exact hI.flagged y hy key u hya hpc hu
  · exact fun key u hu => noteWrite_le hI.past hu
  · exact hI.started

/-- A cart the scan counts was last written to before the threshold. -/
theorem idle_of_abandoned {x : Scan} {j : Nat} {next : Option String} {key : String} {u : Nat}
    (hI : s.Stamps cfg h) (hx : s.scans[j]? = some x) (ha : x.alive = true) (hpc : x.pc = .hgetall key)
    (hab : abandoned cfg x.now (s.redis key) = true) (hG : writesApart cfg s (.nextKey j next) = true)
    (hu : h key = some u) : u + cfg.cartAbandonmentThresholdSeconds * microseconds ≤ x.now := by
  have hnone : ∀ y ∈ s.procs, y.unstamped ≠ some key := by
    obtain ⟨now, pc, alive⟩ := x
    obtain rfl : pc = .hgetall key := hpc
    obtain rfl : alive = true := ha
    simp only [writesApart, hx, hab, Bool.not_true, Bool.false_or, List.all_eq_true,
      decide_eq_true_eq] at hG
    exact hG
  simp only [abandoned, Bool.and_eq_true, decide_eq_true_eq] at hab
  obtain ⟨⟨-, hitems⟩, hage⟩ := hab
  rcases hI.stamped key u hitems hu with ⟨y, hy, hk⟩ | ⟨v, hv, hle⟩
  · exact absurd hk (hnone y hy)
  · rw [hv, Option.map_some, Option.getD_some] at hage
    have : (u : Int) + (cfg.cartAbandonmentThresholdSeconds * microseconds : Int) ≤ x.now := by omega
    exact_mod_cast this

/-- A scan goes on; what it is about to flag is idle. -/
theorem stamps_scan {j : Nat} {x y : Scan} {counted : List String} (hI : s.Stamps cfg h)
    (hx : s.scans[j]? = some x) (hnow : y.now = x.now)
    (hflag : ∀ key u, y.alive = true → y.pc = .flag key → h key = some u →
      u + cfg.cartAbandonmentThresholdSeconds * microseconds ≤ x.now) :
    Stamps cfg { s with abandonments := counted, scans := s.scans.set j y } h := by
  refine ⟨hI.stamped, hI.held, fun z hz key u ha hpc hu => ?_, hI.past, fun z hz => ?_⟩ <;>
    obtain ⟨i, hi⟩ := List.mem_iff_getElem?.mp hz <;>
    rcases Procs.set_cases hx hi with ⟨-, rfl⟩ | ⟨-, hi⟩
  · rw [hnow]
    exact hflag key u ha hpc hu
  · exact hI.flagged z (List.mem_of_getElem? hi) key u ha hpc hu
  · rw [hnow]
    exact hI.started x (List.mem_of_getElem? hx)
  · exact hI.started z (List.mem_of_getElem? hi)

theorem stamps_step {l : Lbl} (hst : s.step cfg l = some s') (hG : writesApart cfg s l = true)
    (hI : s.Stamps cfg h) : s'.Stamps cfg (noteWrite s l h) := by
  cases steps_of_step hst with
  | next hx ha hm => exact stamps_next hI hx ha hm hG
  | call r =>
    refine ⟨fun key t hitems ht => ?_, fun x hx next t u ha hpc hu => ?_, hI.flagged, hI.past, hI.started⟩
    · refine (hI.stamped key t hitems ht).imp_left ?_
      rintro ⟨x, hx, hk⟩
      exact ⟨x, List.mem_append_left _ hx, hk⟩
    · rcases List.mem_append.mp hx with hx | hx
      · exact hI.held x hx next t u ha hpc hu
      · obtain rfl := List.mem_singleton.mp hx
        cases r <;> cases hpc
  | @crash i x hx =>
    refine ⟨fun key t hitems ht => ?_, fun y hy next t u ha hpc hu => ?_, hI.flagged, hI.past, hI.started⟩
    · exact (hI.stamped key t hitems ht).imp_left (Procs.holder_set hx id)
    · obtain ⟨j, hj⟩ := List.mem_iff_getElem?.mp hy
      rcases Procs.set_cases hx hj with ⟨-, rfl⟩ | ⟨-, hj⟩
      · cases ha
      · exact hI.held y (List.mem_of_getElem? hj) next t u ha hpc hu
  | runPass =>
    refine ⟨hI.stamped, hI.held, fun x hx key u ha hpc hu => ?_, hI.past, fun x hx => ?_⟩ <;>
      rcases List.mem_append.mp hx with hx | hx
    · exact hI.flagged x hx key u ha hpc hu
    · obtain rfl := List.mem_singleton.mp hx
      cases hpc
    · exact hI.started x hx
    · obtain rfl := List.mem_singleton.mp hx
      exact Nat.le_refl _
  | @scan j next x hx ha hpc =>
    exact stamps_scan hI hx rfl fun key u _ hflag _ => by cases next <;> cases hflag
  | @pass j next x k hx ha hpc hab => exact stamps_scan hI hx rfl fun key u _ hflag _ => by cases hflag
  | @count j next x k hx ha hpc hab =>
    refine stamps_scan hI hx rfl fun key u _ hflag hu => ?_
    cases hflag
    exact idle_of_abandoned hI hx ha hpc hab hG hu
  | @flag j next x k hx ha hpc =>
    have hscan : Stamps cfg { s with scans := s.scans.set j { x with pc := .scan } } h :=
      stamps_scan hI hx rfl fun key u _ hflag _ => by cases hflag
    refine ⟨fun key t hitems ht => ?_, hscan.held, hscan.flagged, hscan.past, hscan.started⟩
    by_cases hkey : key = k
    · subst hkey
      simp only [Function.update_self] at hitems ⊢
      rw [Entry.updatedAt_flag]
      exact hI.stamped key t (Entry.hasItems_of_flag hitems) ht
    · simp only [Function.update_of_ne hkey] at hitems ⊢
      exact hI.stamped key t hitems ht
  | @crashScan j x hx => exact stamps_scan hI hx rfl fun key u ha _ _ => by cases ha
  | @expire key t ht hdue =>
    refine ⟨fun key' t' hitems ht' => ?_, hI.held, hI.flagged, hI.past, hI.started⟩
    by_cases hkey : key' = key
    · subst hkey
      simp [Entry.hasItems, Entry.hkeys, Entry.empty] at hitems
    · simp only [Function.update_of_ne hkey] at hitems ⊢
      exact hI.stamped key' t' hitems ht'
  | tick d =>
    refine ⟨hI.stamped, hI.held, hI.flagged, fun key u hu => ?_, fun x hx => ?_⟩
    · exact Nat.le_add_right_of_le (hI.past key u hu)
    · exact Nat.le_add_right_of_le (hI.started x hx)

theorem stamps_noCarts : noCarts.Stamps cfg fun _ => none := by
  constructor
  · intro key t hitems
    cases hitems
  · intro x hx
    cases hx
  · intro x hx
    cases hx
  · intro key u hu
    cases hu
  · intro x hx
    cases hx

theorem stamps_run {ls : List Lbl} (hr : (apartLts cfg).Run noCarts ls s) :
    s.Stamps cfg (lastWrite cfg noCarts ls) := by
  refine hr.history_induct ?_ ?_ stamps_noCarts
  · intro s l s' hst
    exact hst.1
  · intro s l s' h hst hI
    exact stamps_step hst.1 hst.2 hI

/-! ## The run that goes wrong -/

def addPen : Request := .addItem "ada" ⟨"P001", 1, Int.one_pos⟩

/-- A scan reads the cart after the first `HSET` of its first `add_item`. -/
def firstAdd : List Lbl :=
  [.tick (1800 * microseconds), .call addPen] ++ List.replicate 3 (.next 0 (.ok 100)) ++
    [.runPass, .nextKey 0 (some "cart:ada"), .nextKey 0 none]

/-- **Counterexample.** The new cart is counted the moment it is written to. -/
theorem active_cart_counted :
    ¬ ∀ cfg s ls, (oneScanLts cfg).Run noCarts ls s → CountsIdle cfg ls s := by
  obtain ⟨s, hr, hs⟩ : ∃ s, (oneScanLts {}).Run noCarts firstAdd s ∧
      (decide (s.scans = [⟨1800 * microseconds, .flag "cart:ada", true⟩]) &&
        decide (s.clock = 1800 * microseconds)) = true :=
    LTS.exists_run_of_execG firstAdd (by decide +kernel)
  simp only [Bool.and_eq_true, decide_eq_true_eq] at hs
  have hwritten : lastWrite {} noCarts firstAdd "cart:ada" = some (1800 * microseconds) := by
    decide +kernel
  intro h
  have hidle := h {} s firstAdd hr ⟨1800 * microseconds, .flag "cart:ada", true⟩
    (by simp [hs.1]) "cart:ada" _ rfl rfl hwritten
  rw [hs.2] at hidle
  exact absurd hidle (by decide)

/-- **Only idle carts are counted**, in every run whose writes and scans keep apart. -/
theorem counted_carts_idle (cfg : Settings) {s : System} {ls : List Lbl}
    (hr : (apartLts cfg).Run noCarts ls s) : CountsIdle cfg ls s := by
  intro x hx key t ha hpc ht
  have hI := stamps_run hr
  exact Nat.le_trans (hI.flagged x hx key t ha hpc ht) (hI.started x hx)

/-- Ada's cart is counted half an hour after her request, while another request of hers is on its
way and one of Bob's writes. -/
def halfAnHour : List Lbl :=
  [.call addPen] ++ List.replicate 8 (.next 0 (.ok 100)) ++
    [.tick (1800 * microseconds), .call addPen, .call (.addItem "bob" ⟨"P001", 1, Int.one_pos⟩)] ++
    List.replicate 3 (.next 2 (.ok 100)) ++
    [.runPass, .nextKey 0 (some "cart:ada"), .next 1 (.ok 100), .nextKey 0 none]

theorem counted_carts_idle_halfAnHour :
    ∃ s, (apartLts {}).Run noCarts halfAnHour s ∧
      s.scans = [⟨1800 * microseconds, .flag "cart:ada", true⟩] ∧ CountsIdle {} halfAnHour s := by
  obtain ⟨s, hr, hs⟩ : ∃ s, (apartLts {}).Run noCarts halfAnHour s ∧
      decide (s.scans = [⟨1800 * microseconds, .flag "cart:ada", true⟩]) = true :=
    LTS.exists_run_of_execG halfAnHour (by decide +kernel)
  exact ⟨s, hr, of_decide_eq_true hs, counted_carts_idle {} hr⟩

end System
end Gestalt.Cart
