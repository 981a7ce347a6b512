import Gestalt.Core.LTS
import Gestalt.L4Checkout.Steps

/-!
# One order per idempotency key

Two guards keep a key to one order: the early SELECT, and the INSERT, which
waits for any open transaction on its key and fails if a committed row has it.
`Keys` is what they add up to, over the committed rows and the runs:

* ids and keys are unique among committed rows, and an open INSERT shares
  neither with a committed row nor with another open INSERT;
* each committed row belongs to one run, the one that inserted it, and each run
  past its commit owns one row, with its own key, user and line items.

It holds whatever crashes, is lost or is reconciled, since nothing but a run's
commit adds a row and nothing changes a row's `core` columns (`keys_step`).
`Issues` adds that a run makes calls only once it owns a row, so one run per
key makes any.
-/
namespace Gestalt.Checkout

open Gestalt.Orders (Db Order OrderItem OrderOut Line Core cores linesOf)

variable {cfg : Config} {cat : Catalog.Products} {s s' : Sys}

/-! ## The invariant -/

/-- What a run shows of the row it owns. -/
def Pc.Shows (c : Core) : Pc → Prop
  | .ended _ (.announce order) => order.core = c
  | .ended _ (.clear order) => order.core = c
  | .ended _ (.done out) => out.id = c.id ∧ out.userId = c.userId
  | _ => True

/-- The run inserted the order `oid`. -/
def Owns (db : Db) (g : Saga) (oid : String) (pc : Pc) : Prop :=
  ∃ c ∈ cores db, c.id = oid ∧ c.idempotencyKey = g.key ∧ c.userId = g.req.userId ∧
    linesOf db oid = g.rawItems ∧ pc.Shows c

/-- The line items have been resolved. -/
def Phase.resolved : Phase → Bool
  | .price _ _ => true
  | .commit _ => true
  | .saga _ _ => true
  | _ => false

structure SagaOk (db : Db) (g : Saga) : Prop where
  /-- an open INSERT is of the run's key and user, PENDING, and new -/
  lock : ∀ order, g.phase = .commit order → g.alive = true → order.userId = g.req.userId ∧
    order.idempotencyKey = g.key ∧ (order.status = .pending ∧ order.stockReserved = false) ∧
    ∀ c ∈ cores db, c.id ≠ order.id ∧ c.idempotencyKey ≠ g.key
  reply : ∀ out, g.phase = .replied (.ok out) →
    ∃ c ∈ cores db, c.idempotencyKey = g.key ∧ c.id = out.id ∧ c.userId = out.userId
  own : ∀ oid pc, g.phase = .saga oid pc → Owns db g oid pc
  lines : g.phase.resolved = true → g.req.lines ≠ [] → g.rawItems = g.req.lines

structure Keys (db : Db) (sagas : List Saga) : Prop where
  ids : Table.Unique Core.id (cores db)
  keys : Table.Unique Core.idempotencyKey (cores db)
  items : ∀ it ∈ db.items, ∃ c ∈ cores db, c.id = it.orderId
  saga : ∀ (i : Nat) (g : Saga), sagas[i]? = some g → SagaOk db g
  /-- two open INSERTs share neither id nor key -/
  excl : ∀ (i j : Nat) (g h : Saga) (o o' : Order), sagas[i]? = some g → sagas[j]? = some h →
    g.phase = .commit o → h.phase = .commit o' → g.alive = true → h.alive = true →
    o.id = o'.id ∨ o.idempotencyKey = o'.idempotencyKey → i = j
  /-- no two runs own the same order -/
  one : ∀ (i j : Nat) (g h : Saga) (oid : String) (pc pc' : Pc), sagas[i]? = some g →
    sagas[j]? = some h → g.phase = .saga oid pc → h.phase = .saga oid pc' → i = j
  owner : ∀ c ∈ cores db, ∃ (i : Nat) (g : Saga) (pc : Pc), sagas[i]? = some g ∧ g.phase = .saga c.id pc

/-- A run before its commit, without an open INSERT. -/
theorem SagaOk.plain {db : Db} {g : Saga} (hc : ∀ o, g.phase ≠ .commit o)
    (hr : ∀ out, g.phase ≠ .replied (.ok out)) (hs : ∀ oid pc, g.phase ≠ .saga oid pc)
    (hl : g.phase.resolved = true → g.req.lines ≠ [] → g.rawItems = g.req.lines) : SagaOk db g where
  lock o hp := absurd hp (hc o)
  reply out hp := absurd hp (hr out)
  own oid pc hp := absurd hp (hs oid pc)
  lines := hl

theorem keys_init : Keys ⟨[], []⟩ [] := by
  constructor <;> simp [cores, Table.Unique]

/-! ## What keeps it -/

theorem SagaOk.frame {db db' : Db} {g : Saga} (h : SagaOk db g) (hc : cores db' = cores db)
    (hi : db'.items = db.items) : SagaOk db' g where
  lock := by rw [hc]; exact h.lock
  reply := by rw [hc]; exact h.reply
  own oid pc hp := by
    unfold Owns
    rw [hc, Orders.linesOf_congr hi]
    exact h.own oid pc hp
  lines := h.lines

/-- An UPDATE keeps it: it changes no `core` column and no item. -/
theorem Keys.frame {db db' : Db} {sagas : List Saga} (K : Keys db sagas) (hc : cores db' = cores db)
    (hi : db'.items = db.items) : Keys db' sagas where
  ids := by rw [hc]; exact K.ids
  keys := by rw [hc]; exact K.keys
  items := by rw [hc, hi]; exact K.items
  saga i g hg := (K.saga i g hg).frame hc hi
  excl := K.excl
  one := K.one
  owner := by rw [hc]; exact K.owner

/-- A run moves on without a commit of its INSERT. -/
theorem Keys.set {db : Db} {sagas : List Saga} (K : Keys db sagas) {i : Nat} {g g' : Saga}
    (hg : sagas[i]? = some g) (hok : SagaOk db g')
    (hlock : ∀ o, g'.phase = .commit o → g'.alive = true → ∀ (j : Nat) (h : Saga) (o' : Order),
      j ≠ i → sagas[j]? = some h → h.phase = .commit o' → h.alive = true →
      o'.id ≠ o.id ∧ o'.idempotencyKey ≠ o.idempotencyKey)
    (hown : ∀ oid, (∃ pc, g'.phase = .saga oid pc) ↔ ∃ pc, g.phase = .saga oid pc) :
    Keys db (sagas.set i g') := by
  have owned : ∀ (j : Nat) (h : Saga) (oid : String) (pc : Pc), (sagas.set i g')[j]? = some h →
      h.phase = .saga oid pc → ∃ h0 pc0, sagas[j]? = some h0 ∧ h0.phase = .saga oid pc0 := by
    intro j h oid pc hj hp
    rcases Procs.set_cases hg hj with ⟨rfl, rfl⟩ | ⟨-, hj⟩
    · obtain ⟨pc0, h0⟩ := (hown oid).mp ⟨pc, hp⟩
      exact ⟨g, pc0, hg, h0⟩
    · exact ⟨h, pc, hj, hp⟩
  refine ⟨K.ids, K.keys, K.items, ?_, ?_, ?_, ?_⟩
  · intro j h hj
    rcases Procs.set_cases hg hj with ⟨-, rfl⟩ | ⟨-, hj⟩
    · exact hok
    · exact K.saga j h hj
  · intro j k h h' o o' hj hk hp hp' ha ha' he
    rcases Procs.set_cases hg hj with ⟨rfl, rfl⟩ | ⟨hne, hj'⟩
    · rcases Procs.set_cases hg hk with ⟨rfl, -⟩ | ⟨hne, hk'⟩
      · rfl
      · have hno := hlock o hp ha k h' o' hne hk' hp' ha'
        exact absurd he (by rintro (he | he) <;> simp_all)
    · rcases Procs.set_cases hg hk with ⟨rfl, rfl⟩ | ⟨-, hk'⟩
      · have hno := hlock o' hp' ha' j h o hne hj' hp ha
        exact absurd he (by rintro (he | he) <;> simp_all)
      · exact K.excl j k h h' o o' hj' hk' hp hp' ha ha' he
  · intro j k h h' oid pc pc' hj hk hp hp'
    obtain ⟨h0, pc0, hj0, hp0⟩ := owned j h oid pc hj hp
    obtain ⟨h1, pc1, hk1, hp1⟩ := owned k h' oid pc' hk hp'
    exact K.one j k h0 h1 oid pc0 pc1 hj0 hk1 hp0 hp1
  · intro c hc
    obtain ⟨j, h, pc, hj, hp⟩ := K.owner c hc
    by_cases he : j = i
    · subst he
      rw [hg, Option.some.injEq] at hj; subst hj
      obtain ⟨pc', hp'⟩ := (hown c.id).mpr ⟨pc, hp⟩
      exact ⟨j, g', pc', Procs.set_self hg, hp'⟩
    · exact ⟨j, h, pc, by rw [List.getElem?_set_ne (Ne.symm he)]; exact hj, hp⟩

/-- An id no row has has no items. -/
theorem Keys.no_lines {db : Db} {sagas : List Saga} (K : Keys db sagas) {oid : String}
    (h : ∀ c ∈ cores db, c.id ≠ oid) : linesOf db oid = [] := by
  have hno : ∀ it ∈ db.items, it.orderId ≠ oid := by
    intro it hit he
    obtain ⟨c, hc, hcid⟩ := K.items it hit
    exact h c hc (hcid.trans he)
  unfold linesOf Orders.loadItems
  rw [List.filter_eq_nil_iff.mpr (by simpa using hno)]
  rfl

/-- The row of a run has the run's key. -/
theorem Keys.key {db : Db} {sagas : List Saga} (K : Keys db sagas) {i : Nat} {g : Saga} {oid : String}
    {pc : Pc} (hg : sagas[i]? = some g) (hp : g.phase = .saga oid pc) {c : Core} (hc : c ∈ cores db)
    (hid : c.id = oid) : c.idempotencyKey = g.key := by
  obtain ⟨d, hd, hdid, hdk, -⟩ := (K.saga i g hg).own oid pc hp
  rw [K.ids.eq hc hd (hid.trans hdid.symm), hdk]

/-- An order has one run. -/
theorem Keys.run_eq {db : Db} {sagas : List Saga} (K : Keys db sagas) {i j : Nat} {g h : Saga}
    {oid : String} {pc pc' : Pc} (hg : sagas[i]? = some g) (hh : sagas[j]? = some h)
    (hp : g.phase = .saga oid pc) (hp' : h.phase = .saga oid pc') : i = j ∧ g = h ∧ pc = pc' := by
  have hij := K.one i j g h oid pc pc' hg hh hp hp'
  subst hij
  rw [hg, Option.some.injEq] at hh; subst hh
  rw [hp, Phase.saga.injEq] at hp'
  exact ⟨rfl, rfl, hp'.2⟩

/-- So has a key, among the runs that own an order. -/
theorem Keys.run_eq_of_key {db : Db} {sagas : List Saga} (K : Keys db sagas) {i j : Nat} {g h : Saga}
    {oid oid' : String} {pc pc' : Pc} (hg : sagas[i]? = some g) (hh : sagas[j]? = some h)
    (hp : g.phase = .saga oid pc) (hp' : h.phase = .saga oid' pc') (hk : g.key = h.key) :
    i = j ∧ g = h ∧ pc = pc' := by
  obtain ⟨c, hc, hid, hck, -⟩ := (K.saga i g hg).own oid pc hp
  obtain ⟨d, hd, hid', hdk, -⟩ := (K.saga j h hh).own oid' pc' hp'
  have hcd : c = d := K.keys.eq hc hd (by rw [hck, hdk, hk])
  have ho : oid = oid' := by rw [← hid, ← hid', hcd]
  subst ho
  exact K.run_eq hg hh hp hp'

/-- Another run, as a new row and its items are inserted. -/
theorem SagaOk.insert {db : Db} {g : Saga} {o : Order} {lines : List Line} (h : SagaOk db g)
    (hnew : ∀ c ∈ cores db, c.id ≠ o.id) (hlock : ∀ o', g.phase = .commit o' → g.alive = true →
      o'.id ≠ o.id ∧ o'.idempotencyKey ≠ o.idempotencyKey) : SagaOk (Orders.insert db o lines) g := by
  have hlines : ∀ x, x ≠ o.id → linesOf (Orders.insert db o lines) x = linesOf db x := by
    intro x hx
    rw [Orders.linesOf_insert, if_neg (Ne.symm hx), List.append_nil]
  refine ⟨?_, ?_, ?_, h.lines⟩
  · intro o' ho' ha'
    obtain ⟨hu, hk, hpend, hold⟩ := h.lock o' ho' ha'
    refine ⟨hu, hk, hpend, fun c hc => ?_⟩
    rw [Orders.cores_insert, List.mem_append, List.mem_singleton] at hc
    rcases hc with hc | rfl
    · exact hold c hc
    · obtain ⟨h1, h2⟩ := hlock o' ho' ha'
      exact ⟨h1.symm, fun he => h2 (hk.trans he.symm)⟩
  · intro out hout
    obtain ⟨c, hc, hrest⟩ := h.reply out hout
    exact ⟨c, by rw [Orders.cores_insert]; exact List.mem_append_left _ hc, hrest⟩
  · intro oid pc hpc
    obtain ⟨c, hc, hid, hrest⟩ := h.own oid pc hpc
    have hne : oid ≠ o.id := fun he => hnew c hc (hid.trans he)
    refine ⟨c, by rw [Orders.cores_insert]; exact List.mem_append_left _ hc, hid, ?_⟩
    rw [hlines oid hne]; exact hrest

/-- A run commits its INSERT. -/
theorem Keys.insert {db : Db} {sagas : List Saga} (K : Keys db sagas) {i : Nat} {g : Saga} {o : Order}
    (hg : sagas[i]? = some g) (hp : g.phase = .commit o) (hal : g.alive = true) :
    Keys (Orders.insert db o g.rawItems) (sagas.set i { g with phase := .saga o.id .created }) := by
  have hi := K.saga i g hg
  obtain ⟨hu, hk, -, hnew⟩ := hi.lock o hp hal
  have hmine : linesOf (Orders.insert db o g.rawItems) o.id = g.rawItems := by
    rw [Orders.linesOf_insert, if_pos rfl, K.no_lines fun c hc => (hnew c hc).1, List.nil_append]
  have hothers : ∀ (j : Nat) (h : Saga), j ≠ i → sagas[j]? = some h →
      SagaOk (Orders.insert db o g.rawItems) h := by
    intro j h hne hj
    refine (K.saga j h hj).insert (fun c hc => (hnew c hc).1) fun o' ho' ha' => ⟨fun he => hne ?_, fun he => hne ?_⟩
    · exact K.excl j i h g o' o hj hg ho' hp ha' hal (.inl he)
    · exact K.excl j i h g o' o hj hg ho' hp ha' hal (.inr he)
  refine ⟨?_, ?_, ?_, ?_, ?_, ?_, ?_⟩
  · rw [Orders.cores_insert]
    exact K.ids.append_one fun c hc => (hnew c hc).1
  · rw [Orders.cores_insert]
    refine K.keys.append_one fun c hc he => (hnew c hc).2 ?_
    rw [he]; exact hk
  · intro it hit
    simp only [Orders.cores_insert, List.mem_append, List.mem_singleton]
    rcases List.mem_append.mp hit with hit | hit
    · obtain ⟨c, hc, hcid⟩ := K.items it hit
      exact ⟨c, .inl hc, hcid⟩
    · obtain ⟨l, -, rfl⟩ := List.mem_map.mp hit
      exact ⟨o.core, .inr rfl, rfl⟩
  · intro j h hj
    rcases Procs.set_cases hg hj with ⟨-, rfl⟩ | ⟨hne, hj⟩
    · refine ⟨?_, ?_, ?_, ?_⟩
      · intro o' ho'; cases ho'
      · intro out hout; cases hout
      · intro oid pc hpc
        cases hpc
        exact ⟨o.core, by simp, rfl, hk, hu, hmine, trivial⟩
      · intro _ hl; exact hi.lines (by rw [hp]; rfl) hl
    · exact hothers j h hne hj
  · intro j k h h' o1 o2 hj hk' hp1 hp2 ha ha' he
    rcases Procs.set_cases hg hj with ⟨-, rfl⟩ | ⟨-, hj⟩
    · cases hp1
    · rcases Procs.set_cases hg hk' with ⟨-, rfl⟩ | ⟨-, hk'⟩
      · cases hp2
      · exact K.excl j k h h' o1 o2 hj hk' hp1 hp2 ha ha' he
  · -- nobody owned a row of the new id
    have hfree : ∀ (j : Nat) (h : Saga) (pc : Pc), sagas[j]? = some h → h.phase ≠ .saga o.id pc := by
      intro j h pc hj hpc
      obtain ⟨c, hc, hid, -⟩ := (K.saga j h hj).own o.id pc hpc
      exact (hnew c hc).1 hid
    intro j k h h' oid pc pc' hj hk' hp1 hp2
    rcases Procs.set_cases hg hj with ⟨rfl, rfl⟩ | ⟨-, hj0⟩
    · rcases Procs.set_cases hg hk' with ⟨rfl, -⟩ | ⟨-, hk0⟩
      · rfl
      · cases hp1; exact absurd hp2 (hfree k h' pc' hk0)
    · rcases Procs.set_cases hg hk' with ⟨rfl, rfl⟩ | ⟨-, hk0⟩
      · cases hp2; exact absurd hp1 (hfree j h pc hj0)
      · exact K.one j k h h' oid pc pc' hj0 hk0 hp1 hp2
  · intro c hc
    rw [Orders.cores_insert, List.mem_append, List.mem_singleton] at hc
    rcases hc with hc | rfl
    · obtain ⟨j, h, pc, hj, hpc⟩ := K.owner c hc
      have hne : i ≠ j := by
        intro he
        subst he
        rw [hg, Option.some.injEq] at hj; subst hj
        rw [hp] at hpc; cases hpc
      exact ⟨j, h, pc, by rw [List.getElem?_set_ne hne]; exact hj, hpc⟩
    · exact ⟨i, _, .created, Procs.set_self hg, rfl⟩

theorem Keys.spawn {db : Db} {sagas : List Saga} (K : Keys db sagas) (r : Req) :
    Keys db (sagas ++ [{ req := r }]) := by
  have fresh : ∀ (j : Nat) (h : Saga), (sagas ++ [{ req := r }])[j]? = some h →
      sagas[j]? = some h ∨ h.phase = .lookup := by
    intro j h hj
    rcases Procs.spawn_cases hj with hj | ⟨-, rfl⟩
    · exact .inl hj
    · exact .inr rfl
  refine ⟨K.ids, K.keys, K.items, ?_, ?_, ?_, ?_⟩
  · intro j h hj
    rcases Procs.spawn_cases hj with hj | ⟨-, rfl⟩
    · exact K.saga j h hj
    · exact .plain (by simp) (by simp) (by simp) (by simp [Phase.resolved])
  · intro j k h h' o o' hj hk hp hp'
    rcases fresh j h hj with hj | hl
    · rcases fresh k h' hk with hk | hl
      · exact K.excl j k h h' o o' hj hk hp hp'
      · rw [hl] at hp'; cases hp'
    · rw [hl] at hp; cases hp
  · intro j k h h' oid pc pc' hj hk hp hp'
    rcases fresh j h hj with hj | hl
    · rcases fresh k h' hk with hk | hl
      · exact K.one j k h h' oid pc pc' hj hk hp hp'
      · rw [hl] at hp'; cases hp'
    · rw [hl] at hp; cases hp
  · intro c hc
    obtain ⟨j, h, pc, hj, hp⟩ := K.owner c hc
    exact ⟨j, h, pc, Procs.spawn_old hj, hp⟩

/-! ## The step lemma -/

/-- Only the commit of an INSERT adds a row or an item. -/
def Eff.inserts : Eff → Bool
  | .insert _ _ => true
  | _ => false

theorem cores_onDb {e : Eff} (h : e.inserts = false) (now : Nat) (db : Db) :
    cores (e.onDb now db) = cores db ∧ (e.onDb now db).items = db.items := by
  cases e with
  | insert order lines => cases h
  | write oid w => exact ⟨Orders.cores_update db oid w now, rfl⟩
  | _ => exact ⟨rfl, rfl⟩

/-- A row after a step that inserts none: an old row, whose status is its own or
the one written. -/
theorem onDb_status {e : Eff} (h : e.inserts = false) {now : Nat} {db : Db} {o' : Order}
    (ho' : o' ∈ (e.onDb now db).orders) : ∃ o ∈ db.orders, o'.core = o.core ∧
      (o'.status = o.status ∨ ∃ w, e = .write o.id w ∧ w.status = some o'.status) := by
  cases e with
  | insert order lines => cases h
  | write oid w =>
    obtain ⟨o, ho, hc, hst⟩ := Orders.mem_update ho'
    refine ⟨o, ho, hc, hst.imp_right fun hw => ?_⟩
    obtain ⟨rfl, hw⟩ := hw
    exact ⟨w, rfl, hw⟩
  | _ => exact ⟨o', ho', rfl, .inl rfl⟩

theorem SagaMoves.inserts {g : Saga} {oid : String} {pc pc' : Pc} {a : Act} {e : Eff}
    (h : SagaMoves s g oid pc a pc' e) : e.inserts = false := by
  cases h <;> rfl

theorem Background.inserts {c : Caller} {e : Eff} (h : Background s c e s') : e.inserts = false := by
  have he := h.eff
  cases e <;> first | rfl | cases he

theorem Background.frame {c : Caller} {e : Eff} (h : Background s c e s') :
    cores s'.db = cores s.db ∧ s'.db.items = s.db.items := by
  rw [h.db]
  exact cores_onDb h.inserts s.now s.db

/-- A run past its commit keeps its order. -/
theorem SagaMoves.owns {g : Saga} {oid : String} {pc pc' : Pc} {a : Act} {e : Eff}
    (hu : Table.Unique Core.id (cores s.db)) (h : SagaMoves s g oid pc a pc' e)
    (ho : Owns s.db g oid pc) : Owns s.db g oid pc' := by
  obtain ⟨c, hc, hid, hk, hus, hl, hsh⟩ := ho
  refine ⟨c, hc, hid, hk, hus, hl, ?_⟩
  cases h with
  | loaded b order hf =>
    obtain ⟨hm, he⟩ := Orders.core_mem hf
    exact hu.eq hm hc (he.trans hid.symm)
  | announced b order ev logged => exact hsh
  | cleared b order d =>
    have hsh : order.core = c := hsh
    subst hsh
    exact ⟨rfl, rfl⟩
  | _ => trivial

theorem locked_eq_false {oid key : String} (h : s.locked oid key = false) {j : Nat} {g : Saga}
    {o : Order} (hj : s.sagas[j]? = some g) (hp : g.phase = .commit o) (ha : g.alive = true) :
    o.id ≠ oid ∧ o.idempotencyKey ≠ key := by
  unfold Sys.locked at h
  have := List.any_eq_false.mp h g (List.mem_of_getElem? hj)
  simpa [hp, ha] using this

theorem keys_prelude {i : Nat} {g g' : Saga} {a : Act} {e : Eff} (K : Keys s.db s.sagas)
    (hg : s.sagas[i]? = some g) (hal : g.alive = true) (hne : ∀ oid pc, g.phase ≠ .saga oid pc)
    (h : PreludeMoves cfg s g a g' e) : Keys (e.onDb s.now s.db) (s.sagas.set i g') := by
  have hnone : ∀ oid, ¬ ∃ pc, g.phase = .saga oid pc := fun oid ⟨pc, hp⟩ => hne oid pc hp
  have hi := K.saga i g hg
  -- the steps that neither open nor commit an INSERT
  have hplain : ∀ g' : Saga, SagaOk s.db g' → (∀ o, g'.phase ≠ .commit o) →
      (∀ oid pc, g'.phase ≠ .saga oid pc) → Keys s.db (s.sagas.set i g') := by
    intro g' hok hno hns
    refine K.set hg hok (fun o ho => absurd ho (hno o)) fun oid => ?_
    exact ⟨fun ⟨pc, hp⟩ => absurd hp (hns oid pc), fun hp => absurd hp (hnone oid)⟩
  cases h with
  | answered a answer hans =>
    refine hplain _ ⟨?_, ?_, ?_, ?_⟩ (by simp) (by simp)
    · intro o ho; cases ho
    · intro out hout
      cases hout
      obtain ⟨order, hby, rfl⟩ := hans out rfl
      obtain ⟨hm, hk⟩ := Orders.byKey_some hby
      exact ⟨order.core, Orders.mem_core hm, hk, rfl, rfl⟩
    · intro oid pc hp; cases hp
    · intro hr; cases hr
  | missed hp hk =>
    exact hplain _ (.plain (by simp) (by simp) (by simp) (by simp [Phase.resolved])) (by simp) (by simp)
  | conflict amount oid hp =>
    exact hplain _ (.plain (by simp) (by simp) (by simp) (by simp [Phase.resolved])) (by simp) (by simp)
  | resolved r lines hp hl =>
    exact hplain _ (.plain (by simp) (by simp) (by simp) fun _ hne' => hl hne') (by simp) (by simp)
  | priced l todo amount d hp =>
    refine hplain _ (.plain (by simp) (by simp) (by simp) fun _ hne' => ?_) (by simp) (by simp)
    exact hi.lines (by rw [hp]; rfl) hne'
  | flushed amount order hp ho hfind hby hlock =>
    have hkey : order.idempotencyKey = g.key := congrArg Order.idempotencyKey ho
    refine K.set hg ⟨?_, ?_, ?_, ?_⟩ ?_ fun oid => ?_
    · intro o ho' _
      cases ho'
      refine ⟨congrArg Order.userId ho, hkey, ⟨congrArg Order.status ho, ?_⟩, fun c hc => ?_⟩
      · exact congrArg Order.stockReserved ho
      exact ⟨Orders.find_none hfind c hc, Orders.byKey_none hby c hc⟩
    · intro out hout; cases hout
    · intro oid pc hp; cases hp
    · intro _ hne'; exact hi.lines (by rw [hp]; rfl) hne'
    · intro o ho' _ j h o' _ hj hp' ha'
      cases ho'
      rw [hkey]
      exact locked_eq_false hlock hj hp' ha'
    · refine ⟨fun hp' => ?_, fun hp => absurd hp (hnone oid)⟩
      obtain ⟨pc, hp'⟩ := hp'
      cases hp'
  | committed order hp => exact K.insert hg hp hal

/-- **Step lemma.** Whatever any process does. -/
theorem keys_step {l : Lbl} (K : Keys s.db s.sagas) (h : step cfg s l = some s') :
    Keys s'.db s'.sagas := by
  cases step_shape h with
  | spawn r => exact K.spawn r
  | run i a s' hrun =>
    cases hrun with
    | prelude g g' e hg hal hne hm =>
      simp only [apply_db]
      exact keys_prelude K hg hal hne hm
    | saga g oid pc pc' e hg hal hp hm =>
      obtain ⟨hc, hit⟩ := cores_onDb hm.inserts s.now s.db
      simp only [apply_db]
      refine Keys.frame ?_ hc hit
      refine K.set hg ⟨?_, ?_, ?_, ?_⟩ (fun o ho => by cases ho) fun oid' => ?_
      · intro o ho; cases ho
      · intro out hout; cases hout
      · intro oid' pc0 hp0
        cases hp0
        have ho : Owns s.db g oid pc' := hm.owns K.ids ((K.saga i g hg).own oid pc hp)
        exact ho
      · intro _ hl; exact (K.saga i g hg).lines (by rw [hp]; rfl) hl
      · rw [hp]; simp
  | crash i g hg =>
    have hi := K.saga i g hg
    refine K.set hg ⟨?_, hi.reply, hi.own, hi.lines⟩ ?_ fun oid => Iff.rfl
    · intro o _ ha; cases ha
    · intro o _ ha; cases ha
  | pay l p hl hp => exact K
  | other l c e s' hb _ =>
    obtain ⟨hc, hit⟩ := hb.frame
    rw [hb.sagas]
    exact K.frame hc hit

theorem keys_run {ls : List Lbl} (hr : (lts cfg cat).Run (start cat) ls s) : Keys s.db s.sagas :=
  hr.keeps (P := fun s => Keys s.db s.sagas) (fun _ _ _ hst K => keys_step K hst) keys_init

theorem keys_reachable (h : (lts cfg cat).Reachable s) : Keys s.db s.sagas := by
  obtain ⟨s₀, ls, rfl, hr⟩ := h
  exact keys_run hr

/-! ## Rows stay -/

theorem cores_step {l : Lbl} (h : step cfg s l = some s') : ∀ c ∈ cores s.db, c ∈ cores s'.db := by
  obtain ⟨-, e, he, -, -⟩ := step_effect h
  intro c hc
  rw [he]
  cases e with
  | insert order lines =>
    simp only [Eff.onDb, Orders.cores_insert]
    exact List.mem_append_left _ hc
  | write oid w => simpa only [Eff.onDb, Orders.cores_update] using hc
  | _ => exact hc

theorem cores_run {ls : List Lbl} (h : (lts cfg cat).Run s ls s') : ∀ c ∈ cores s.db, c ∈ cores s'.db := by
  induction h with
  | nil => exact fun c hc => hc
  | cons hst _ ih => exact fun c hc => ih c (cores_step hst c hc)

/-- An order's items stay as they are. -/
theorem lines_step {l : Lbl} (K : Keys s.db s.sagas) (h : step cfg s l = some s') :
    ∀ c ∈ cores s.db, linesOf s'.db c.id = linesOf s.db c.id := by
  intro c hc
  cases step_shape h with
  | run i a s' hrun =>
    cases hrun with
    | prelude g g' e hg hal hne hm =>
      cases hm with
      | committed order hp =>
        obtain ⟨-, -, -, hnew⟩ := (K.saga i g hg).lock order hp hal
        simp only [apply_db, Eff.onDb, Orders.linesOf_insert]
        rw [if_neg (Ne.symm (hnew c hc).1), List.append_nil]
      | _ => rfl
    | saga g oid pc pc' e hg hal hp hm =>
      simp only [apply_db]
      exact Orders.linesOf_congr (cores_onDb hm.inserts s.now s.db).2 c.id
  | other l c' e s' hb _ => exact Orders.linesOf_congr hb.frame.2 c.id
  | _ => rfl

/-! ## Only an order's own run makes calls for it -/

/-- Every call of a run is for the order it owns. -/
def Issues (s : Sys) : Prop :=
  ∀ x ∈ s.trace, ∀ i, x.caller = .saga i → ∃ g pc, s.sagas[i]? = some g ∧ g.phase = .saga x.orderId pc

theorem SagaMoves.issued {g : Saga} {oid : String} {pc pc' : Pc} {a : Act} {e : Eff} {c : Caller}
    (h : SagaMoves s g oid pc a pc' e) (ho : Owns s.db g oid pc) :
    ∀ x ∈ e.issued s c, x.orderId = oid := by
  intro x hx
  cases h <;> simp only [Eff.issued, List.not_mem_nil, List.mem_singleton] at hx <;> subst hx
  case created order logged hf => exact (Orders.find_some hf).2
  case sent order hf hpos => exact (Orders.find_some hf).2
  case unsent order f reason hf hno => exact (Orders.find_some hf).2
  case announced b order ev logged hev =>
    obtain ⟨c, -, hid, -, -, -, hsh⟩ := ho
    have hsh : order.core = c := hsh
    subst hsh
    exact hev.trans hid
  all_goals rfl

theorem PreludeMoves.issued {g g' : Saga} {a : Act} {e : Eff} {c : Caller}
    (h : PreludeMoves cfg s g a g' e) : e.issued s c = [] := by
  cases h <;> rfl

/-- Replacing a run by one that owns the same order, if any. -/
theorem Issues.set (h : Issues s) {i : Nat} {g g' : Saga} (hg : s.sagas[i]? = some g)
    (hs : s'.sagas = s.sagas.set i g') {trace : List Issued} (ht : s'.trace = s.trace ++ trace)
    (hkeep : ∀ oid pc, g.phase = .saga oid pc → ∃ pc', g'.phase = .saga oid pc')
    (hx : ∀ x ∈ trace, x.caller = .saga i ∧ ∃ pc', g'.phase = .saga x.orderId pc') : Issues s' := by
  intro x hm j hj
  rw [ht, List.mem_append] at hm
  rw [hs]
  rcases hm with hm | hm
  · obtain ⟨h0, pc, h1, h2⟩ := h x hm j hj
    by_cases he : j = i
    · subst he
      rw [hg, Option.some.injEq] at h1; subst h1
      obtain ⟨pc', hp'⟩ := hkeep _ pc h2
      exact ⟨g', pc', Procs.set_self hg, hp'⟩
    · exact ⟨h0, pc, by rw [List.getElem?_set_ne (Ne.symm he)]; exact h1, h2⟩
  · obtain ⟨hc, pc', hp'⟩ := hx x hm
    rw [hj] at hc; cases hc
    exact ⟨g', pc', Procs.set_self hg, hp'⟩

theorem issues_step {l : Lbl} (K : Keys s.db s.sagas) (I : Issues s) (h : step cfg s l = some s') :
    Issues s' := by
  cases step_shape h with
  | spawn r =>
    intro x hx i hi
    obtain ⟨g, pc, hg, hp⟩ := I x hx i hi
    exact ⟨g, pc, Procs.spawn_old hg, hp⟩
  | run i a s' hrun =>
    cases hrun with
    | prelude g g' e hg hal hne hm =>
      refine I.set hg rfl (apply_trace s _ e) (fun oid pc hp => absurd hp (hne oid pc)) ?_
      rw [hm.issued]
      intro x hx; cases hx
    | saga g oid pc pc' e hg hal hp hm =>
      refine I.set hg rfl (apply_trace s _ e) ?_ fun x hx => ⟨issued_caller hx, pc', ?_⟩
      · intro oid' pc0 hp0
        rw [hp] at hp0; cases hp0
        exact ⟨pc', rfl⟩
      · rw [hm.issued ((K.saga i g hg).own oid pc hp) x hx]
  | crash i g hg =>
    refine I.set hg rfl (List.append_nil _).symm (fun oid pc hp => ⟨pc, hp⟩) ?_
    intro x hx; cases hx
  | pay l p hl hp => exact I
  | other l c e s' hb _ =>
    intro x hm i hi
    rw [hb.trace, List.mem_append] at hm
    rcases hm with hm | hm
    · rw [hb.sagas]; exact I x hm i hi
    · exact absurd ((issued_caller hm).symm.trans hi) (hb.caller i)

theorem issues_run {ls : List Lbl} (hr : (lts cfg cat).Run (start cat) ls s) : Issues s := by
  have h0 : Keys (start cat).db (start cat).sagas ∧ Issues (start cat) :=
    ⟨keys_init, fun x hx => by cases hx⟩
  refine (hr.keeps (P := fun s => Keys s.db s.sagas ∧ Issues s) ?_ h0).2
  rintro s l s' hst ⟨K, I⟩
  exact ⟨keys_step K hst, issues_step K I hst⟩

theorem issues_reachable (h : (lts cfg cat).Reachable s) : Issues s := by
  obtain ⟨s₀, ls, rfl, hr⟩ := h
  exact issues_run hr

/-! ## Order-level idempotency -/

/-- The response, if it is out. -/
def Saga.reply (g : Saga) : Option (Except AppError OrderOut) :=
  match g.phase with
  | .replied answer => some answer
  | .saga _ (.ended _ (.done out)) => some (.ok out)
  | _ => none

/-- The run has called catalog, payment or cart, or has published. -/
def Calls (s : Sys) (i : Nat) : Prop := ∃ x ∈ s.trace, x.caller = .saga i

/-- A 201 shows the order stored under the request's key. -/
theorem reply_order (K : Keys s.db s.sagas) {i : Nat} {g : Saga} {out : OrderOut}
    (hg : s.sagas[i]? = some g) (hr : g.reply = some (.ok out)) :
    ∃ c ∈ cores s.db, c.idempotencyKey = g.key ∧ c.id = out.id ∧ c.userId = out.userId := by
  unfold Saga.reply at hr
  split at hr
  · rename_i answer hp
    cases hr
    exact (K.saga i g hg).reply out hp
  · rename_i oid b out' hp
    cases hr
    obtain ⟨c, hc, hid, hk, -, -, h1, h2⟩ := (K.saga i g hg).own oid _ hp
    exact ⟨c, hc, hk, h1.symm, h2.symm⟩
  · cases hr

/-- Two runs with one key that both call are the same run. -/
theorem calls_unique (K : Keys s.db s.sagas) (I : Issues s) {i j : Nat} {g h : Saga}
    (hg : s.sagas[i]? = some g) (hh : s.sagas[j]? = some h) (hk : g.key = h.key) (hi : Calls s i)
    (hj : Calls s j) : i = j := by
  obtain ⟨x, hx, hxi⟩ := hi
  obtain ⟨y, hy, hyj⟩ := hj
  obtain ⟨g', pc, hg', hp⟩ := I x hx i hxi
  obtain ⟨h', pc', hh', hp'⟩ := I y hy j hyj
  rw [hg, Option.some.injEq] at hg'; subst hg'
  rw [hh, Option.some.injEq] at hh'; subst hh'
  exact (K.run_eq_of_key hg hh hp hp' hk).1

/-- **Order-level idempotency.** Whatever runs carry the key `k`: at most one
order has it, at any time and over time; at most one of the runs calls or
publishes anything; the order's items are those of the run that inserted it; and
every 201 shows that order. -/
theorem create_order_once (cfg : Config) (cat : Catalog.Products) (k : String) (s s' : Sys)
    (ls : List Lbl) (hr : (lts cfg cat).Reachable s) (hrun : (lts cfg cat).Run s ls s') :
    ((s'.db.orders.filter fun o => o.idempotencyKey = k).length ≤ 1 ∧
      ∀ o ∈ s.db.orders, o.idempotencyKey = k → ∃ o' ∈ s'.db.orders, o'.core = o.core) ∧
    (∀ (i j : Nat) (g h : Saga), s'.sagas[i]? = some g → s'.sagas[j]? = some h → g.key = k →
      h.key = k → Calls s' i → Calls s' j → i = j) ∧
    (∀ o ∈ s'.db.orders, o.idempotencyKey = k → ∃ (i : Nat) (g : Saga) (pc : Pc),
      s'.sagas[i]? = some g ∧ g.key = k ∧ g.phase = .saga o.id pc ∧ linesOf s'.db o.id = g.rawItems ∧
      (g.req.lines ≠ [] → g.rawItems = g.req.lines)) ∧
    ∀ (i : Nat) (g : Saga) (out : OrderOut), s'.sagas[i]? = some g → g.key = k →
      g.reply = some (.ok out) → ∃ o ∈ s'.db.orders, o.idempotencyKey = k ∧ o.id = out.id := by
  have hr' := hr.run hrun
  have K := keys_reachable hr'
  have I := issues_reachable hr'
  have hids := Orders.unique_ids K.ids
  refine ⟨⟨?_, ?_⟩, ?_, ?_, ?_⟩
  · refine Table.filter_length_le_one hids.nodup ?_
    intro o ho o' ho' hk hk'
    have hc := K.keys.eq (Orders.mem_core ho) (Orders.mem_core ho')
      ((of_decide_eq_true hk).trans (of_decide_eq_true hk').symm)
    exact hids.eq ho ho' (congrArg Core.id hc)
  · intro o ho _
    exact Orders.mem_cores.mp (cores_run hrun o.core (Orders.mem_core ho))
  · intro i j g h hg hh hk hk' hi hj
    exact calls_unique K I hg hh (hk.trans hk'.symm) hi hj
  · intro o ho hk
    obtain ⟨i, g, pc, hg, hp⟩ := K.owner o.core (Orders.mem_core ho)
    obtain ⟨c, hc, hid, hck, -, hl, -⟩ := (K.saga i g hg).own o.id pc hp
    have hco : c = o.core := K.ids.eq hc (Orders.mem_core ho) hid
    subst hco
    exact ⟨i, g, pc, hg, hck.symm.trans hk, hp, hl, (K.saga i g hg).lines (by rw [hp]; rfl)⟩
  · intro i g out hg hk hout
    obtain ⟨c, hc, hck, hid, -⟩ := reply_order K hg hout
    obtain ⟨o, ho, rfl⟩ := Orders.mem_cores.mp hc
    exact ⟨o, ho, hck.trans hk, hid⟩

/-! The lines of the examples' orders. -/

def onePen : OrderItemIn := ⟨"p1", 1, by decide⟩

def twoPens : OrderItemIn := ⟨"p1", 2, by decide⟩

def oneInk : OrderItemIn := ⟨"p2", 1, by decide⟩

def twoInks : OrderItemIn := ⟨"p2", 2, by decide⟩

/-- Two users send one key at the same time: the second one's INSERT waits for
the first one's commit, then fails, and the second is answered with the first
one's order. -/
def sameKey : List Lbl :=
  [.request ⟨"u1", some "k", some [twoPens]⟩,
    .request ⟨"u2", some "k", some [onePen]⟩,
    .saga 0 .select, .saga 1 .select, .saga 0 (.resolve (.status 200 none)),
    .saga 1 (.resolve (.status 200 none)), .saga 0 (.price .answered), .saga 1 (.price .answered),
    .saga 0 (.flush "o1"), .saga 0 .commit, .saga 1 (.flush "o2"), .saga 1 .select,
    .saga 0 (.publish true), .saga 0 (.reserve .answered)]

/-- One order, and the second run's response shows it. -/
def oneOrder (s : Sys) : Bool :=
  s.db.orders.map Order.id = ["o1"] ∧ s.trace.length = 2 ∧
    (s.sagas[1]?.bind Saga.reply).any fun r => match r with
      | .ok out => out.id = "o1"
      | .error _ => false

/-- `create_order_once` after `sameKey`. -/
theorem create_order_once_sameKey : ∃ s : Sys, oneOrder s = true ∧
    ((s.db.orders.filter fun o => o.idempotencyKey = "k").length ≤ 1 ∧
      ∀ o ∈ (start [⟨"p1", "pen", 10, 5⟩]).db.orders, o.idempotencyKey = "k" →
        ∃ o' ∈ s.db.orders, o'.core = o.core) ∧
    ∀ (i j : Nat) (g h : Saga), s.sagas[i]? = some g → s.sagas[j]? = some h → g.key = "k" →
      h.key = "k" → Calls s i → Calls s j → i = j := by
  have hrun : ∃ s, (lts {} [⟨"p1", "pen", 10, 5⟩]).Run (start [⟨"p1", "pen", 10, 5⟩]) sameKey s ∧
      oneOrder s = true := LTS.exists_run_of_exec sameKey (by decide +kernel)
  obtain ⟨s, hr, hs⟩ := hrun
  have h := create_order_once {} _ "k" _ s sameKey (.of_init rfl) hr
  exact ⟨s, hs, h.1, h.2.1⟩

end Gestalt.Checkout
