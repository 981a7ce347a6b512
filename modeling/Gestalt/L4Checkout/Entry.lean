import Gestalt.L4Checkout.Charges

/-!
# All or nothing, up to the commit of the order

Before its step-3 commit a `create_order` run reads, flushes into a transaction
of its own, and may end at any of it: an `AppError`, a replay, or an exception
or a crash that rolls the transaction back. Until then every step of it leaves
the stores, the topic and the log alone (`untouched_step`). The commit itself
inserts one order and its line items (`committed_step`), and no later step of
the run inserts anything.

`no_trace_before_commit` says so of whole runs of the system.
-/
namespace Gestalt.Checkout

open Gestalt.Orders (Db Order OrderItem Line cores linesOf)

variable {cfg : Config} {cat : Catalog.Products} {s s' : Sys} {i : Nat}

/-- A step of request `i`, or its crash. -/
def Lbl.ofRun (i : Nat) : Lbl → Bool
  | .saga j _ => j = i
  | .crash j => j = i
  | _ => false

/-- No store has changed, nothing has been called or published. -/
structure Untouched (s s' : Sys) : Prop where
  db : s'.db = s.db
  cat : s'.cat = s.cat
  pay : s'.pay = s.pay
  carts : s'.carts = s.carts
  topic : s'.topic = s.topic
  trace : s'.trace = s.trace

/-- One order and its line items are new, and nothing else has changed. -/
structure Inserted (s s' : Sys) (order : Order) (lines : List Line) : Prop where
  orders : s'.db.orders = s.db.orders ++ [order]
  items : s'.db.items = s.db.items ++ lines.map (OrderItem.of order.id)
  fresh : (∀ o ∈ s.db.orders, o.id ≠ order.id) ∧ ∀ it ∈ s.db.items, it.orderId ≠ order.id
  others : Untouched { s with db := s'.db } s'

/-- Run `i` has committed the order `oid`. -/
def Committed (i : Nat) (oid : String) (s : Sys) : Prop :=
  ∃ g pc, s.sagas[i]? = some g ∧ g.phase = .saga oid pc

/-- Run `i` has resolved its items to `lines`. -/
def Resolved (i : Nat) (req : Req) (lines : List Line) (s : Sys) : Prop :=
  ∃ g, s.sagas[i]? = some g ∧ g.req = req ∧ g.rawItems = lines ∧ g.phase ≠ .lookup ∧ g.phase ≠ .resolve

/-! ## One step -/

/-- What a step does to run `i`. -/
theorem run_moves {l : Lbl} {g : Saga} (h : step cfg s l = some s') (hg : s.sagas[i]? = some g) :
    ∃ g', s'.sagas[i]? = some g' ∧ (g' = g ∨ g' = { g with alive := false } ∨
      (∃ a e, l = .saga i a ∧ prelude cfg s g a = some (g', e) ∧
        s' = { s.apply (.saga i) e with sagas := s.sagas.set i g' }) ∨
      ∃ a e oid pc pc', l = .saga i a ∧ g.phase = .saga oid pc ∧ SagaMoves s g oid pc a pc' e ∧
        g' = { g with phase := .saga oid pc' } ∧
        s' = { s.apply (.saga i) e with sagas := s.sagas.set i g' }) := by
  cases l with
  | saga j a =>
    simp only [step] at h
    split at h
    · rename_i d hd
      split at h
      · obtain ⟨⟨d', e⟩, hst, rfl⟩ := Option.map_eq_some_iff.mp h
        by_cases hij : j = i
        · subst hij
          rw [hg] at hd
          cases hd
          refine ⟨d', Procs.set_self hg, ?_⟩
          unfold stepSaga at hst
          split at hst
          · rename_i oid pc hp
            obtain ⟨⟨pc', e'⟩, hsaga, he⟩ := Option.map_eq_some_iff.mp hst
            cases he
            exact .inr (.inr (.inr ⟨a, e', oid, pc, pc', rfl, hp, saga_moves hsaga, rfl, rfl⟩))
          · exact .inr (.inr (.inl ⟨a, e, rfl, hst, rfl⟩))
        · exact ⟨g, by rw [List.getElem?_set_ne hij]; exact hg, .inl rfl⟩
      · cases h
    · cases h
  | crash j =>
    obtain ⟨d, hd, rfl⟩ := Option.map_eq_some_iff.mp h
    by_cases hij : j = i
    · subst hij
      rw [hg] at hd
      cases hd
      exact ⟨_, Procs.set_self hg, .inr (.inl rfl)⟩
    · exact ⟨g, by rw [List.getElem?_set_ne hij]; exact hg, .inl rfl⟩
  | request r =>
    cases h
    exact ⟨g, Procs.spawn_old hg, .inl rfl⟩
  | pay l =>
    simp only [step] at h
    split at h
    · obtain ⟨p, -, rfl⟩ := Option.map_eq_some_iff.mp h
      exact ⟨g, hg, .inl rfl⟩
    · cases h
  | _ =>
    cases step_shape h with
    | other _ _ _ _ hb _ => exact ⟨g, hb.sagas ▸ hg, .inl rfl⟩

/-- A run that was not there has just been asked for. -/
theorem run_new {l : Lbl} {g' : Saga} (h : step cfg s l = some s') (hn : s.sagas[i]? = none)
    (hg' : s'.sagas[i]? = some g') : g'.phase = .lookup := by
  have hset : ∀ {j : Nat} {d : Saga}, (s.sagas.set j d)[i]? = none := by
    intro j d
    rw [List.getElem?_eq_none_iff, List.length_set]
    exact List.getElem?_eq_none_iff.mp hn
  cases step_shape h with
  | spawn r =>
    rcases Procs.spawn_cases hg' with hold | ⟨-, rfl⟩
    · rw [hn] at hold
      cases hold
    · rfl
  | run j a s' hrun =>
    cases hrun with
    | prelude => rw [hset] at hg'; cases hg'
    | saga => rw [hset] at hg'; cases hg'
  | crash j g hg => rw [hset] at hg'; cases hg'
  | pay => rw [hn] at hg'; cases hg'
  | other _ _ _ _ hb _ =>
    rw [hb.sagas, hn] at hg'
    cases hg'

theorem committed_keeps {oid : String} {l : Lbl} (h : step cfg s l = some s') (hc : Committed i oid s) :
    Committed i oid s' := by
  obtain ⟨g, pc, hg, hp⟩ := hc
  obtain ⟨g', hg', hm⟩ := run_moves h hg
  rcases hm with rfl | rfl | ⟨a, e, -, hpre, -⟩ | ⟨a, e, oid', pc₀, pc', -, hp', -, rfl, -⟩
  · exact ⟨g', pc, hg', hp⟩
  · exact ⟨_, pc, hg', hp⟩
  · simp [prelude, hp] at hpre
  · rw [hp] at hp'
    cases hp'
    exact ⟨_, pc', hg', rfl⟩

/-- The items are resolved once. -/
theorem resolved_keeps {req : Req} {lines : List Line} {l : Lbl} (h : step cfg s l = some s')
    (hr : Resolved i req lines s) : Resolved i req lines s' := by
  obtain ⟨g, hg, hreq, hlines, hl, hres⟩ := hr
  obtain ⟨g', hg', hm⟩ := run_moves h hg
  refine ⟨g', hg', ?_⟩
  rcases hm with rfl | rfl | ⟨a, e, -, hpre, -⟩ | ⟨a, e, oid', pc₀, pc', -, hp', -, rfl, -⟩
  · exact ⟨hreq, hlines, hl, hres⟩
  · exact ⟨hreq, hlines, hl, hres⟩
  · cases prelude_moves hpre with
    | answered => exact ⟨hreq, hlines, by simp, by simp⟩
    | missed hp => exact absurd hp hl
    | conflict => exact ⟨hreq, hlines, by simp, by simp⟩
    | resolved r ls hp => exact absurd hp hres
    | priced => exact ⟨hreq, hlines, by simp, by simp⟩
    | flushed => exact ⟨hreq, hlines, by simp, by simp⟩
    | committed => exact ⟨hreq, hlines, by simp, by simp⟩
  · exact ⟨hreq, hlines, by simp, by simp⟩

/-- A step of run `i` moves it, or is its crash. -/
theorem ofRun_moves {l : Lbl} (hl : l.ofRun i = true) (h : step cfg s l = some s') :
    ∃ g, s.sagas[i]? = some g ∧ (s' = { s with sagas := s.sagas.set i { g with alive := false } } ∨
      (∃ g' a e, l = .saga i a ∧ PreludeMoves cfg s g a g' e ∧
        s' = { s.apply (.saga i) e with sagas := s.sagas.set i g' }) ∨
      ∃ a e oid pc pc', l = .saga i a ∧ g.phase = .saga oid pc ∧ SagaMoves s g oid pc a pc' e ∧
        s' = { s.apply (.saga i) e with sagas := s.sagas.set i { g with phase := .saga oid pc' } }) := by
  cases l with
  | saga j a =>
    cases of_decide_eq_true hl
    cases step_saga h with
    | prelude g g' e hg hal hne hm => exact ⟨g, hg, .inr (.inl ⟨g', a, e, rfl, hm, rfl⟩)⟩
    | saga g oid pc pc' e hg hal hp hm =>
      exact ⟨g, hg, .inr (.inr ⟨a, e, oid, pc, pc', rfl, hp, hm, rfl⟩)⟩
  | crash j =>
    cases of_decide_eq_true hl
    obtain ⟨g, hg, rfl⟩ := Option.map_eq_some_iff.mp h
    exact ⟨g, hg, .inl rfl⟩
  | _ => cases hl

/-- **Step lemma**, before the commit. -/
theorem untouched_step {l : Lbl} (hl : l.ofRun i = true) (h : step cfg s l = some s')
    (hn : ∀ oid, ¬ Committed i oid s') : Untouched s s' := by
  obtain ⟨g, hg, rfl | ⟨g', a, e, rfl, hm, rfl⟩ | ⟨a, e, oid, pc, pc', rfl, -, -, rfl⟩⟩ := ofRun_moves hl h
  · exact ⟨rfl, rfl, rfl, rfl, rfl, rfl⟩
  · have hquiet : e = .quiet ∨ ∃ order : Order, g'.phase = .saga order.id .created := by
      cases hm with
      | committed order hp => exact .inr ⟨order, rfl⟩
      | _ => exact .inl rfl
    rcases hquiet with rfl | ⟨order, hp⟩
    · exact ⟨rfl, rfl, rfl, rfl, rfl, List.append_nil _⟩
    · exact absurd ⟨g', .created, Procs.set_self hg, hp⟩ (hn order.id)
  · exact absurd ⟨_, pc', Procs.set_self hg, rfl⟩ (hn oid)

/-- **Step lemma**, after the commit. -/
theorem inserts_no_more {oid : String} {l : Lbl} (hl : l.ofRun i = true) (h : step cfg s l = some s')
    (hc : Committed i oid s) : cores s'.db = cores s.db ∧ s'.db.items = s.db.items := by
  obtain ⟨d, pc₀, hd, hp₀⟩ := hc
  obtain ⟨g, hg, rfl | ⟨g', a, e, rfl, hm, rfl⟩ | ⟨a, e, oid', pc, pc', rfl, -, hm, rfl⟩⟩ := ofRun_moves hl h
  · exact ⟨rfl, rfl⟩
  · rw [hd] at hg
    cases hg
    cases hm with
    | committed order hp => rw [hp₀] at hp; cases hp
    | _ => exact ⟨rfl, rfl⟩
  · simp only [apply_db]
    exact cores_onDb hm.inserts s.now s.db

/-- **Step lemma**, the commit. -/
theorem committed_step {oid : String} {l : Lbl} (K : Keys s.db s.sagas) (h : step cfg s l = some s')
    (hn : ¬ Committed i oid s) (hc : Committed i oid s') : l = .saga i .commit ∧
    ∃ g order, s.sagas[i]? = some g ∧ g.alive = true ∧ g.phase = .commit order ∧ order.id = oid ∧
      Inserted s s' order g.rawItems := by
  obtain ⟨g', pc', hg', hp'⟩ := hc
  cases hg : s.sagas[i]? with
  | none =>
    rw [run_new h hg hg'] at hp'
    cases hp'
  | some g =>
    obtain ⟨d, hd, hm⟩ := run_moves h hg
    rw [hg'] at hd
    cases hd
    rcases hm with rfl | rfl | ⟨a, e, rfl, hpre, rfl⟩ | ⟨a, e, oid', pc₀, pc₁, -, hp₀, -, rfl, -⟩
    · exact absurd ⟨g', pc', hg, hp'⟩ hn
    · exact absurd ⟨g, pc', hg, hp'⟩ hn
    · cases prelude_moves hpre with
      | committed order hp =>
        cases hp'
        have hal : g.alive = true := by
          simp only [step, hg] at h
          by_contra hdead
          simp [hdead] at h
        obtain ⟨-, -, -, hnew⟩ := (K.saga i g hg).lock order hp hal
        refine ⟨rfl, g, order, rfl, hal, hp, rfl, rfl, rfl, ⟨?_, ?_⟩, ⟨rfl, rfl, rfl, rfl, rfl, ?_⟩⟩
        · intro o ho
          exact (hnew o.core (Orders.mem_core ho)).1
        · intro it hit he
          obtain ⟨c, hc, hcid⟩ := K.items it hit
          exact (hnew c hc).1 (hcid.trans he)
        · exact List.append_nil _
      | _ => cases hp'
    · cases hp'
      exact absurd ⟨g, pc₀, hg, hp₀⟩ hn

/-- A cart that is taken was returned whole, and is not empty. -/
theorem getCartItems_eq {cart lines : List Line} {r : Response} (h : getCartItems cart r = .ok lines) :
    r.ok = true ∧ lines = cart := by
  unfold getCartItems at h
  split at h
  · cases h
  · cases h
    exact ⟨rfl, rfl⟩
  · cases h

/-- What request `g` asked for: the items of its body, or the user's cart, as
cart-service returned it in `u`. -/
def Asked (u : Sys) (r : Response) (g : Saga) : Prop :=
  if g.req.lines ≠ [] then g.rawItems = g.req.lines
  else r.ok = true ∧ g.rawItems = u.carts g.req.userId ∧ g.rawItems ≠ []

def Itemized (i : Nat) (s : Sys) : Prop := ∃ g, s.sagas[i]? = some g ∧ g.phase.resolved = true

/-- **Step lemma**, the items. -/
theorem itemized_step {l : Lbl} (h : step cfg s l = some s') (hn : ¬ Itemized i s) (hr : Itemized i s') :
    ∃ r g, l = .saga i (.resolve r) ∧ s'.sagas[i]? = some g ∧ Asked s r g ∧
      Resolved i g.req g.rawItems s' := by
  obtain ⟨g', hg', hp'⟩ := hr
  cases hg : s.sagas[i]? with
  | none =>
    rw [run_new h hg hg'] at hp'
    cases hp'
  | some g =>
    have hno : g.phase.resolved ≠ true := fun hp => hn ⟨g, hg, hp⟩
    obtain ⟨d, hd, hm⟩ := run_moves h hg
    rw [hg'] at hd
    cases hd
    rcases hm with rfl | rfl | ⟨a, e, rfl, hpre, rfl⟩ | ⟨a, e, oid', pc₀, pc₁, -, hp₀, -, rfl, -⟩
    · exact absurd hp' hno
    · exact absurd hp' hno
    · unfold prelude at hpre
      split at hpre
      · -- the early SELECT
        split at hpre
        · cases hpre; cases hp'
        · split at hpre <;> (cases hpre; cases hp')
      · rename_i r hp
        split at hpre
        · rename_i hlines
          cases hpre
          refine ⟨r, _, rfl, hg', ?_, _, hg', rfl, rfl, by simp, by simp⟩
          simp [Asked, hlines]
        · rename_i hlines
          split at hpre
          · cases hpre; cases hp'
          · cases hpre; cases hp'
          · rename_i lines hne hcart
            cases hpre
            obtain ⟨hok, rfl⟩ := getCartItems_eq hcart
            refine ⟨r, _, rfl, hg', ?_, _, hg', rfl, rfl, by simp, by simp⟩
            simp only [Asked, hlines, if_false]
            exact ⟨hok, trivial, fun hnil => hne hnil⟩
      · rename_i hp
        rw [hp] at hno
        exact absurd rfl hno
      · rename_i hp
        rw [hp] at hno
        exact absurd rfl hno
      · rename_i hp
        rw [hp] at hno
        exact absurd rfl hno
      · split at hpre <;> (cases hpre; cases hp')
      · cases hpre
    · rw [hp₀] at hno
      exact absurd rfl hno

/-! ## Whole runs -/

theorem committed_run {oid : String} {ls : List Lbl} (hr : (lts cfg cat).Run s ls s')
    (hc : Committed i oid s) : Committed i oid s' := by
  refine hr.keeps ?_ hc
  intro t l t' hst hc
  exact committed_keeps hst hc

theorem resolved_run {req : Req} {lines : List Line} {ls : List Lbl} (hr : (lts cfg cat).Run s ls s')
    (hres : Resolved i req lines s) : Resolved i req lines s' := by
  refine hr.keeps ?_ hres
  intro t l t' hst hres
  exact resolved_keeps hst hres

/-- The steps of run `i` in a part of a run at whose end it has not committed. -/
theorem untouched_run {ls : List Lbl} {s₀ : Sys} (hn : ∀ oid, ¬ Committed i oid s) :
    ∀ l t t', l.ofRun i = true → (lts cfg cat).Takes s₀ ls s l t t' → Untouched t t' := by
  rintro l t t' hl ⟨ls₁, ls₂, -, -, hst, hr⟩
  refine untouched_step hl hst ?_
  intro oid hc
  exact hn oid (committed_run hr hc)

/-- The steps of run `i` in a part of a run at whose start it has committed. -/
theorem inserts_no_more_run {oid : String} {ls : List Lbl} {s₀ : Sys} (hc : Committed i oid s₀) :
    ∀ l t t', l.ofRun i = true → (lts cfg cat).Takes s₀ ls s l t t' →
      cores t'.db = cores t.db ∧ t'.db.items = t.db.items := by
  rintro l t t' hl ⟨ls₁, ls₂, -, hr, hst, -⟩
  exact inserts_no_more hl hst (committed_run hr hc)

theorem asked_of_committed {ls : List Lbl} {g : Saga} {oid : String} {pc : Pc}
    (hr : (lts cfg cat).Run (start cat) ls s) (hg : s.sagas[i]? = some g) (hp : g.phase = .saga oid pc) :
    ∃ r u u', (lts cfg cat).Takes (start cat) ls s (.saga i (.resolve r)) u u' ∧ Asked u r g := by
  have h0 : ¬ Itemized i (start cat) := by
    rintro ⟨g, hg, -⟩
    simp [start] at hg
  obtain ⟨l, u, u', htakes, hn, hi⟩ := hr.first h0 ⟨g, hg, by rw [hp]; rfl⟩
  obtain ⟨ls₁, ls₂, -, -, hst, hr₂⟩ := id htakes
  obtain ⟨r, d, rfl, -, hasked, hres⟩ := itemized_step hst hn hi
  -- what it resolved to then, it has now
  obtain ⟨g', hg', hreq, hlines, -, -⟩ := resolved_run hr₂ hres
  rw [hg] at hg'
  cases hg'
  refine ⟨r, u, u', htakes, ?_⟩
  unfold Asked at hasked ⊢
  rw [hreq, hlines]
  exact hasked

/-- **All or nothing.** Take any run of the system and any request in it. If its
order has not been committed, no step of it has changed a store, and it has
called and published nothing. If it has, the request did so in one step, which
inserted one PENDING order of the sum of the prices read and exactly the items asked
for; it had changed nothing before and has inserted nothing since. -/
theorem no_trace_before_commit (cfg : Config) (cat : Catalog.Products) {ls : List Lbl} {s : Sys}
    (hr : (lts cfg cat).Run (start cat) ls s) {i : Nat} {g : Saga} (hg : s.sagas[i]? = some g) :
    ((∀ oid pc, g.phase ≠ .saga oid pc) → (∀ x ∈ s.trace, x.caller ≠ .saga i) ∧
      ∀ l t t', l.ofRun i = true → (lts cfg cat).Takes (start cat) ls s l t t' → Untouched t t') ∧
    ∀ oid pc, g.phase = .saga oid pc → ∃ ls₁ ls₂ t t' order,
      (ls = ls₁ ++ .saga i .commit :: ls₂ ∧ (lts cfg cat).Run (start cat) ls₁ t ∧
        step cfg t (.saga i .commit) = some t' ∧ (lts cfg cat).Run t' ls₂ s) ∧
      Inserted t t' order g.rawItems ∧
      (order.id = oid ∧ order.userId = g.req.userId ∧ order.idempotencyKey = g.key ∧
        order.status = .pending ∧ order.amountCents = quote cfg cat g.rawItems ∧
        Found cfg cat g.rawItems) ∧
      (∃ r u u', (lts cfg cat).Takes (start cat) ls s (.saga i (.resolve r)) u u' ∧ Asked u r g) ∧
      (∀ l u u', l.ofRun i = true → (lts cfg cat).Takes (start cat) ls₁ t l u u' → Untouched u u') ∧
      ∀ l u u', l.ofRun i = true → (lts cfg cat).Takes t' ls₂ s l u u' →
        cores u'.db = cores u.db ∧ u'.db.items = u.db.items := by
  constructor
  · intro hne
    refine ⟨?_, ?_⟩
    · intro x hx hcaller
      obtain ⟨d, pc, hd, hp⟩ := issues_run hr x hx i hcaller
      rw [hg] at hd
      cases hd
      exact hne _ _ hp
    · refine untouched_run ?_
      rintro oid ⟨d, pc, hd, hp⟩
      rw [hg] at hd
      cases hd
      exact hne oid pc hp
  · intro oid pc hp
    have h0 : ¬ Committed i oid (start cat) := by
      rintro ⟨d, -, hd, -⟩
      simp [start] at hd
    obtain ⟨l, t, t', ⟨ls₁, ls₂, rfl, hr₁, hst, hr₂⟩, hn, hc⟩ := hr.first h0 ⟨g, pc, hg, hp⟩
    have K := keys_run hr₁
    obtain ⟨rfl, d, order, hd, hal, hpd, rfl, hins⟩ := committed_step K hst hn hc
    -- the request and its items are the same at the end
    have hres : Resolved i d.req d.rawItems t := ⟨d, hd, rfl, rfl, by simp [hpd], by simp [hpd]⟩
    obtain ⟨g', hg', hreq, hlines, -, -⟩ := resolved_run hr₂ (resolved_keeps hst hres)
    rw [hg] at hg'
    cases hg'
    obtain ⟨huser, hkey, ⟨hpend, -⟩, -⟩ := (K.saga i d hd).lock order hpd hal
    refine ⟨ls₁, ls₂, t, t', order, ⟨rfl, hr₁, hst, hr₂⟩, hlines ▸ hins, ?_,
      asked_of_committed hr hg hp, ?_, inserts_no_more_run hc⟩
    · rw [hlines, hreq, Saga.key, hreq]
      exact ⟨rfl, huser, hkey, hpend, ((priced_run hr₁).saga i d hd).order order hpd⟩
    · -- before the commit it has no order, under this id or another
      refine untouched_run ?_
      rintro oid' ⟨d', pc', hd', hp'⟩
      rw [hd] at hd'
      cases hd'
      rw [hpd] at hp'
      cases hp'

/-- The step-3 commit has happened. -/
def Phase.inSaga : Phase → Bool
  | .saga _ _ => true
  | _ => false

/-- `u2`'s request, with `u1`'s key, has read and flushed and been rolled back;
`u1`'s has committed. -/
theorem no_trace_before_commit_sameKey : ∃ s : Sys,
    ((lts {} [⟨"p1", "pen", 10, 5⟩]).Run (start [⟨"p1", "pen", 10, 5⟩]) sameKey s ∧ oneOrder s = true) ∧
    (∀ x ∈ s.trace, x.caller ≠ .saga 1) ∧ ∃ t t', ∃ order : Order,
      step {} t (.saga 0 .commit) = some t' ∧ Inserted t t' order [⟨"p1", 2⟩] ∧ order.amountCents = 20 := by
  have hrun : ∃ s, (lts {} [⟨"p1", "pen", 10, 5⟩]).Run (start [⟨"p1", "pen", 10, 5⟩]) sameKey s ∧
      (oneOrder s && ((s.sagas[1]?).any fun g => !g.phase.inSaga) &&
        (s.sagas[0]?).any fun g => g.phase.inSaga && g.rawItems = [⟨"p1", 2⟩]) = true :=
    LTS.exists_run_of_exec sameKey (by decide +kernel)
  obtain ⟨s, hr, hs⟩ := hrun
  obtain ⟨hs, h0⟩ := Bool.and_eq_true_iff.mp hs
  obtain ⟨hs, h1⟩ := Bool.and_eq_true_iff.mp hs
  obtain ⟨g₁, hg₁, hp₁⟩ := (Option.any_eq_true _ _).mp h1
  obtain ⟨g₀, hg₀, hp₀⟩ := (Option.any_eq_true _ _).mp h0
  refine ⟨s, ⟨hr, hs⟩, ?_, ?_⟩
  · refine ((no_trace_before_commit {} _ hr hg₁).1 ?_).1
    intro oid pc hp
    simp [hp, Phase.inSaga] at hp₁
  · obtain ⟨hsaga, hlines⟩ := Bool.and_eq_true_iff.mp hp₀
    unfold Phase.inSaga at hsaga
    split at hsaga
    · rename_i oid pc hp
      obtain ⟨-, -, t, t', order, ⟨-, -, hst, -⟩, hins, ⟨-, -, -, -, hamount⟩, -⟩ :=
        (no_trace_before_commit {} _ hr hg₀).2 oid pc hp
      rw [of_decide_eq_true hlines] at hins hamount
      exact ⟨t, t', order, hst, hins, hamount.1.trans (by decide +kernel)⟩
    · cases hsaga

/-- An order for `p1?`, up to the commit. -/
def spliced : List Lbl :=
  [.request ⟨"u1", some "k", some [{ twoPens with productId := "p1?" }]⟩, .saga 0 .select,
    .saga 0 (.resolve (.status 200 none)), .saga 0 (.price .answered), .saga 0 (.flush "o1"), .saga 0 .commit]

/-- The price read is that of `p1`. -/
example : ((LTS.exec (step {}) (start [⟨"p1", "pen", 10, 5⟩]) spliced).map fun s =>
    (s.db.orders.map Order.amountCents, linesOf s.db "o1")) = some ([20], [⟨"p1?", 2⟩]) := by
  decide +kernel

end Gestalt.Checkout
