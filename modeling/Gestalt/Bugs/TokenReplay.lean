import Gestalt.L3Auth.Revocation

/-!
# A refresh token used twice

Status: open.

Behaviour: `refresh` looks in the blacklist, reads the row, and only then
revokes it (services/auth-service/app/routers/auth.py:82-98). Nothing in the
`UPDATE` depends on what was read, and the read takes no lock. Calls that read
the row before the first of them has committed all go on to issue a new pair.

Documented: services/auth-service/tests/test_auth.py:25, "Reusing the
pre-rotation refresh token must now fail"; routers/auth.py:80, "otherwise there
is a window where a just-revoked token still validates"; auth-service.md,
"Refresh-token replay".

Counterexample: `bothRefresh`. Two calls with one token each answer with a pair.

Fix: read the row with `with_for_update()`, or revoke it with `UPDATE ... WHERE
token_id = :id AND revoked = false` and go on only if a row has changed.
-/
namespace Gestalt.Auth

/-- The token of a `refresh` that has answered with a new pair. -/
def Proc.returned (x : Proc) : Option String :=
  match x.call, x.pc with
  | .refresh t, .done (.pair _) => some t
  | _, _ => none

namespace System

/-- Of the `refresh` calls with one token at most one returns a pair. -/
def SingleUse (s : System) : Prop := ∀ t, Procs.holding Proc.returned s.procs t ≤ 1

/-! ## The run that goes wrong -/

/-- Both have read the row when the first one commits. -/
def bothRefresh : List Lbl :=
  [.call (.refresh "T"), .call (.refresh "T")] ++ steps 0 "A" 3 ++ steps 1 "B" 3 ++ steps 0 "A" 7 ++
    steps 1 "B" 7

/-- **Counterexample.** Two calls return a pair. -/
theorem token_replayed :
    ¬ ∀ cfg verifyPassword s, (lts cfg verifyPassword).Reachable s → s.SingleUse := by
  obtain ⟨s, hr, hs⟩ : ∃ s, (lts {} (fun _ _ => true)).Reachable s ∧
      decide (Procs.holding Proc.returned s.procs "T" = 2) = true :=
    LTS.reachable_of_exec bothRefresh (s := oneSession) rfl (by decide +kernel)
  intro h
  have hle := h {} (fun _ _ => true) s hr "T"
  rw [of_decide_eq_true hs] at hle
  omega

/-! ## When a token is used once -/

end System

/-- The token of a `refresh` that has read it valid and not committed its
revocation; none, if it has crashed. -/
def Proc.pending (x : Proc) : Option String :=
  match x.call, x.pc with
  | .refresh t, .user _ _ => if x.alive then some t else none
  | .refresh t, .revoke _ _ => if x.alive then some t else none
  | _, _ => none

def Proc.claims (x : Proc) : Option String := x.pending.or x.won

namespace System

/-- A `refresh` reads its token valid only while no other one has read it so
and is before its commit. -/
def readsAlone (s : System) : Lbl → Bool
  | .next i _ _ =>
    match s.procs[i]? with
    | some ⟨.refresh t, .row, _⟩ =>
      match s.store.token t with
      | some row => row.revoked || s.procs.all fun x => decide (x.pending ≠ some t)
      | none => true
    | _ => true
  | _ => true

def aloneLts (cfg : Settings) (verifyPassword : String → String → Bool) : LTS System Lbl :=
  (lts cfg verifyPassword).restrict fun s l => readsAlone s l = true

structure Inv (s : System) : Prop where
  alone : Procs.Sole Proc.claims s.procs
  known : ∀ x ∈ s.procs, ∀ t, x.pending = some t → ∃ r, s.store.token t = some r
  spent : ∀ x ∈ s.procs, ∀ t, x.won = some t → s.store.Spent t

/-- A process makes no new claim, and what it wins is spent. -/
theorem Inv.goOn {s s' : System} {i : Nat} {x x' : Proc} (hI : s.Inv) (hx : s.procs[i]? = some x)
    (hp : s'.procs = s.procs.set i x') (hg : s.store.Grows s'.store)
    (hc : ∀ t, x'.claims = some t → x.claims = some t)
    (hk : ∀ t, x'.pending = some t → x.pending = some t)
    (hw : ∀ t, x'.won = some t → x.won = some t ∨ s'.store.Spent t) : s'.Inv := by
  have hxm := List.mem_of_getElem? hx
  constructor
  · rw [hp]
    exact hI.alone.set hx fun t ht => .inl (hc t ht)
  · intro y hy t ht
    have hold : ∃ r, s.store.token t = some r := by
      rw [hp] at hy
      rcases List.mem_or_eq_of_mem_set hy with hy | rfl
      · exact hI.known y hy t ht
      · exact hI.known x hxm t (hk t ht)
    obtain ⟨r, hr⟩ := hold
    obtain ⟨r', hr', -⟩ := hg t r hr
    exact ⟨r', hr'⟩
  · intro y hy t ht
    rw [hp] at hy
    rcases List.mem_or_eq_of_mem_set hy with hy | rfl
    · exact hg.spent (hI.spent y hy t ht)
    · exact (hw t ht).elim (fun h => hg.spent (hI.spent x hxm t h)) id

/-- Nothing changes but the store, and no token is lost or valid again. -/
theorem Inv.store {s s' : System} (hI : s.Inv) (hp : s'.procs = s.procs)
    (hg : s.store.Grows s'.store) : s'.Inv where
  alone := hp ▸ hI.alone
  known x hx t ht := by
    rw [hp] at hx
    obtain ⟨r, hr⟩ := hI.known x hx t ht
    obtain ⟨r', hr', -⟩ := hg t r hr
    exact ⟨r', hr'⟩
  spent x hx t ht := by
    rw [hp] at hx
    exact hg.spent (hI.spent x hx t ht)

theorem Inv.spawn {s : System} (hI : s.Inv) (c : Call) :
    ({ s with procs := s.procs ++ [{ call := c, pc := c.entry }] } : System).Inv := by
  have hpending : ({ call := c, pc := c.entry } : Proc).pending = none := by cases c <;> rfl
  have hwon : ({ call := c, pc := c.entry } : Proc).won = none := by cases c <;> rfl
  constructor
  · refine hI.alone.spawn ?_
    rw [Proc.claims, hpending, hwon]
    rfl
  · intro x hx t ht
    rcases List.mem_append.mp hx with hx | hx
    · exact hI.known x hx t ht
    · rw [List.mem_singleton.mp hx, hpending] at ht
      cases ht
  · intro x hx t ht
    rcases List.mem_append.mp hx with hx | hx
    · exact hI.spent x hx t ht
    · rw [List.mem_singleton.mp hx, hwon] at ht
      cases ht

/-- A `refresh` that nobody else is before the commit of reads its row valid. -/
theorem Inv.read {s : System} {i : Nat} {x x' : Proc} {t : String} {row : RefreshToken} (hI : s.Inv)
    (hx : s.procs[i]? = some x) (hrow : s.store.token t = some row) (hrev : row.revoked = false)
    (hp : x'.pending = some t) (hw : x'.won = none) (hfree : ∀ y ∈ s.procs, y.pending ≠ some t) :
    ({ s with procs := s.procs.set i x' } : System).Inv := by
  -- a call that had won the token would have left it revoked
  have hnone : ∀ y ∈ s.procs, y.claims ≠ some t := by
    intro y hy hc
    rcases Option.or_eq_some_iff.mp hc with hpy | ⟨-, hwy⟩
    · exact hfree y hy hpy
    · obtain ⟨r, hr, hrr⟩ := hI.spent y hy t hwy
      rw [hrow, Option.some.injEq] at hr
      subst hr
      rw [hrev] at hrr
      cases hrr
  constructor
  · refine hI.alone.set hx ?_
    intro t' ht'
    rw [Proc.claims, hp, Option.some_or, Option.some.injEq] at ht'
    subst ht'
    exact .inr hnone
  · intro y hy t' ht'
    rcases List.mem_or_eq_of_mem_set hy with hy | rfl
    · exact hI.known y hy t' ht'
    · rw [hp, Option.some.injEq] at ht'
      subst ht'
      exact ⟨row, hrow⟩
  · intro y hy t' ht'
    rcases List.mem_or_eq_of_mem_set hy with hy | rfl
    · exact hI.spent y hy t' ht'
    · rw [hw] at ht'
      cases ht'

/-- A call that is answered without a pair claims nothing. -/
theorem claims_done {c : Call} {alive : Bool} {a : Answer} (ha : ∀ p, a ≠ .pair p) :
    (⟨c, .done a, alive⟩ : Proc).claims = none := by
  cases c with
  | login _ _ => rfl
  | logout _ _ => rfl
  | refresh t =>
    cases a with
    | pair p => exact absurd rfl (ha p)
    | noContent => rfl
    | error e => rfl

theorem claims_none {x : Proc} (h : x.claims = none) : x.pending = none ∧ x.won = none :=
  Option.or_eq_none_iff.mp h

/-- A process that claims nothing afterwards. -/
theorem Inv.letGo {s s' : System} {i : Nat} {x x' : Proc} (hI : s.Inv) (hx : s.procs[i]? = some x)
    (hp : s'.procs = s.procs.set i x') (hg : s.store.Grows s'.store) (h : x'.claims = none) :
    s'.Inv := by
  obtain ⟨hpending, hwon⟩ := claims_none h
  refine hI.goOn hx hp hg ?_ ?_ ?_
  · rw [h]
    simp
  · rw [hpending]
    simp
  · rw [hwon]
    simp

theorem pending_crashed (x : Proc) : ({ x with alive := false } : Proc).pending = none := by
  obtain ⟨c, pc, alive⟩ := x
  cases c <;> cases pc <;> rfl

theorem claims_of_won {x : Proc} {t : String} (h : x.won = some t) : x.claims = some t := by
  obtain ⟨c, pc, alive⟩ := x
  have hpending : (⟨c, pc, alive⟩ : Proc).pending = none := by
    cases c <;> cases pc <;> first | rfl | cases h
  rw [Proc.claims, hpending, Option.none_or]
  exact h

theorem won_of_returned {x : Proc} {t : String} (h : x.returned = some t) : x.won = some t := by
  obtain ⟨c, pc, alive⟩ := x
  cases c with
  | login email password => cases pc <;> cases h
  | logout t' userId => cases pc <;> cases h
  | refresh t' =>
    cases pc with
    | done a =>
      cases a with
      | pair p => exact h
      | noContent => cases h
      | error e => cases h
    | _ => cases h

theorem logout_claims (t userId : String) (pc : Pc) (alive : Bool) :
    (⟨.logout t userId, pc, alive⟩ : Proc).claims = none := by
  cases pc <;> rfl

/-- Issuing tokens changes no claim. -/
theorem issue_claims {cfg : Settings} {now : Nat} {uuid : String} {s s' : Store} {c : Call}
    {pc : IssuePc} {pc' : Pc} {a : Bool} (h : pc.step cfg now uuid s = (s', pc')) :
    (⟨c, pc', a⟩ : Proc).pending = (⟨c, .issue pc, a⟩ : Proc).pending ∧
      (⟨c, pc', a⟩ : Proc).won = (⟨c, .issue pc, a⟩ : Proc).won := by
  cases pc <;> simp only [IssuePc.step, Prod.mk.injEq] at h <;> obtain ⟨-, rfl⟩ := h <;>
    cases c <;> exact ⟨rfl, rfl⟩

theorem inv_step {cfg : Settings} {s s' : System} {l : Lbl} (hI : s.Inv) (h : Steps cfg s l s')
    (hG : readsAlone s l = true) : s'.Inv := by
  cases h with
  | call c => exact hI.spawn c
  | tick d => exact hI.store rfl (.refl _)
  | forget t => exact hI.store rfl (.refl _)
  | @crash i x hx =>
    have hnone : ({ x with alive := false } : Proc).pending = none := pending_crashed x
    have hwon : ({ x with alive := false } : Proc).won = x.won := rfl
    refine hI.goOn hx rfl (.refl _) ?_ ?_ fun t ht => .inl ht
    · intro t ht
      rw [Proc.claims, hnone, hwon, Option.none_or] at ht
      exact claims_of_won ht
    · rw [hnone]
      simp
  | @raised i uuid o x s₁ pc' hx ho hm =>
    refine hI.letGo hx rfl ?_ (claims_done (by simp))
    simp only
    split
    · exact hm.grows
    · exact .refl _
  | @next i uuid x s₁ pc' hx ha hu hf hm =>
    obtain ⟨c, pc, alive⟩ := x
    simp only at ha hm
    subst ha
    have hg := hm.grows
    cases hm with
    | refuse a hpair => exact hI.letGo hx rfl hg (claims_done hpair)
    | login user => exact hI.letGo hx rfl hg rfl
    | listed hb => exact hI.letGo hx rfl hg rfl
    | readOwn hrow hown hrev => exact hI.letGo hx rfl hg rfl
    | @read t row hrow hrev hexp =>
      refine hI.read hx hrow hrev rfl rfl ?_
      simpa [readsAlone, hx, hrow, hrev] using hG
    | owner user => exact hI.goOn hx rfl hg (fun t ht => ht) (fun t ht => ht) fun t ht => .inl ht
    | reload user' => exact hI.goOn hx rfl hg (fun t ht => ht) (fun t ht => ht) fun t ht => .inl ht
    | @issue c pc s' pc' hst =>
      obtain ⟨hpending, hwon⟩ := issue_claims (c := c) (a := true) hst
      refine hI.goOn hx rfl hg ?_ (fun t ht => hpending ▸ ht) fun t ht => .inl (hwon ▸ ht)
      intro t ht
      rw [Proc.claims, hpending, hwon] at ht
      exact ht
    | @revoke c t next pc s' pc' hc hst =>
      cases c with
      | login email password => cases hc
      | logout t' userId => exact hI.letGo hx rfl hg (logout_claims ..)
      | refresh t' =>
        obtain rfl : t' = t := by simpa [Call.presents] using hc
        obtain ⟨row, hrow⟩ := hI.known _ (List.mem_of_getElem? hx) t' rfl
        cases pc with
        | blacklist ttl =>
          simp only [RevokePc.step, Prod.mk.injEq] at hst
          obtain ⟨rfl, rfl⟩ := hst
          exact hI.goOn hx rfl hg (fun t ht => ht) (fun t ht => ht) fun t ht => .inl ht
        | update =>
          simp only [RevokePc.step, Prod.mk.injEq] at hst
          obtain ⟨rfl, rfl⟩ := hst
          exact hI.goOn hx rfl hg (fun t ht => ht) (fun t ht => ht) fun t ht => .inl ht
        | commit =>
          simp only [RevokePc.step, Prod.mk.injEq] at hst
          obtain ⟨rfl, rfl⟩ := hst
          cases next with
          | none => exact hI.letGo hx rfl hg rfl
          | some user =>
            refine hI.goOn hx rfl hg (fun t ht => ht) (fun t ht => by cases ht) ?_
            intro t ht
            obtain rfl : t' = t := Option.some.inj ht
            exact .inr (Store.spent_revoke hrow)

theorem inv_reachable {cfg : Settings} {verifyPassword : String → String → Bool} {s : System}
    (h : (aloneLts cfg verifyPassword).Reachable s) : s.Inv := by
  refine LTS.reachable_induct ?_ ?_ h
  · intro s hs
    have hp : s.procs = [] := hs
    constructor
    · rw [hp]
      exact .nil
    · intro x hx
      rw [hp] at hx
      cases hx
    · intro x hx
      rw [hp] at hx
      cases hx
  · intro s l s' _ hI hs
    exact inv_step hI (steps_of_step hs.1) hs.2

/-- **Single use.** In every run whose reads are alone, a token is exchanged at
most once. -/
theorem token_single_use (cfg : Settings) (verifyPassword : String → String → Bool) {s : System}
    (h : (aloneLts cfg verifyPassword).Reachable s) : s.SingleUse := by
  have hsole : Procs.Sole Proc.returned s.procs := by
    intro i j x y t hx hy htx hty
    have hc := (inv_reachable h).alone
    exact hc i j x y t hx hy (claims_of_won (won_of_returned htx)) (claims_of_won (won_of_returned hty))
  exact fun t => hsole.holding_le_one t

/-- One call looks in the blacklist and is overtaken by another, which
refreshes; a logout and the first call then read the row. -/
def readsApart : List Lbl :=
  [.call (.refresh "T"), .call (.refresh "T"), .call (.logout "T" ada.id)] ++ steps 1 "A" 1 ++
    steps 0 "A" 10 ++ steps 2 "A" 1 ++ steps 1 "A" 1

theorem token_single_use_overlap : ∃ s, (aloneLts {} (fun _ _ => true)).Reachable s ∧
    Procs.holding Proc.returned s.procs "T" = 1 ∧ s.SingleUse := by
  obtain ⟨s, hr, hs⟩ : ∃ s, (aloneLts {} (fun _ _ => true)).Reachable s ∧
      decide (Procs.holding Proc.returned s.procs "T" = 1) = true :=
    LTS.reachable_of_execG readsApart (s := oneSession) rfl (by decide +kernel)
  exact ⟨s, hr, of_decide_eq_true hs, token_single_use {} _ hr⟩

end System
end Gestalt.Auth
