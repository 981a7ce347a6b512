import Gestalt.L3Auth.Tokens

/-!
# Revocation is permanent

A token that a `refresh` has exchanged, or its owner's `logout` has answered with
204, is revoked in the table (`Spent`), and no operation of any call takes that
back: it only ever adds rows and sets `revoked`, and sets it on the token its
call presents (`Moves.token`). The blacklist is not needed for that, so its
entries may go at any time.

`Local` is the rule for what holds of every call by itself: a predicate of a call
and the tokens that every operation keeps for the call it belongs to, and that
does not mind what the other calls do to the tokens.
-/
namespace Gestalt.Auth

/-! ## What may happen to a token -/

theorem Store.token_append {s : Store} {t : String} {r row : RefreshToken} (hr : s.token t = some r) :
    ({ s with tokens := s.tokens ++ [row] } : Store).token t = some r := by
  simp only [Store.token, Table.get, List.find?_append] at hr ⊢
  rw [hr]
  rfl

section
variable {cfg : Settings} {now : Nat} {uuid : String} {s s' : Store} {t : String} {r : RefreshToken}

theorem IssuePc.token {pc : IssuePc} {pc' : Pc} (h : pc.step cfg now uuid s = (s', pc'))
    (hr : s.token t = some r) : s'.token t = some r := by
  cases pc <;> simp only [IssuePc.step, Prod.mk.injEq] at h <;> obtain ⟨rfl, -⟩ := h
  · exact hr
  · exact Store.token_append hr
  · exact hr

theorem RevokePc.token {pc : RevokePc} {u : String} {next : Option User} {pc' : Pc}
    (h : pc.step u next s = (s', pc')) (hr : s.token t = some r) :
    s'.token t = some r ∨ (u = t ∧ s'.token t = some { r with revoked := true }) := by
  cases pc <;> simp only [RevokePc.step, Prod.mk.injEq] at h <;> obtain ⟨rfl, -⟩ := h
  · exact .inl ((s.blacklistAdd_token u t _).trans hr)
  · exact .inl hr
  · rw [Store.token_revoke]
    split
    · rename_i htu
      exact .inr ⟨htu.symm, by rw [hr]; rfl⟩
    · exact .inl hr

/-- An operation leaves a token as it is, or revokes the one its call presents. -/
theorem Moves.token {c : Call} {pc pc' : Pc} (h : Moves cfg now uuid s c pc s' pc')
    (hr : s.token t = some r) :
    s'.token t = some r ∨ (c.presents = some t ∧ s'.token t = some { r with revoked := true }) := by
  cases h with
  | revoke hc hst =>
    rcases RevokePc.token hst hr with hsame | ⟨hut, hrev⟩
    · exact .inl hsame
    · exact .inr ⟨hut ▸ hc, hrev⟩
  | issue hst => exact .inl (IssuePc.token hst hr)
  | _ => exact .inl hr

end

/-- So does a step. -/
theorem System.Steps.token {cfg : Settings} {s s' : System} {l : Lbl} {t : String} {r : RefreshToken}
    (h : System.Steps cfg s l s') (hr : s.store.token t = some r) :
    s'.store.token t = some r ∨
      ∃ i uuid o x, l = .next i uuid o ∧ s.procs[i]? = some x ∧ x.call.presents = some t ∧
        s'.store.token t = some { r with revoked := true } := by
  cases h with
  | call c => exact .inl hr
  | crash hx => exact .inl hr
  | tick d => exact .inl hr
  | forget t' => exact .inl hr
  | next hx ha hu hf hm =>
    rcases hm.token hr with hsame | ⟨hc, hrev⟩
    · exact .inl hsame
    · exact .inr ⟨_, _, _, _, rfl, hx, hc, hrev⟩
  | raised hx ho hm =>
    simp only
    split
    · rcases hm.token hr with hsame | ⟨hc, hrev⟩
      · exact .inl hsame
      · exact .inr ⟨_, _, _, _, rfl, hx, hc, hrev⟩
    · exact .inl hr

theorem System.Steps.grows {cfg : Settings} {s s' : System} {l : Lbl} (h : System.Steps cfg s l s') :
    s.store.Grows s'.store := by
  intro t r hr
  rcases h.token hr with hsame | ⟨-, -, -, -, -, -, -, hrev⟩
  · exact ⟨r, hsame, id⟩
  · exact ⟨_, hrev, fun _ => rfl⟩

/-! ## What holds of every call -/

/-- `P` holds of a new call, and whatever happens to it or to the tokens. -/
structure Local (cfg : Settings) (P : Store → Proc → Prop) : Prop where
  entry : ∀ s c, P s { call := c, pc := c.entry }
  grows : ∀ {s s' x}, s.Grows s' → P s x → P s' x
  moves : ∀ {now uuid s c pc a s' pc'}, Moves cfg now uuid s c pc s' pc' → P s ⟨c, pc, a⟩ →
    P s' ⟨c, pc', a⟩
  raised : ∀ {s c pc a}, P s ⟨c, pc, a⟩ → P s ⟨c, .done (.error internalError), a⟩
  crash : ∀ {s c pc a}, P s ⟨c, pc, a⟩ → P s ⟨c, pc, false⟩

theorem Local.reachable {cfg : Settings} {verifyPassword : String → String → Bool}
    {P : Store → Proc → Prop} (hP : Local cfg P) {s : System}
    (h : (System.lts cfg verifyPassword).Reachable s) : ∀ x ∈ s.procs, P s.store x := by
  refine LTS.reachable_induct (I := fun s => ∀ x ∈ s.procs, P s.store x) ?_ ?_ h
  · intro s hs x hx
    have hp : s.procs = [] := hs
    rw [hp] at hx
    cases hx
  · intro s l s' _ hI hst y hy
    have hsteps := System.steps_of_step hst
    have hg := hsteps.grows
    cases hsteps with
    | call c =>
      rcases List.mem_append.mp hy with hy | hy
      · exact hI y hy
      · rw [List.mem_singleton.mp hy]
        exact hP.entry _ c
    | tick d => exact hI y hy
    | forget t => exact hP.grows hg (hI y hy)
    | crash hx =>
      rcases List.mem_or_eq_of_mem_set hy with hy | rfl
      · exact hI y hy
      · exact hP.crash (hI _ (List.mem_of_getElem? hx))
    | next hx ha hu hf hm =>
      rcases List.mem_or_eq_of_mem_set hy with hy | rfl
      · exact hP.grows hg (hI y hy)
      · exact hP.moves hm (hI _ (List.mem_of_getElem? hx))
    | raised hx ho hm =>
      rcases List.mem_or_eq_of_mem_set hy with hy | rfl
      · exact hP.grows hg (hI y hy)
      · exact hP.grows hg (hP.raised (hI _ (List.mem_of_getElem? hx)))

/-- The token of a `refresh` that has found its row and not committed its revocation. -/
def Proc.reads (x : Proc) : Option String :=
  match x.call, x.pc with
  | .refresh t, .user _ _ => some t
  | .refresh t, .revoke _ _ => some t
  | _, _ => none

/-- The token of a `refresh` that has committed its revocation. -/
def Proc.won (x : Proc) : Option String :=
  match x.call, x.pc with
  | .refresh t, .reload _ => some t
  | .refresh t, .issue _ => some t
  | .refresh t, .done (.pair _) => some t
  | _, _ => none

/-- What a `refresh` has read is in the table, and what it has won is revoked there. -/
structure Proc.Backed (s : Store) (x : Proc) : Prop where
  known : ∀ t, x.reads = some t → ∃ r, s.token t = some r
  spent : ∀ t, x.won = some t → s.Spent t

theorem Proc.Backed.of_known {s : Store} {x : Proc}
    (hr : ∀ t, x.reads = some t → ∃ r, s.token t = some r) (hw : x.won = none) : x.Backed s where
  known := hr
  spent t ht := by
    rw [hw] at ht
    cases ht

theorem Proc.Backed.of_spent {s : Store} {x : Proc} (hr : x.reads = none)
    (hw : ∀ t, x.won = some t → s.Spent t) : x.Backed s where
  known t ht := by
    rw [hr] at ht
    cases ht
  spent := hw

/-- It reads no token, and has won none. -/
theorem Proc.Backed.of_none {s : Store} {x : Proc} (hr : x.reads = none) (hw : x.won = none) :
    x.Backed s :=
  .of_known (by simp [hr]) hw

theorem Proc.Backed.grows {s s' : Store} {x : Proc} (hg : s.Grows s') (h : x.Backed s) : x.Backed s' where
  known t ht := by
    obtain ⟨r, hr⟩ := h.known t ht
    obtain ⟨r', hr', -⟩ := hg t r hr
    exact ⟨r', hr'⟩
  spent t ht := hg.spent (h.spent t ht)

theorem Proc.backed_done {s : Store} {c : Call} {answer : Answer} {a : Bool}
    (ha : ∀ p, answer ≠ .pair p) : (⟨c, .done answer, a⟩ : Proc).Backed s := by
  refine .of_none ?_ ?_
  · cases c <;> rfl
  · cases c with
    | refresh t =>
      cases answer with
      | pair p => exact absurd rfl (ha p)
      | noContent => rfl
      | error e => rfl
    | _ => rfl

theorem Proc.backed_login {s : Store} {email password : String} {pc : Pc} {a : Bool} :
    (⟨.login email password, pc, a⟩ : Proc).Backed s := .of_none rfl rfl

theorem Proc.backed_logout {s : Store} {t userId : String} {pc : Pc} {a : Bool} :
    (⟨.logout t userId, pc, a⟩ : Proc).Backed s := .of_none rfl rfl

section
variable {cfg : Settings} {now : Nat} {uuid : String} {s s' : Store}

theorem RevokePc.backed {t : String} {next : Option User} {pc : RevokePc} {pc' : Pc} {a : Bool}
    (hst : pc.step t next s = (s', pc')) (h : (⟨.refresh t, .revoke next pc, a⟩ : Proc).Backed s) :
    (⟨.refresh t, pc', a⟩ : Proc).Backed s' := by
  have hg := RevokePc.grows hst
  obtain ⟨r, hr⟩ := h.known t rfl
  cases pc <;> simp only [RevokePc.step, Prod.mk.injEq] at hst <;> obtain ⟨rfl, rfl⟩ := hst
  · exact .of_known (h.grows hg).known rfl
  · exact .of_known h.known rfl
  · cases next with
    | none => exact Proc.backed_done (by simp)
    | some user =>
      refine .of_spent rfl ?_
      intro t' ht'
      obtain rfl : t = t' := Option.some.inj ht'
      exact Store.spent_revoke hr

theorem IssuePc.backed {c : Call} {pc : IssuePc} {pc' : Pc} {a : Bool}
    (hst : pc.step cfg now uuid s = (s', pc')) (h : (⟨c, .issue pc, a⟩ : Proc).Backed s) :
    (⟨c, pc', a⟩ : Proc).Backed s' := by
  have hg := IssuePc.grows hst
  cases pc <;> simp only [IssuePc.step, Prod.mk.injEq] at hst <;> obtain ⟨rfl, rfl⟩ := hst
  all_goals
    cases c with
    | refresh t => exact .of_spent rfl (h.grows hg).spent
    | login email password => exact Proc.backed_login
    | logout t userId => exact Proc.backed_logout

theorem Moves.backed {c : Call} {pc pc' : Pc} {a : Bool} (h : Moves cfg now uuid s c pc s' pc')
    (hb : (⟨c, pc, a⟩ : Proc).Backed s) : (⟨c, pc', a⟩ : Proc).Backed s' := by
  cases h with
  | refuse answer hpair => exact Proc.backed_done hpair
  | login user => exact Proc.backed_login
  | listed hlist => exact .of_none rfl rfl
  | @read t row hrow hrev hexp =>
    refine .of_known ?_ rfl
    intro t' ht'
    obtain rfl : t = t' := Option.some.inj ht'
    exact ⟨row, hrow⟩
  | owner user => exact .of_known hb.known rfl
  | readOwn hrow hown hrev => exact Proc.backed_logout
  | reload user' => exact .of_spent rfl hb.spent
  | issue hst => exact IssuePc.backed hst hb
  | @revoke _ t next pc _ _ hc hst =>
    cases c with
    | login email password => exact Proc.backed_login
    | logout t' userId => exact Proc.backed_logout
    | refresh t' =>
      obtain rfl : t' = t := Option.some.inj hc
      exact RevokePc.backed hst hb

end

theorem backed_local (cfg : Settings) : Local cfg fun s x => x.Backed s where
  entry s c := by cases c <;> exact .of_none rfl rfl
  grows hg h := h.grows hg
  moves hm h := hm.backed h
  raised _ := Proc.backed_done (by simp)
  crash {s c pc a} h := ⟨h.known, h.spent⟩

/-! ## A token that is spent -/

theorem won_of_pair {t : String} {p : TokenResponse} {x : Proc} (hc : x.call = .refresh t)
    (hd : x.pc = .done (.pair p)) : x.won = some t := by
  obtain ⟨c, pc, a⟩ := x
  simp only at hc hd
  subst hc hd
  rfl

namespace System

/-- Where a `refresh` of a spent token can be, if none of its operations raises. -/
def Refused (pc : Pc) : Prop :=
  pc = .exists ∨ pc = .row ∨ pc = .done (.error tokenRevoked) ∨ pc = .done (.error tokenInvalid)

section
variable {cfg : Settings} {verifyPassword : String → String → Bool} {s s' : System} {t : String}

theorem refused_moves {now : Nat} {uuid : String} {s s' : Store} {pc pc' : Pc} (hs : s.Spent t)
    (h : refreshStep cfg now uuid s t pc = some (s', pc')) (hp : Refused pc) : Refused pc' := by
  obtain ⟨r, hr, hrev⟩ := hs
  rcases hp with rfl | rfl | rfl | rfl
  · simp only [refreshStep, Option.some.injEq, Prod.mk.injEq] at h
    obtain ⟨-, rfl⟩ := h
    split
    · exact .inr (.inr (.inl rfl))
    · exact .inr (.inl rfl)
  · simp only [refreshStep, hr, hrev, Bool.true_or, if_true, Option.some.injEq, Prod.mk.injEq] at h
    obtain ⟨-, rfl⟩ := h
    exact .inr (.inr (.inr rfl))
  · cases h
  · cases h

/-- The token is spent, and call `i`, if it is a `refresh` of it, is on its way to a 401. -/
structure Late (i : Nat) (t : String) (s : System) : Prop where
  spent : s.store.Spent t
  refused : ∀ x, s.procs[i]? = some x → x.call = .refresh t → Refused x.pc

theorem Late.step {i : Nat} {l : Lbl} (h : s.Late i t) (hst : s.step cfg verifyPassword l = some s')
    (hok : ∀ uuid o, l = .next i uuid o → o = .ok) : s'.Late i t := by
  have hspent := (steps_of_step hst).grows.spent h.spent
  refine ⟨hspent, ?_⟩
  intro y hy hc
  cases l with
  | call c =>
    simp only [System.step, Option.some.injEq] at hst
    subst hst
    rcases Procs.spawn_cases hy with hy | ⟨-, rfl⟩
    · exact h.refused y hy hc
    · simp only at hc
      subst hc
      exact .inl rfl
  | tick d =>
    simp only [System.step, Option.some.injEq] at hst
    subst hst
    exact h.refused y hy hc
  | forget u =>
    simp only [System.step, Option.some.injEq] at hst
    subst hst
    exact h.refused y hy hc
  | crash j =>
    simp only [System.step] at hst
    split at hst
    · rename_i x hx
      simp only [Option.some.injEq] at hst
      subst hst
      rcases Procs.set_cases hx hy with ⟨rfl, rfl⟩ | ⟨-, hy⟩
      · exact h.refused x hx hc
      · exact h.refused y hy hc
    · cases hst
  | next j uuid o =>
    simp only [System.step] at hst
    split at hst
    · rename_i x hx
      split at hst
      · simp only [Option.map_eq_some_iff] at hst
        obtain ⟨⟨s₁, pc'⟩, hop, rfl⟩ := hst
        rcases Procs.set_cases hx hy with ⟨rfl, rfl⟩ | ⟨-, hy⟩
        · obtain rfl := hok uuid o rfl
          simp only at hc
          rw [hc] at hop
          exact refused_moves h.spent hop (h.refused x hx hc)
        · exact h.refused y hy hc
      · cases hst
    · cases hst

theorem Late.run {i : Nat} {ls : List Lbl} (hr : (lts cfg verifyPassword).Run s ls s') (h : s.Late i t)
    (hok : ∀ uuid o, .next i uuid o ∈ ls → o = .ok) : s'.Late i t := by
  induction hr with
  | nil => exact h
  | cons hst _ ih =>
    refine ih (h.step hst ?_) ?_
    · rintro uuid o rfl
      exact hok uuid o (List.mem_cons_self ..)
    · intro uuid o ho
      exact hok uuid o (List.mem_cons_of_mem _ ho)

/-! ## Logging out -/

/-- Where a `logout` by the owner of a token can be. -/
def Leaving (s : Store) (t : String) (pc : Pc) : Prop :=
  pc = .row ∨ (∃ p, pc = .revoke none p) ∨ ∃ a, pc = .done a ∧ (a = .noContent → s.Spent t)

theorem Leaving.grows {s s' : Store} {pc : Pc} (hg : s.Grows s') (h : Leaving s t pc) :
    Leaving s' t pc := by
  rcases h with h | h | ⟨a, rfl, ha⟩
  · exact .inl h
  · exact .inr (.inl h)
  · exact .inr (.inr ⟨a, rfl, fun he => hg.spent (ha he)⟩)

theorem leaving_moves {now : Nat} {userId : String} {s s' : Store} {pc pc' : Pc} {r : RefreshToken}
    (hr : s.token t = some r) (howner : r.userId = userId)
    (h : logoutStep now s t userId pc = some (s', pc')) (hp : Leaving s t pc) : Leaving s' t pc' := by
  rcases hp with rfl | ⟨p, rfl⟩ | ⟨a, rfl, -⟩
  · simp only [logoutStep, hr, howner, decide_true, Bool.true_and] at h
    split at h <;> simp only [Option.some.injEq, Prod.mk.injEq] at h <;> obtain ⟨rfl, rfl⟩ := h
    · exact .inr (.inl ⟨_, rfl⟩)
    · -- the row is revoked already
      rename_i hrev
      exact .inr (.inr ⟨_, rfl, fun _ => ⟨r, hr, by simpa using hrev⟩⟩)
  · simp only [logoutStep, Option.some.injEq] at h
    cases p <;> simp only [RevokePc.step, Prod.mk.injEq] at h <;> obtain ⟨rfl, rfl⟩ := h
    · exact .inr (.inl ⟨_, rfl⟩)
    · exact .inr (.inl ⟨_, rfl⟩)
    · exact .inr (.inr ⟨_, rfl, fun _ => Store.spent_revoke hr⟩)
  · cases h

/-- Call `j` is a `logout` by the owner of a known token. -/
structure LoggingOut (j : Nat) (t userId : String) (s : System) : Prop where
  owned : ∃ r, s.store.token t = some r ∧ r.userId = userId
  call : ∃ x, s.procs[j]? = some x ∧ x.call = .logout t userId ∧ Leaving s.store t x.pc

theorem owned_grows {l : Lbl} {userId : String} (hst : Steps cfg s l s')
    (h : ∃ r, s.store.token t = some r ∧ r.userId = userId) :
    ∃ r, s'.store.token t = some r ∧ r.userId = userId := by
  obtain ⟨r, hr, ho⟩ := h
  rcases hst.token hr with hsame | ⟨-, -, -, -, -, -, -, hrev⟩
  · exact ⟨r, hsame, ho⟩
  · exact ⟨_, hrev, ho⟩

theorem LoggingOut.step {j : Nat} {userId : String} {l : Lbl} (h : s.LoggingOut j t userId)
    (hst : s.step cfg verifyPassword l = some s') : s'.LoggingOut j t userId := by
  have hsteps := steps_of_step hst
  have hg := hsteps.grows
  obtain ⟨r, hr, ho⟩ := h.owned
  refine ⟨owned_grows hsteps h.owned, ?_⟩
  obtain ⟨x, hx, hc, hleave⟩ := h.call
  -- a step that is not the call's own leaves it where it is
  have hkept {ps : List Proc} (hps : ps[j]? = some x) : ∃ x, ps[j]? = some x ∧
      x.call = .logout t userId ∧ Leaving s'.store t x.pc :=
    ⟨x, hps, hc, hleave.grows hg⟩
  cases l with
  | call c =>
    simp only [System.step, Option.some.injEq] at hst
    subst hst
    exact hkept (Procs.spawn_old hx)
  | tick d =>
    simp only [System.step, Option.some.injEq] at hst
    subst hst
    exact hkept hx
  | forget u =>
    simp only [System.step, Option.some.injEq] at hst
    subst hst
    exact hkept hx
  | crash i =>
    simp only [System.step] at hst
    split at hst
    · rename_i y hy
      simp only [Option.some.injEq] at hst
      subst hst
      by_cases hij : i = j
      · subst hij
        obtain rfl : x = y := by simpa [hx] using hy
        exact ⟨_, Procs.set_self hx, hc, hleave⟩
      · exact hkept (by rw [List.getElem?_set_ne hij]; exact hx)
    · cases hst
  | next i uuid o =>
    simp only [System.step] at hst
    split at hst
    · rename_i y hy
      split at hst
      · simp only [Option.map_eq_some_iff] at hst
        obtain ⟨⟨s₁, pc'⟩, hop, rfl⟩ := hst
        by_cases hij : i = j
        · subst hij
          obtain rfl : x = y := by simpa [hx] using hy
          refine ⟨_, Procs.set_self hx, hc, ?_⟩
          rw [hc] at hop
          cases o with
          | ok => exact leaving_moves hr ho hop hleave
          | failed => exact .inr (.inr ⟨_, rfl, by simp⟩)
          | lost => exact .inr (.inr ⟨_, rfl, by simp⟩)
        · exact hkept (by rw [List.getElem?_set_ne hij]; exact hx)
      · cases hst
    · cases hst

/-- `logout` calls of the owner that are answered with 204 leave the token spent. -/
theorem LoggingOut.run {j : Nat} {userId : String} {ls : List Lbl}
    (hr : (lts cfg verifyPassword).Run s ls s') (h : s.LoggingOut j t userId) :
    s'.LoggingOut j t userId := by
  induction hr with
  | nil => exact h
  | cons hst _ ih => exact ih (h.step hst)

end

/-! ## The result -/

/-- The token has been given up: a `refresh` of it has returned a pair, or a `logout` of it has been
answered with 204 whose caller was its owner, at some moment before that call read the row. -/
inductive GivenUp (cfg : Settings) (verifyPassword : String → String → Bool) (t : String) (s : System) :
    Prop
  | refreshed {j : Nat} {x : Proc} {p : TokenResponse} (hx : s.procs[j]? = some x)
      (hc : x.call = .refresh t) (hd : x.pc = .done (.pair p))
  | loggedOut {s₁ : System} {ls : List Lbl} {j : Nat} {x₁ x : Proc} {row : RefreshToken}
      (hrow : s₁.store.token t = some row) (hx₁ : s₁.procs[j]? = some x₁)
      (hc : x₁.call = .logout t row.userId) (hpc : x₁.pc = .row)
      (hrun : (lts cfg verifyPassword).Run s₁ ls s) (hx : s.procs[j]? = some x)
      (hd : x.pc = .done .noContent)

theorem GivenUp.spent {cfg : Settings} {verifyPassword : String → String → Bool} {t : String}
    {s : System} (h : GivenUp cfg verifyPassword t s) (hs : (lts cfg verifyPassword).Reachable s) :
    s.store.Spent t := by
  cases h with
  | refreshed hx hc hd =>
    have hb := (backed_local cfg).reachable hs _ (List.mem_of_getElem? hx)
    exact hb.spent t (won_of_pair hc hd)
  | @loggedOut s₁ ls j x₁ x row hrow hx₁ hc hpc hrun hx hd =>
    have h₁ : s₁.LoggingOut j t row.userId := ⟨⟨row, hrow, rfl⟩, x₁, hx₁, hc, .inl hpc⟩
    obtain ⟨y, hy, -, hleave⟩ := (h₁.run hrun).call
    obtain rfl : x = y := by simpa [hx] using hy
    rcases hleave with hl | ⟨p, hl⟩ | ⟨a, hl, ha⟩
    · simp [hd] at hl
    · simp [hd] at hl
    · simp only [hd, Pc.done.injEq] at hl
      exact ha hl.symm

theorem refused_later {cfg : Settings} {verifyPassword : String → String → Bool} {t : String}
    {s s' : System} {ls : List Lbl} {i : Nat} {x : Proc} (hs : (lts cfg verifyPassword).Reachable s)
    (hg : GivenUp cfg verifyPassword t s) (hrun : (lts cfg verifyPassword).Run s ls s')
    (hi : s.procs.length ≤ i) (hok : ∀ uuid o, .next i uuid o ∈ ls → o = .ok)
    (hx : s'.procs[i]? = some x) (hc : x.call = .refresh t) : Refused x.pc := by
  have hnew : s.procs[i]? = none := List.getElem?_eq_none hi
  have hlate : s.Late i t := ⟨hg.spent hs, by simp [hnew]⟩
  exact (hlate.run hrun hok).refused x hx hc

/-- **Revocation is permanent.** Once a token is given up, a `refresh` of it that is called later, and
none of whose own operations raises, gets no further than the read of its row and is answered with
401. No step changes a token other than the one that the call presents which makes the step, and a
step that changes a token revokes it. -/
theorem revocation_permanent (cfg : Settings) (verifyPassword : String → String → Bool) :
    (∀ (t : String) (s s' : System) (ls : List Lbl) (i : Nat) (x : Proc),
      (lts cfg verifyPassword).Reachable s → GivenUp cfg verifyPassword t s →
      (lts cfg verifyPassword).Run s ls s' → s.procs.length ≤ i →
      (∀ uuid o, .next i uuid o ∈ ls → o = .ok) → s'.procs[i]? = some x → x.call = .refresh t →
      x.pc = .exists ∨ x.pc = .row ∨
        ∃ e, x.pc = .done (.error e) ∧ e.code = "INVALID_TOKEN" ∧ e.status = 401) ∧
    ∀ (s s' : System) (l : Lbl) (t : String) (r : RefreshToken),
      s.step cfg verifyPassword l = some s' → s.store.token t = some r →
      s'.store.token t = some r ∨
        ∃ i uuid o x, l = .next i uuid o ∧ s.procs[i]? = some x ∧ x.call.presents = some t ∧
          s'.store.token t = some { r with revoked := true } := by
  constructor
  · intro t s s' ls i x hs hg hrun hi hok hx hc
    rcases refused_later hs hg hrun hi hok hx hc with h | h | h | h
    · exact .inl h
    · exact .inr (.inl h)
    · exact .inr (.inr ⟨_, h, rfl, rfl⟩)
    · exact .inr (.inr ⟨_, h, rfl, rfl⟩)
  · intro s s' l t r hst hr
    exact (steps_of_step hst).token hr

def ada : User := ⟨"8c0f0b1e-0f5c-4b57-9d0e-5d7a3b1c2f10", "ada@example.com", "$2b$12$hash"⟩

/-- One user with one session. -/
def oneSession : System where
  store := ⟨[ada], [{ tokenId := "T", userId := ada.id, expiresAt := 1209600 }], fun _ => false⟩
  procs := []
  clock := 0

/-- `n` operations of call `i`. -/
def steps (i : Nat) (uuid : String) (n : Nat) : List Lbl := List.replicate n (.next i uuid .ok)

/-- The blacklist entry of the exchanged token is lost before it is presented again. -/
def presentedAgain : List Lbl := [.forget "T", .call (.refresh "T")] ++ steps 1 "B" 2

theorem revocation_permanent_presentedAgain :
    (∃ s x, (lts {} (fun _ _ => true)).Reachable s ∧ s.procs[1]? = some x ∧ x.call = .refresh "T" ∧
      (x.pc = .exists ∨ x.pc = .row ∨
        ∃ e, x.pc = .done (.error e) ∧ e.code = "INVALID_TOKEN" ∧ e.status = 401)) ∧
    ∃ s r, System.step {} (fun _ _ => true) oneSession (.tick 1) = some s ∧
      (s.store.token "T" = some r ∨
        ∃ i uuid o x, Lbl.tick 1 = .next i uuid o ∧ oneSession.procs[i]? = some x ∧
          x.call.presents = some "T" ∧ s.store.token "T" = some { r with revoked := true }) := by
  have hp := revocation_permanent {} fun _ _ => true
  constructor
  · let x : Proc := ⟨.refresh "T", .done (.pair ⟨⟨ada.id, ada.email⟩, "A", 900⟩), true⟩
    let y : Proc := ⟨.refresh "T", .done (.error tokenInvalid), true⟩
    obtain ⟨s, hr, hs⟩ : ∃ s, (lts {} (fun _ _ => true)).Reachable s ∧
        (decide (s.procs = [x]) &&
          (LTS.exec (System.step {} fun _ _ => true) s presentedAgain).any
            fun s' => decide (s'.procs = [x, y])) = true :=
      LTS.reachable_of_exec ([.call (.refresh "T")] ++ steps 0 "A" 10) (s := oneSession) rfl
        (by decide +kernel)
    simp only [Bool.and_eq_true, decide_eq_true_eq] at hs
    obtain ⟨hprocs, hlater⟩ := hs
    obtain ⟨s', hrun, hs'⟩ : ∃ s', (lts {} fun _ _ => true).Run s presentedAgain s' ∧
        decide (s'.procs = [x, y]) = true := LTS.exists_run_of_exec _ hlater
    have hprocs' : s'.procs = [x, y] := of_decide_eq_true hs'
    have hy : s'.procs[1]? = some y := by rw [hprocs']; rfl
    have hgiven : GivenUp {} (fun _ _ => true) "T" s :=
      .refreshed (j := 0) (x := x) (by rw [hprocs]; rfl) rfl rfl
    have hlen : s.procs.length ≤ 1 := by rw [hprocs]; decide
    have hok : ∀ uuid o, Lbl.next 1 uuid o ∈ presentedAgain → o = .ok := by
      simp [presentedAgain, steps, List.replicate]
    exact ⟨s', y, hr.run hrun, hy, rfl, hp.1 "T" s s' presentedAgain 1 y hr hgiven hrun hlen hok hy rfl⟩
  · exact ⟨_, _, rfl, hp.2 oneSession _ (.tick 1) "T" _ rfl rfl⟩

end System
end Gestalt.Auth
