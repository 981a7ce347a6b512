import Gestalt.L3Auth.Revocation

/-!
# Whose session it is

A session is a chain of refresh tokens: `login` opens it, every `refresh` answers with the
next. `System.sessions_kept`, of every history of `login`, `refresh` and `logout` calls:

* the tokens a `login` returns are those of the user with its e-mail, whose password it knew;
* a `refresh` returns tokens of the user its own token belongs to, with his e-mail;
* every refresh token there is goes back to a `login` with the right password, or to a token
  that was there before.

A token's owner never changes, and a row is inserted under an id that is free (`Pending`).
The `users` table is only read.
-/
namespace Gestalt.Auth

variable {cfg : Settings} {verifyPassword : String → String → Bool} {now : Nat} {uuid : String}

/-! ## Owners -/

/-- The refresh token is the user's. -/
def Store.Owns (s : Store) (t userId : String) : Prop := ∃ r, s.token t = some r ∧ r.userId = userId

/-- The user of that e-mail, and the password is his. -/
def Store.Authentic (verifyPassword : String → String → Bool) (s : Store) (email password : String)
    (u : User) : Prop :=
  (s.users.find? fun u => u.email = email) = some u ∧ verifyPassword password u.passwordHash = true

/-- What `_issue_tokens` works on belongs to the user. -/
def IssuePc.Of (s : Store) (u : User) : IssuePc → Prop
  | .insert user => user = u
  | .commit user row => user = u ∧ row.userId = u.id
  | .readBack user tokenId => user = u ∧ s.Owns tokenId u.id

/-- A pair of tokens of the user. -/
def TokenResponse.Of (s : Store) (u : User) (t : TokenResponse) : Prop :=
  t.accessToken = ⟨u.id, u.email⟩ ∧ s.Owns t.refreshToken u.id

/-- Whose tokens a call is about, by where it is. -/
def Pc.Traced (verifyPassword : String → String → Bool) (s : Store) : Call → Pc → Prop
  | .login email password, .issue pc => ∃ u, s.Authentic verifyPassword email password u ∧ pc.Of s u
  | .login email password, .done (.pair t) =>
    ∃ u, s.Authentic verifyPassword email password u ∧ t.Of s u
  | .login _ _, .revoke _ _ => False
  | .refresh t, .user found _ => s.Owns t found.userId
  | .refresh t, .revoke next _ => ∃ u, next = some u ∧ s.Owns t u.id
  | .refresh t, .reload u => s.Owns t u.id
  | .refresh t, .issue pc => ∃ u, s.user u.id = some u ∧ s.Owns t u.id ∧ pc.Of s u
  | .refresh t, .done (.pair pair) => ∃ u, s.user u.id = some u ∧ s.Owns t u.id ∧ pair.Of s u
  | .logout _ _, .revoke next _ => next = none
  | .logout _ _, .issue _ => False
  | .logout _ _, .done (.pair _) => False
  | _, _ => True

/-- No owner changes, and no user. -/
structure Store.Keeps (s s' : Store) : Prop where
  users : s'.users = s.users
  owns : ∀ t u, s.Owns t u → s'.Owns t u

theorem Store.Keeps.refl (s : Store) : s.Keeps s := ⟨rfl, fun _ _ => id⟩

theorem Store.Keeps.authentic {s s' : Store} (h : s.Keeps s') {email password : String} {u : User}
    (ha : s.Authentic verifyPassword email password u) :
    s'.Authentic verifyPassword email password u := by
  unfold Authentic at ha ⊢
  rwa [h.users]

theorem Store.Keeps.user {s s' : Store} (h : s.Keeps s') {id : String} {u : User} (hu : s.user id = some u) :
    s'.user id = some u := by
  unfold Store.user at hu ⊢
  rwa [h.users]

theorem IssuePc.Of.keeps {s s' : Store} (h : s.Keeps s') {u : User} {pc : IssuePc} (hp : pc.Of s u) :
    pc.Of s' u := by
  cases pc with
  | insert user => exact hp
  | commit user row => exact hp
  | readBack user tokenId => exact ⟨hp.1, h.owns _ _ hp.2⟩

theorem TokenResponse.Of.keeps {s s' : Store} (h : s.Keeps s') {u : User} {t : TokenResponse}
    (ht : t.Of s u) : t.Of s' u :=
  ⟨ht.1, h.owns _ _ ht.2⟩

theorem Pc.Traced.keeps {s s' : Store} (h : s.Keeps s') {call : Call} {pc : Pc}
    (ht : pc.Traced verifyPassword s call) : pc.Traced verifyPassword s' call := by
  unfold Traced at ht ⊢
  split at ht
  · exact ht.imp fun u hu => ⟨h.authentic hu.1, hu.2.keeps h⟩
  · exact ht.imp fun u hu => ⟨h.authentic hu.1, hu.2.keeps h⟩
  · exact ht
  · exact h.owns _ _ ht
  · exact ht.imp fun u hu => ⟨hu.1, h.owns _ _ hu.2⟩
  · exact h.owns _ _ ht
  · exact ht.imp fun u ⟨hu, hown, hp⟩ => ⟨h.user hu, h.owns _ _ hown, hp.keeps h⟩
  · exact ht.imp fun u ⟨hu, hown, hp⟩ => ⟨h.user hu, h.owns _ _ hown, hp.keeps h⟩
  · exact ht
  · exact ht
  · exact ht
  · trivial

/-! ## One operation -/

theorem Store.keeps_revoke (s : Store) (t : String) : s.Keeps (s.revoke t) := by
  refine ⟨rfl, ?_⟩
  rintro x u ⟨r, hr, hu⟩
  by_cases hx : x = t
  · exact ⟨{ r with revoked := true }, by rw [token_revoke, if_pos hx, hr]; rfl, hu⟩
  · exact ⟨r, by rw [token_revoke, if_neg hx, hr], hu⟩

theorem Store.keeps_blacklistAdd (s : Store) (t : String) (ttl : Int) : s.Keeps (s.blacklistAdd t ttl) := by
  refine ⟨?_, fun x u ⟨r, hr, hu⟩ => ⟨r, (s.blacklistAdd_token t x ttl).trans hr, hu⟩⟩
  unfold blacklistAdd
  split <;> rfl

/-- INSERT under an id that is free. -/
theorem Store.keeps_append {s : Store} {row : RefreshToken} (h : s.token row.tokenId = none) :
    s.Keeps { s with tokens := s.tokens ++ [row] } ∧
      ({ s with tokens := s.tokens ++ [row] } : Store).Owns row.tokenId row.userId := by
  have hget : ∀ t, ({ s with tokens := s.tokens ++ [row] } : Store).token t =
      if t = row.tokenId then some row else s.token t := fun t => Table.get_append h t
  refine ⟨⟨rfl, ?_⟩, row, by rw [hget, if_pos rfl], rfl⟩
  rintro t u ⟨r, hr, hu⟩
  have hne : t ≠ row.tokenId := by
    rintro rfl
    rw [h] at hr
    cases hr
  exact ⟨r, by rw [hget, if_neg hne, hr], hu⟩

/-- The row it is about to commit has an id that is free. -/
def Pc.Free (s : Store) (pc : Pc) : Prop :=
  ∀ user row, pc = .issue (.commit user row) → s.token row.tokenId = none

theorem issue_traced {s s' : Store} {pc : IssuePc} {pc' : Pc} {u : User}
    (h : pc.step cfg now uuid s = (s', pc')) (hp : pc.Of s u) (hfree : Pc.Free s (.issue pc)) :
    s.Keeps s' ∧ ((∃ p, pc' = .issue p ∧ p.Of s' u) ∨ ∃ t, pc' = .done (.pair t) ∧ t.Of s' u) := by
  cases pc <;> simp only [IssuePc.step, Prod.mk.injEq] at h <;> obtain ⟨rfl, rfl⟩ := h
  case insert user =>
    obtain rfl := hp
    exact ⟨.refl s, .inl ⟨_, rfl, rfl, rfl⟩⟩
  case commit user row =>
    obtain ⟨rfl, hrow⟩ := hp
    obtain ⟨hk, hown⟩ := Store.keeps_append (hfree user row rfl)
    exact ⟨hk, .inl ⟨_, rfl, rfl, hrow ▸ hown⟩⟩
  case readBack user tokenId =>
    obtain ⟨rfl, hown⟩ := hp
    exact ⟨.refl s, .inr ⟨_, rfl, rfl, hown⟩⟩

theorem revoke_traced {s s' : Store} {t : String} {next : Option User} {pc : RevokePc} {pc' : Pc}
    (h : pc.step t next s = (s', pc')) :
    s.Keeps s' ∧ ((∃ p, pc' = .revoke next p) ∨ (∃ u, next = some u ∧ pc' = .reload u) ∨
      (next = none ∧ pc' = .done .noContent)) := by
  cases pc <;> simp only [RevokePc.step, Prod.mk.injEq] at h <;> obtain ⟨rfl, rfl⟩ := h
  case blacklist ttl => exact ⟨s.keeps_blacklistAdd t ttl, .inl ⟨_, rfl⟩⟩
  case update => exact ⟨.refl s, .inl ⟨_, rfl⟩⟩
  case commit =>
    refine ⟨s.keeps_revoke t, .inr ?_⟩
    cases next with
    | some u => exact .inl ⟨u, rfl, rfl⟩
    | none => exact .inr ⟨rfl, rfl⟩

theorem login_traced {s s' : Store} {email password : String} {pc pc' : Pc}
    (h : loginStep cfg verifyPassword now uuid s email password pc = some (s', pc'))
    (ht : pc.Traced verifyPassword s (.login email password)) (hfree : pc.Free s) :
    s.Keeps s' ∧ pc'.Traced verifyPassword s' (.login email password) := by
  unfold loginStep at h
  split at h
  · split at h
    · obtain ⟨rfl, rfl⟩ := Prod.mk.inj (Option.some.inj h)
      exact ⟨.refl s, trivial⟩
    · rename_i user huser
      split at h <;> obtain ⟨rfl, rfl⟩ := Prod.mk.inj (Option.some.inj h)
      · rename_i hok
        exact ⟨.refl s, user, ⟨huser, hok⟩, rfl⟩
      · exact ⟨.refl s, trivial⟩
  · obtain ⟨u, hu, hp⟩ := ht
    obtain ⟨hk, ⟨p, rfl, hp'⟩ | ⟨t, rfl, ht'⟩⟩ := issue_traced (Option.some.inj h) hp hfree
    · exact ⟨hk, u, hk.authentic hu, hp'⟩
    · exact ⟨hk, u, hk.authentic hu, ht'⟩
  · cases h

theorem Store.user_id {s : Store} {id : String} {u : User} (h : s.user id = some u) : u.id = id :=
  (Table.get_some h).2

theorem refresh_traced {s s' : Store} {t : String} {pc pc' : Pc}
    (h : refreshStep cfg now uuid s t pc = some (s', pc'))
    (ht : pc.Traced verifyPassword s (.refresh t)) (hfree : pc.Free s) :
    s.Keeps s' ∧ pc'.Traced verifyPassword s' (.refresh t) := by
  unfold refreshStep at h
  split at h
  case h_1 =>
    obtain ⟨rfl, rfl⟩ := Prod.mk.inj (Option.some.inj h)
    refine ⟨.refl s, ?_⟩
    split <;> trivial
  case h_2 =>
    split at h
    · obtain ⟨rfl, rfl⟩ := Prod.mk.inj (Option.some.inj h)
      exact ⟨.refl s, trivial⟩
    · rename_i row hrow
      split at h <;> obtain ⟨rfl, rfl⟩ := Prod.mk.inj (Option.some.inj h)
      · exact ⟨.refl s, trivial⟩
      · exact ⟨.refl s, row, hrow, rfl⟩
  case h_3 =>
    split at h
    · obtain ⟨rfl, rfl⟩ := Prod.mk.inj (Option.some.inj h)
      exact ⟨.refl s, trivial⟩
    · rename_i user huser
      obtain ⟨rfl, rfl⟩ := Prod.mk.inj (Option.some.inj h)
      have hown : s.Owns t user.id := by rw [Store.user_id huser]; exact ht
      exact ⟨.refl s, user, rfl, hown⟩
  case h_4 =>
    obtain ⟨u, rfl, hown⟩ := ht
    obtain ⟨hk, ⟨p, rfl⟩ | ⟨v, hv, rfl⟩ | ⟨hn, -⟩⟩ := revoke_traced (Option.some.inj h)
    · exact ⟨hk, u, rfl, hk.owns _ _ hown⟩
    · obtain rfl := Option.some.inj hv
      exact ⟨hk, hk.owns _ _ hown⟩
    · cases hn
  case h_5 =>
    split at h
    · obtain ⟨rfl, rfl⟩ := Prod.mk.inj (Option.some.inj h)
      exact ⟨.refl s, trivial⟩
    · rename_i user user' huser
      obtain ⟨rfl, rfl⟩ := Prod.mk.inj (Option.some.inj h)
      have hown : s.Owns t user'.id := by rw [Store.user_id huser]; exact ht
      exact ⟨.refl s, user', (Store.user_id huser).symm ▸ huser, hown, rfl⟩
  case h_6 =>
    obtain ⟨u, hu, hown, hp⟩ := ht
    obtain ⟨hk, ⟨p, rfl, hp'⟩ | ⟨pair, rfl, ht'⟩⟩ := issue_traced (Option.some.inj h) hp hfree
    · exact ⟨hk, u, hk.user hu, hk.owns _ _ hown, hp'⟩
    · exact ⟨hk, u, hk.user hu, hk.owns _ _ hown, ht'⟩
  case h_7 => cases h

theorem logout_traced {s s' : Store} {t userId : String} {pc pc' : Pc}
    (h : logoutStep now s t userId pc = some (s', pc'))
    (ht : pc.Traced verifyPassword s (.logout t userId)) :
    s.Keeps s' ∧ pc'.Traced verifyPassword s' (.logout t userId) := by
  unfold logoutStep at h
  split at h
  · split at h
    · obtain ⟨rfl, rfl⟩ := Prod.mk.inj (Option.some.inj h)
      exact ⟨.refl s, trivial⟩
    · split at h <;> obtain ⟨rfl, rfl⟩ := Prod.mk.inj (Option.some.inj h)
      · exact ⟨.refl s, rfl⟩
      · exact ⟨.refl s, trivial⟩
  · obtain rfl : _ = none := ht
    obtain ⟨hk, ⟨p, rfl⟩ | ⟨v, hv, -⟩ | ⟨-, rfl⟩⟩ := revoke_traced (Option.some.inj h)
    · exact ⟨hk, rfl⟩
    · cases hv
    · exact ⟨hk, trivial⟩
  · cases h

/-- An operation keeps the owners, and a call at its own user's tokens. -/
theorem step_traced {s s' : Store} {call : Call} {pc pc' : Pc}
    (h : call.step cfg verifyPassword now uuid s pc = some (s', pc'))
    (ht : pc.Traced verifyPassword s call) (hfree : pc.Free s) :
    s.Keeps s' ∧ pc'.Traced verifyPassword s' call := by
  cases call with
  | login email password => exact login_traced h ht hfree
  | refresh t => exact refresh_traced h ht hfree
  | logout t userId => exact logout_traced h ht

/-! ## New rows -/

section
variable {s s' : Store} {call : Call} {pc pc' : Pc}

/-- Who owns a token afterwards owned it before, or the operation commits a row of his. -/
theorem Moves.owns_back (h : Moves cfg now uuid s call pc s' pc') {t u : String} (ho : s'.Owns t u) :
    s.Owns t u ∨ ∃ user row, pc = .issue (.commit user row) ∧ row.userId = u := by
  cases h with
  | revoke hc hst =>
    rename_i x next p
    cases p <;> simp only [RevokePc.step, Prod.mk.injEq] at hst <;> obtain ⟨rfl, -⟩ := hst
    case blacklist ttl =>
      obtain ⟨r, hr, hu⟩ := ho
      exact .inl ⟨r, (s.blacklistAdd_token x t ttl).symm.trans hr, hu⟩
    case update => exact .inl ho
    case commit =>
      obtain ⟨r, hr, hu⟩ := ho
      rw [Store.token_revoke] at hr
      split at hr
      · obtain ⟨r₀, hr₀, rfl⟩ := Option.map_eq_some_iff.mp hr
        exact .inl ⟨r₀, hr₀, hu⟩
      · exact .inl ⟨r, hr, hu⟩
  | issue hst =>
    rename_i p
    cases p <;> simp only [IssuePc.step, Prod.mk.injEq] at hst <;> obtain ⟨rfl, -⟩ := hst
    case insert user => exact .inl ho
    case readBack user tokenId => exact .inl ho
    case commit user row =>
      obtain ⟨r, hr, rfl⟩ := ho
      simp only [Store.token, Table.get, List.find?_append, Option.or_eq_some_iff] at hr
      rcases hr with hr | ⟨-, hr⟩
      · exact .inl ⟨r, hr, rfl⟩
      · obtain rfl := List.mem_singleton.mp (List.mem_of_find?_eq_some hr)
        exact .inr ⟨user, r, rfl, rfl⟩
  | _ => exact .inl ho

/-- An id that is free stays so, unless the operation commits a row of that id. -/
theorem Moves.token_none (h : Moves cfg now uuid s call pc s' pc') {t : String} (hn : s.token t = none) :
    s'.token t = none ∨ ∃ user row, pc = .issue (.commit user row) ∧ row.tokenId = t := by
  cases h with
  | revoke hc hst =>
    rename_i x next p
    cases p <;> simp only [RevokePc.step, Prod.mk.injEq] at hst <;> obtain ⟨rfl, -⟩ := hst
    case blacklist ttl => exact .inl ((s.blacklistAdd_token x t ttl).trans hn)
    case update => exact .inl hn
    case commit =>
      rw [Store.token_revoke, hn]
      split <;> exact .inl rfl
  | issue hst =>
    rename_i p
    cases p <;> simp only [IssuePc.step, Prod.mk.injEq] at hst <;> obtain ⟨rfl, -⟩ := hst
    case insert user => exact .inl hn
    case readBack user tokenId => exact .inl hn
    case commit user row =>
      by_cases ht : row.tokenId = t
      · exact .inr ⟨user, row, rfl, ht⟩
      · left
        simp only [Store.token, Table.get, List.find?_append] at hn ⊢
        simp [hn, ht]
  | _ => exact .inl hn

/-- A row is prepared by an INSERT, under the id that is drawn. -/
theorem Moves.inserts (h : Moves cfg now uuid s call pc s' pc') {user : User} {row : RefreshToken}
    (hpc : pc' = .issue (.commit user row)) :
    s' = s ∧ row.tokenId = uuid ∧ ∃ user, pc = .issue (.insert user) := by
  cases h with
  | revoke hc hst =>
    rename_i x next p
    subst hpc
    cases p <;> simp only [RevokePc.step, Prod.mk.injEq] at hst <;> obtain ⟨rfl, hst⟩ := hst
    case commit => cases next <;> cases hst
    all_goals cases hst
  | issue hst =>
    rename_i p
    subst hpc
    cases p <;> simp only [IssuePc.step, Prod.mk.injEq] at hst <;> obtain ⟨rfl, hst⟩ := hst
    case insert u =>
      cases hst
      exact ⟨rfl, rfl, _, rfl⟩
    all_goals cases hst
  | _ => cases hpc

end

/-! ## Every history -/

namespace System

/-- He had a token at first, or somebody has logged in with his password. -/
def Origin (verifyPassword : String → String → Bool) (s₀ : Store) (s : System) (userId : String) : Prop :=
  (∃ t, s₀.Owns t userId) ∨ ∃ x ∈ s.procs, ∃ email password u, x.call = .login email password ∧
    s.store.Authentic verifyPassword email password u ∧ u.id = userId

structure Chain (verifyPassword : String → String → Bool) (s₀ : Store) (s : System) : Prop where
  traced : ∀ x ∈ s.procs, x.pc.Traced verifyPassword s.store x.call
  free : ∀ x ∈ s.procs, x.pc.Free s.store
  sole : Procs.Sole Proc.inserts s.procs
  origin : ∀ t u, s.store.Owns t u → s.Origin verifyPassword s₀ u

variable {s₀ : Store} {s s' : System}

theorem Origin.mono {u : String} (h : s.Origin verifyPassword s₀ u) (hk : s.store.Keeps s'.store)
    (hc : ∀ x ∈ s.procs, ∃ y ∈ s'.procs, y.call = x.call) : s'.Origin verifyPassword s₀ u := by
  rcases h with h | ⟨x, hx, email, password, v, hxc, hv, hu⟩
  · exact .inl h
  · obtain ⟨y, hy, hyc⟩ := hc x hx
    exact .inr ⟨y, hy, email, password, v, hyc.trans hxc, hk.authentic hv, hu⟩

theorem inserts_eq {x : Proc} {k : String} (h : x.inserts = some k) :
    ∃ user row, x.pc = .issue (.commit user row) ∧ row.tokenId = k := by
  unfold Proc.inserts at h
  split at h
  · exact ⟨_, _, ‹_›, Option.some.inj h⟩
  · cases h

/-- One call goes on, and the tokens stay in order. -/
theorem chain_set {i : Nat} {x x' : Proc} {st : Store} (hI : Chain verifyPassword s₀ s)
    (hx : s.procs[i]? = some x) (hc : x'.call = x.call) (hk : s.store.Keeps st)
    (ht : x'.pc.Traced verifyPassword st x'.call) (hfree : x'.pc.Free st)
    (hins : ∀ k, x'.inserts = some k → x.inserts = some k ∨ ∀ y ∈ s.procs, y.inserts ≠ some k)
    (hother : ∀ j y, j ≠ i → s.procs[j]? = some y → y.pc.Free st)
    (hown : ∀ t u, st.Owns t u → s.store.Owns t u ∨ s.Origin verifyPassword s₀ u) :
    Chain verifyPassword s₀ { s with store := st, procs := s.procs.set i x' } := by
  have hcalls : ∀ y ∈ s.procs, ∃ z ∈ s.procs.set i x', z.call = y.call := by
    intro y hy
    obtain ⟨z, hz, hzc⟩ := Procs.holder_set (f := fun z => some z.call) (a := x') (k := y.call) hx
      (fun h => by simpa [hc] using h) ⟨y, hy, rfl⟩
    exact ⟨z, hz, Option.some.inj hzc⟩
  refine ⟨fun y hy => ?_, fun y hy => ?_, hI.sole.set hx hins, fun t u ho => ?_⟩
  · rcases List.mem_or_eq_of_mem_set hy with hy | rfl
    · exact (hI.traced y hy).keeps hk
    · exact ht
  · obtain ⟨j, hj⟩ := List.mem_iff_getElem?.mp hy
    rcases Procs.set_cases hx hj with ⟨-, rfl⟩ | ⟨hji, hj⟩
    · exact hfree
    · exact hother j y hji hj
  · rcases hown t u ho with ho | ho
    · exact (hI.origin t u ho).mono hk hcalls
    · exact ho.mono hk hcalls

theorem chain_next {i : Nat} {uuid : String} {x : Proc} {st : Store} {pc' : Pc} {o : Outcome}
    (hI : Chain verifyPassword s₀ s) (hx : s.procs[i]? = some x) (hf : s.fresh x uuid = true)
    (hst : x.call.step cfg verifyPassword s.clock uuid s.store x.pc = some (st, pc')) :
    Chain verifyPassword s₀ { s with
      store := (settle s.store (st, pc') o).1
      procs := s.procs.set i { x with pc := (settle s.store (st, pc') o).2 } } := by
  have hx' := List.mem_of_getElem? hx
  have hm := moves_of_step hst
  obtain ⟨hk, ht⟩ := step_traced hst (hI.traced x hx') (hI.free x hx')
  -- the id of a row about to be committed is another's than this call's
  have hother : ∀ j y, j ≠ i → s.procs[j]? = some y → y.pc.Free st := by
    intro j y hji hy user row hpc
    rcases hm.token_none (hI.free y (List.mem_of_getElem? hy) user row hpc) with hn | ⟨user', row', hxpc, hid⟩
    · exact hn
    · have hyi : y.inserts = some row.tokenId := by simp [Proc.inserts, hpc]
      have hxi : x.inserts = some row.tokenId := by simp [Proc.inserts, hxpc, hid]
      exact absurd (hI.sole j i y x _ hy hx hyi hxi) hji
  have hown : ∀ t u, st.Owns t u → s.store.Owns t u ∨ s.Origin verifyPassword s₀ u := by
    intro t u ho
    rcases hm.owns_back ho with ho | ⟨user, row, hpc, rfl⟩
    · exact .inl ho
    · have htx := hI.traced x hx'
      rw [hpc] at htx
      cases hcall : x.call with
      | login email password =>
        rw [hcall] at htx
        obtain ⟨v, hv, -, hrow⟩ := htx
        exact .inr (.inr ⟨x, hx', email, password, v, hcall, hv, hrow.symm⟩)
      | refresh t' =>
        rw [hcall] at htx
        obtain ⟨v, -, hv, -, hrow⟩ := htx
        rw [hrow]
        exact .inr (hI.origin t' v.id hv)
      | logout t' userId =>
        rw [hcall] at htx
        exact htx.elim
  have hraised : Pc.Traced verifyPassword st x.call (.done (.error internalError)) ∧
      Pc.Traced verifyPassword s.store x.call (.done (.error internalError)) := by
    cases x.call <;> exact ⟨trivial, trivial⟩
  cases o with
  | ok =>
    refine chain_set hI hx rfl hk ht ?_ ?_ hother hown
    · intro user row hpc
      obtain ⟨rfl, hid, user', hxpc⟩ := hm.inserts hpc
      simp only [fresh, hxpc, Bool.and_eq_true, Option.isNone_iff_eq_none] at hf
      rw [hid]
      exact hf.1
    · intro k hins
      obtain ⟨user, row, hpc, rfl⟩ := inserts_eq hins
      obtain ⟨-, hid, user', hxpc⟩ := hm.inserts hpc
      simp only [fresh, hxpc, Bool.and_eq_true, List.all_eq_true, decide_eq_true_eq] at hf
      rw [hid]
      exact .inr hf.2
  | failed =>
    exact chain_set hI hx rfl (.refl _) hraised.2 nofun nofun
      (fun j y _ hy => hI.free y (List.mem_of_getElem? hy)) fun _ _ => .inl
  | lost => exact chain_set hI hx rfl hk hraised.1 nofun nofun hother hown

theorem chain_step {l : Lbl} (h : s.step cfg verifyPassword l = some s')
    (hI : Chain verifyPassword s₀ s) : Chain verifyPassword s₀ s' := by
  cases l with
  | call call =>
    obtain rfl := Option.some.inj h
    have hmem {x : Proc} (hx : x ∈ s.procs ++ [({ call, pc := call.entry } : Proc)]) :
        x ∈ s.procs ∨ x = { call, pc := call.entry } := by simpa using hx
    have hentry : call.entry.Traced verifyPassword s.store call := by cases call <;> trivial
    refine ⟨fun x hx => ?_, fun x hx => ?_, hI.sole.spawn ?_, fun t u ho => ?_⟩
    · rcases hmem hx with hx | rfl
      · exact hI.traced x hx
      · exact hentry
    · rcases hmem hx with hx | rfl
      · exact hI.free x hx
      · intro user row hpc
        cases call <;> cases hpc
    · cases call <;> rfl
    · exact (hI.origin t u ho).mono (.refl _) fun x hx => ⟨x, List.mem_append_left _ hx, rfl⟩
  | next i uuid o =>
    simp only [step] at h
    split at h
    · rename_i x hx
      split at h
      · rename_i hok
        simp only [Bool.and_eq_true] at hok
        obtain ⟨⟨st, pc'⟩, hst, rfl⟩ := Option.map_eq_some_iff.mp h
        exact chain_next hI hx hok.2 hst
      · cases h
    · cases h
  | crash i =>
    simp only [step] at h
    split at h
    · rename_i x hx
      obtain rfl := Option.some.inj h
      have hx' := List.mem_of_getElem? hx
      exact chain_set hI hx rfl (.refl _) (hI.traced x hx') (hI.free x hx')
        (fun k hk => .inl hk) (fun j y _ hy => hI.free y (List.mem_of_getElem? hy)) fun _ _ => .inl
    · cases h
  | tick d =>
    obtain rfl := Option.some.inj h
    exact ⟨hI.traced, hI.free, hI.sole, fun t u ho => (hI.origin t u ho).mono (.refl _) fun x hx => ⟨x, hx, rfl⟩⟩
  | forget t =>
    obtain rfl := Option.some.inj h
    have hk : s.store.Keeps (s.store.forget t) := ⟨rfl, fun _ _ ho => ho⟩
    exact ⟨fun x hx => (hI.traced x hx).keeps hk, hI.free, hI.sole, fun t u ho =>
      (hI.origin t u ho).mono hk fun x hx => ⟨x, hx, rfl⟩⟩

theorem chain {ls : List Lbl} (h0 : s.procs = []) (h : (lts cfg verifyPassword).Run s ls s') :
    Chain verifyPassword s.store s' := by
  refine h.keeps (P := Chain verifyPassword s.store) (fun _ _ _ hst hI => chain_step hst hI) ?_
  refine ⟨?_, ?_, by rw [h0]; exact .nil, fun t u ho => .inl ⟨t, ho⟩⟩ <;> simp [h0]

/-- **A session stays with its user.** In every history, a `login` returns the tokens of the user with its
e-mail, and with his password; a `refresh` returns tokens of the user its own token belongs to, as the `users`
table has him; and every refresh token goes back to a `login` with its owner's password, or to a token he had at first. -/
theorem sessions_kept {ls : List Lbl} (h0 : s.procs = []) (h : (lts cfg verifyPassword).Run s ls s') :
    (∀ x ∈ s'.procs, ∀ pair, x.pc = .done (.pair pair) →
      (∃ email password u, x.call = .login email password ∧
        s'.store.Authentic verifyPassword email password u ∧ pair.Of s'.store u) ∨
      ∃ t u, x.call = .refresh t ∧ s'.store.user u.id = some u ∧ s'.store.Owns t u.id ∧
        pair.Of s'.store u) ∧
    ∀ t u, s'.store.Owns t u → s'.Origin verifyPassword s.store u := by
  have hI := chain h0 h
  refine ⟨fun x hx pair hpc => ?_, hI.origin⟩
  have ht := hI.traced x hx
  rw [hpc] at ht
  cases hcall : x.call with
  | login email password =>
    rw [hcall] at ht
    obtain ⟨u, hu, hp⟩ := ht
    exact .inl ⟨email, password, u, rfl, hu, hp⟩
  | refresh t =>
    rw [hcall] at ht
    obtain ⟨u, hu, hown, hp⟩ := ht
    exact .inr ⟨t, u, rfl, hu, hown, hp⟩
  | logout t userId =>
    rw [hcall] at ht
    exact ht.elim

/-- One user, and no token yet. -/
def oneUser : System where
  store := { users := [⟨"u1", "ada@example.org", "secret"⟩], tokens := [], blacklist := fun _ => false }
  procs := []
  clock := 0

def loginAndRefresh : List Lbl :=
  [.call (.login "ada@example.org" "secret")] ++ List.replicate 4 (.next 0 "t1" .ok) ++
  [.call (.refresh "t1")] ++ List.replicate 10 (.next 1 "t2" .ok)

theorem login_and_refresh_kept : ∃ s,
    (lts {} fun password hash => password == hash).Run oneUser loginAndRefresh s ∧
    (s.procs.any fun x => x.pc == .done (.pair ⟨⟨"u1", "ada@example.org"⟩, "t2", 900⟩)) = true ∧
    (∀ x ∈ s.procs, ∀ pair, x.pc = .done (.pair pair) →
      (∃ email password u, x.call = .login email password ∧
        s.store.Authentic (fun password hash => password == hash) email password u ∧ pair.Of s.store u) ∨
      ∃ t u, x.call = .refresh t ∧ s.store.user u.id = some u ∧ s.store.Owns t u.id ∧ pair.Of s.store u) ∧
    ∀ t u, s.store.Owns t u → s.Origin (fun password hash => password == hash) oneUser.store u := by
  obtain ⟨s, hr, hp⟩ : ∃ s,
      (lts {} fun password hash => password == hash).Run oneUser loginAndRefresh s ∧
      (s.procs.any fun x => x.pc == .done (.pair ⟨⟨"u1", "ada@example.org"⟩, "t2", 900⟩)) = true :=
    LTS.exists_run_of_exec loginAndRefresh (by decide +kernel)
  exact ⟨s, hr, hp, sessions_kept rfl hr⟩

end System
end Gestalt.Auth
