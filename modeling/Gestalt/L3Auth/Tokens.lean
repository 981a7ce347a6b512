import Gestalt.Core.LTS
import Gestalt.Core.Procs
import Gestalt.Core.Table
import Gestalt.L1Shared.Http

/-!
# auth-service: sessions

`login`, `refresh` and `logout` over the `users` and `refresh_tokens` tables and
the blacklist in Redis. A call is a sequence of single operations of the two
stores: `EXISTS` and `SET` in Redis, `SELECT`, `UPDATE`, `INSERT` and `COMMIT` in
the database, with the `SELECT`s of SQLAlchemy that reload an object after a
commit has expired it (`Pc.reload`, `IssuePc.readBack`). `System` interleaves any
number of calls. An operation may raise, without effect or with it (`Outcome`),
which the handler answers with a 500, and a call may crash between any two.

A plain `SELECT` takes no lock and reads what is committed. The `UPDATE` by
primary key waits for another transaction that has updated the row and not
committed, and applies to the row as it then is. The session's own rows are
rolled back if the call ends before its `COMMIT`.

Times are in microseconds; `expires_at` is a column of whole seconds. A blacklist
entry may expire or be lost at any time. `uuid4` returns no id that is in use.
An access token is its `sub` and `email` claims. Ids and e-mail addresses are
compared as strings.
-/
namespace Gestalt.Auth

/-- mirrors services/auth-service/app/models.py:14-20 -/
structure User where
  id : String
  email : String
  passwordHash : String
  deriving DecidableEq, Repr

/-- mirrors services/auth-service/app/models.py:23-29 -/
structure RefreshToken where
  tokenId : String
  userId : String
  expiresAt : Nat
  revoked : Bool := false
  deriving DecidableEq, Repr

/-- mirrors services/auth-service/app/config.py:15-16 -/
structure Settings where
  jwtAccessTokenTtlSeconds : Nat := 900
  jwtRefreshTokenTtlSeconds : Nat := 1209600

/-- mirrors services/auth-service/app/security.py:21-32 -/
structure AccessToken where
  sub : String
  email : String
  deriving DecidableEq, Repr

/-- mirrors services/auth-service/app/schemas.py:27-31 -/
structure TokenResponse where
  accessToken : AccessToken
  refreshToken : String
  expiresIn : Nat
  deriving DecidableEq, Repr

inductive Answer
  | pair (t : TokenResponse)
  | noContent
  | error (e : AppError)
  deriving DecidableEq, Repr

/-- mirrors services/auth-service/app/routers/auth.py:83 -/
def tokenRevoked : AppError := ⟨"INVALID_TOKEN", "Refresh token has been revoked", 401⟩

/-- mirrors services/auth-service/app/routers/auth.py:88, :92 -/
def tokenInvalid : AppError := ⟨"INVALID_TOKEN", "Refresh token is invalid or expired", 401⟩

/-- mirrors services/auth-service/app/routers/auth.py:72 -/
def invalidCredentials : AppError := ⟨"INVALID_CREDENTIALS", "Email or password is incorrect", 401⟩

def microseconds : Nat := 1000000

namespace RefreshToken

/-- `row.expires_at < now` -/
def expired (row : RefreshToken) (now : Nat) : Bool := row.expiresAt * microseconds < now

/-- `int((row.expires_at - now).total_seconds())`; `int` rounds towards zero. -/
def remainingTtl (row : RefreshToken) (now : Nat) : Int :=
  (row.expiresAt * microseconds - now : Int).tdiv microseconds

end RefreshToken

structure Store where
  users : List User
  tokens : List RefreshToken
  blacklist : String → Bool

namespace Store

/-- `db.get(RefreshToken, token_id)` -/
def token (s : Store) (tokenId : String) : Option RefreshToken :=
  Table.get RefreshToken.tokenId s.tokens tokenId

/-- `db.get(User, id)` -/
def user (s : Store) (id : String) : Option User := Table.get User.id s.users id

/-- mirrors services/auth-service/app/redis_client.py:12-14 -/
def blacklistAdd (s : Store) (tokenId : String) (ttlSeconds : Int) : Store :=
  if 0 < ttlSeconds then { s with blacklist := fun t => t = tokenId || s.blacklist t } else s

/-- The entry reaches its time to live, or is lost. -/
def forget (s : Store) (tokenId : String) : Store :=
  { s with blacklist := fun t => decide (t ≠ tokenId) && s.blacklist t }

/-- `UPDATE refresh_tokens SET revoked = true WHERE token_id = :token_id`, committed. -/
def revoke (s : Store) (tokenId : String) : Store :=
  { s with
    tokens := Table.modify RefreshToken.tokenId s.tokens tokenId fun r => { r with revoked := true } }

end Store

/-! ## The calls -/

/-- `row.revoked = True`, `blacklist_add` and `db.commit()`, by next operation. -/
inductive RevokePc
  | blacklist (remainingTtl : Int)
  | update
  | commit
  deriving DecidableEq, Repr

/-- `_issue_tokens`, by next operation. -/
inductive IssuePc
  | insert (user : User)
  | commit (user : User) (row : RefreshToken)
  | readBack (user : User) (tokenId : String)
  deriving DecidableEq, Repr

/-- A request; `userId` is the `sub` of the access token that `logout` is called
with. -/
inductive Call
  | login (email password : String)
  | refresh (refreshToken : String)
  | logout (refreshToken userId : String)
  deriving DecidableEq, Repr

/-- Where a call is, by its next operation. -/
inductive Pc
  /-- the user by e-mail -/
  | select
  | exists
  | row
  | user (row : RefreshToken) (remainingTtl : Int)
  /-- a `refresh` issues tokens to `next` afterwards -/
  | revoke (next : Option User) (pc : RevokePc)
  | reload (user : User)
  | issue (pc : IssuePc)
  | done (answer : Answer)
  deriving DecidableEq, Repr

def Call.entry : Call → Pc
  | .login _ _ => .select
  | .refresh _ => .exists
  | .logout _ _ => .row

section
variable (cfg : Settings) (verifyPassword : String → String → Bool)

/-- mirrors services/auth-service/app/routers/auth.py:29-41 -/
def IssuePc.step (now : Nat) (uuid : String) (s : Store) : IssuePc → Store × Pc
  | .insert user =>
    let expiresAt := (now + cfg.jwtRefreshTokenTtlSeconds * microseconds) / microseconds
    (s, .issue (.commit user { tokenId := uuid, userId := user.id, expiresAt }))
  | .commit user row => ({ s with tokens := s.tokens ++ [row] }, .issue (.readBack user row.tokenId))
  | .readBack user tokenId =>
    (s, .done (.pair ⟨⟨user.id, user.email⟩, tokenId, cfg.jwtAccessTokenTtlSeconds⟩))

/-- mirrors services/auth-service/app/routers/auth.py:95-98 and :108-111 -/
def RevokePc.step (refreshToken : String) (next : Option User) (s : Store) : RevokePc → Store × Pc
  | .blacklist remainingTtl => (s.blacklistAdd refreshToken remainingTtl, .revoke next .update)
  | .update => (s, .revoke next .commit)
  | .commit =>
    (s.revoke refreshToken,
      match next with
      | some user => .reload user
      | none => .done .noContent)

/-- mirrors services/auth-service/app/routers/auth.py:68-73 -/
def loginStep (now : Nat) (uuid : String) (s : Store) (email password : String) :
    Pc → Option (Store × Pc)
  | .select =>
    match s.users.find? fun u => u.email = email with
    | none => some (s, .done (.error invalidCredentials))
    | some user =>
      if verifyPassword password user.passwordHash then some (s, .issue (.insert user))
      else some (s, .done (.error invalidCredentials))
  | .issue pc => some (pc.step cfg now uuid s)
  | _ => none

/-- mirrors services/auth-service/app/routers/auth.py:76-100 -/
def refreshStep (now : Nat) (uuid : String) (s : Store) (refreshToken : String) :
    Pc → Option (Store × Pc)
  | .exists => some (s, if s.blacklist refreshToken then .done (.error tokenRevoked) else .row)
  | .row =>
    match s.token refreshToken with
    | none => some (s, .done (.error tokenInvalid))
    | some row =>
      if row.revoked || row.expired now then some (s, .done (.error tokenInvalid))
      else some (s, .user row (row.remainingTtl now))
  | .user row remainingTtl =>
    match s.user row.userId with
    | none => some (s, .done (.error tokenInvalid))
    | some user => some (s, .revoke (some user) (.blacklist remainingTtl))
  | .revoke next pc => some (pc.step refreshToken next s)
  | .reload user =>
    match s.user user.id with
    | none => some (s, .done (.error internalError))
    | some user => some (s, .issue (.insert user))
  | .issue pc => some (pc.step cfg now uuid s)
  | _ => none

/-- mirrors services/auth-service/app/routers/auth.py:103-112 -/
def logoutStep (now : Nat) (s : Store) (refreshToken userId : String) : Pc → Option (Store × Pc)
  | .row =>
    match s.token refreshToken with
    | none => some (s, .done .noContent)
    | some row =>
      if row.userId = userId && !row.revoked then
        some (s, .revoke none (.blacklist (row.remainingTtl now)))
      else some (s, .done .noContent)
  | .revoke next pc => some (pc.step refreshToken next s)
  | _ => none

def Call.step (now : Nat) (uuid : String) (s : Store) : Call → Pc → Option (Store × Pc)
  | .login email password => loginStep cfg verifyPassword now uuid s email password
  | .refresh refreshToken => refreshStep cfg now uuid s refreshToken
  | .logout refreshToken userId => logoutStep now s refreshToken userId

end

/-! ## The system -/

structure Proc where
  call : Call
  pc : Pc
  alive : Bool := true
  deriving DecidableEq, Repr

/-- The row its transaction has updated and not committed. -/
def Proc.locks (x : Proc) : Option String :=
  match x.call, x.pc with
  | .refresh t, .revoke _ .commit => if x.alive then some t else none
  | .logout t _, .revoke _ .commit => if x.alive then some t else none
  | _, _ => none

/-- The row its next operation updates. -/
def Proc.updates (x : Proc) : Option String :=
  match x.call, x.pc with
  | .refresh t, .revoke _ .update => some t
  | .logout t _, .revoke _ .update => some t
  | _, _ => none

/-- The id of a row it has inserted and not committed. -/
def Proc.inserts (x : Proc) : Option String :=
  match x.pc with
  | .issue (.commit _ row) => some row.tokenId
  | _ => none

structure System where
  store : Store
  procs : List Proc
  clock : Nat

/-- How an operation ends. -/
inductive Outcome
  | ok
  /-- it raises, and has no effect -/
  | failed
  /-- it takes effect, and raises -/
  | lost
  deriving DecidableEq, Repr

inductive Lbl
  | call (c : Call)
  /-- call `i` performs its next operation; `uuid` is what `uuid4` would return -/
  | next (i : Nat) (uuid : String) (o : Outcome)
  | crash (i : Nat)
  | tick (d : Nat)
  | forget (tokenId : String)
  deriving DecidableEq, Repr

namespace System

/-- The id an insert is about to use is no other row's. -/
def fresh (s : System) (x : Proc) (uuid : String) : Bool :=
  match x.pc with
  | .issue (.insert _) =>
    (s.store.token uuid).isNone && s.procs.all fun y => decide (y.inserts ≠ some uuid)
  | _ => true

/-- No other transaction holds the row the call is about to update. -/
def unlocked (s : System) (x : Proc) : Bool :=
  match x.updates with
  | some t => s.procs.all fun y => decide (y.locks ≠ some t)
  | none => true

/-- What the outcome leaves of an operation. -/
def settle (s : Store) (r : Store × Pc) : Outcome → Store × Pc
  | .ok => r
  | .failed => (s, .done (.error internalError))
  | .lost => (r.1, .done (.error internalError))

section
variable (cfg : Settings) (verifyPassword : String → String → Bool)

def step (s : System) : Lbl → Option System
  | .call c => some { s with procs := s.procs ++ [{ call := c, pc := c.entry }] }
  | .next i uuid o =>
    match s.procs[i]? with
    | some x =>
      if x.alive && s.unlocked x && s.fresh x uuid then
        (x.call.step cfg verifyPassword s.clock uuid s.store x.pc).map fun r =>
          { s with
            store := (settle s.store r o).1
            procs := s.procs.set i { x with pc := (settle s.store r o).2 } }
      else none
    | none => none
  | .crash i =>
    match s.procs[i]? with
    | some x => some { s with procs := s.procs.set i { x with alive := false } }
    | none => none
  | .tick d => some { s with clock := s.clock + d }
  | .forget tokenId => some { s with store := s.store.forget tokenId }

/-- Any users and any tokens, and no call in progress. -/
def lts : LTS System Lbl := LTS.ofFn (fun s => s.procs = []) (step cfg verifyPassword)

end
end System

/-! ## What an operation does to the tokens -/

namespace Store

/-- No token goes, and none that is revoked is valid again. -/
def Grows (s s' : Store) : Prop :=
  ∀ t r, s.token t = some r → ∃ r', s'.token t = some r' ∧ (r.revoked = true → r'.revoked = true)

/-- The token is known, and revoked. -/
def Spent (s : Store) (t : String) : Prop := ∃ r, s.token t = some r ∧ r.revoked = true

theorem Grows.refl (s : Store) : s.Grows s := fun _ r h => ⟨r, h, id⟩

theorem Grows.spent {s s' : Store} {t : String} (h : s.Grows s') (hs : s.Spent t) : s'.Spent t := by
  obtain ⟨r, hr, hrev⟩ := hs
  obtain ⟨r', hr', hkept⟩ := h t r hr
  exact ⟨r', hr', hkept hrev⟩

theorem token_revoke (s : Store) (t u : String) : (s.revoke t).token u =
    if u = t then (s.token u).map fun r => { r with revoked := true } else s.token u :=
  Table.get_modify fun _ => rfl

theorem grows_revoke (s : Store) (t : String) : s.Grows (s.revoke t) := by
  intro u r hr
  rw [token_revoke]
  split
  · rw [hr]
    exact ⟨_, rfl, fun _ => rfl⟩
  · exact ⟨r, hr, id⟩

theorem spent_revoke {s : Store} {t : String} {r : RefreshToken} (h : s.token t = some r) :
    (s.revoke t).Spent t := by
  refine ⟨{ r with revoked := true }, ?_, rfl⟩
  rw [token_revoke, if_pos rfl, h]
  rfl

theorem grows_append (s : Store) (row : RefreshToken) :
    s.Grows { s with tokens := s.tokens ++ [row] } := by
  intro t r hr
  refine ⟨r, ?_, id⟩
  simp only [token, Table.get, List.find?_append] at hr ⊢
  rw [hr]
  rfl

theorem blacklistAdd_token (s : Store) (t u : String) (ttl : Int) :
    (s.blacklistAdd t ttl).token u = s.token u := by
  unfold blacklistAdd
  split <;> rfl

end Store

section
variable {cfg : Settings} {verifyPassword : String → String → Bool} {now : Nat} {uuid : String}

theorem IssuePc.grows {pc : IssuePc} {s s' : Store} {pc' : Pc}
    (h : pc.step cfg now uuid s = (s', pc')) : s.Grows s' := by
  cases pc <;> simp only [IssuePc.step, Prod.mk.injEq] at h <;> obtain ⟨rfl, -⟩ := h
  · exact .refl s
  · exact s.grows_append _
  · exact .refl s

theorem RevokePc.grows {pc : RevokePc} {t : String} {next : Option User} {s s' : Store} {pc' : Pc}
    (h : pc.step t next s = (s', pc')) : s.Grows s' := by
  cases pc <;> simp only [RevokePc.step, Prod.mk.injEq] at h <;> obtain ⟨rfl, -⟩ := h
  · intro u r hr
    exact ⟨r, (s.blacklistAdd_token t u _).trans hr, id⟩
  · exact .refl s
  · exact s.grows_revoke t

/-- The token the call is about. -/
def Call.presents : Call → Option String
  | .login _ _ => none
  | .refresh t => some t
  | .logout t _ => some t

/-- What one operation of a call does. -/
inductive Moves (cfg : Settings) (now : Nat) (uuid : String) (s : Store) :
    Call → Pc → Store → Pc → Prop
  | refuse {c : Call} {pc : Pc} (a : Answer) (ha : ∀ t, a ≠ .pair t) :
      Moves cfg now uuid s c pc s (.done a)
  | login {email password : String} (user : User) :
      Moves cfg now uuid s (.login email password) .select s (.issue (.insert user))
  | listed {t : String} (hb : s.blacklist t = false) :
      Moves cfg now uuid s (.refresh t) .exists s .row
  | read {t : String} {row : RefreshToken} (hrow : s.token t = some row) (hrev : row.revoked = false)
      (hexp : row.expired now = false) :
      Moves cfg now uuid s (.refresh t) .row s (.user row (row.remainingTtl now))
  | owner {t : String} {row : RefreshToken} {ttl : Int} (user : User) :
      Moves cfg now uuid s (.refresh t) (.user row ttl) s (.revoke (some user) (.blacklist ttl))
  | readOwn {t userId : String} {row : RefreshToken} (hrow : s.token t = some row)
      (hown : row.userId = userId) (hrev : row.revoked = false) :
      Moves cfg now uuid s (.logout t userId) .row s (.revoke none (.blacklist (row.remainingTtl now)))
  | revoke {c : Call} {t : String} {next : Option User} {pc : RevokePc} {s' : Store} {pc' : Pc}
      (hc : c.presents = some t) (h : pc.step t next s = (s', pc')) :
      Moves cfg now uuid s c (.revoke next pc) s' pc'
  | reload {t : String} {user : User} (user' : User) :
      Moves cfg now uuid s (.refresh t) (.reload user) s (.issue (.insert user'))
  | issue {c : Call} {pc : IssuePc} {s' : Store} {pc' : Pc}
      (h : pc.step cfg now uuid s = (s', pc')) : Moves cfg now uuid s c (.issue pc) s' pc'

theorem moves_login {s s' : Store} {email password : String} {pc pc' : Pc}
    (h : loginStep cfg verifyPassword now uuid s email password pc = some (s', pc')) :
    Moves cfg now uuid s (.login email password) pc s' pc' := by
  unfold loginStep at h
  split at h
  · split at h
    · simp only [Option.some.injEq, Prod.mk.injEq] at h
      obtain ⟨rfl, rfl⟩ := h
      exact .refuse _ (by simp)
    · split at h <;> simp only [Option.some.injEq, Prod.mk.injEq] at h <;> obtain ⟨rfl, rfl⟩ := h
      · exact .login _
      · exact .refuse _ (by simp)
  · simp only [Option.some.injEq] at h
    exact .issue h
  · cases h

theorem moves_refresh {s s' : Store} {t : String} {pc pc' : Pc}
    (h : refreshStep cfg now uuid s t pc = some (s', pc')) :
    Moves cfg now uuid s (.refresh t) pc s' pc' := by
  unfold refreshStep at h
  split at h
  case h_1 =>
    simp only [Option.some.injEq, Prod.mk.injEq] at h
    obtain ⟨rfl, rfl⟩ := h
    split
    · exact .refuse _ (by simp)
    · rename_i hb
      exact .listed (by simpa using hb)
  case h_2 =>
    split at h
    · simp only [Option.some.injEq, Prod.mk.injEq] at h
      obtain ⟨rfl, rfl⟩ := h
      exact .refuse _ (by simp)
    · rename_i row hrow
      split at h <;> simp only [Option.some.injEq, Prod.mk.injEq] at h <;> obtain ⟨rfl, rfl⟩ := h
      · exact .refuse _ (by simp)
      · rename_i hok
        simp only [Bool.or_eq_true, not_or, Bool.not_eq_true] at hok
        exact .read hrow hok.1 hok.2
  case h_3 =>
    split at h <;> simp only [Option.some.injEq, Prod.mk.injEq] at h <;> obtain ⟨rfl, rfl⟩ := h
    · exact .refuse _ (by simp)
    · exact .owner _
  case h_4 =>
    simp only [Option.some.injEq] at h
    exact .revoke rfl h
  case h_5 =>
    split at h <;> simp only [Option.some.injEq, Prod.mk.injEq] at h <;> obtain ⟨rfl, rfl⟩ := h
    · exact .refuse _ (by simp)
    · exact .reload _
  case h_6 =>
    simp only [Option.some.injEq] at h
    exact .issue h
  case h_7 => cases h

theorem moves_logout {s s' : Store} {t userId : String} {pc pc' : Pc}
    (h : logoutStep now s t userId pc = some (s', pc')) :
    Moves cfg now uuid s (.logout t userId) pc s' pc' := by
  unfold logoutStep at h
  split at h
  · split at h
    · simp only [Option.some.injEq, Prod.mk.injEq] at h
      obtain ⟨rfl, rfl⟩ := h
      exact .refuse _ (by simp)
    · rename_i row hrow
      split at h <;> simp only [Option.some.injEq, Prod.mk.injEq] at h <;> obtain ⟨rfl, rfl⟩ := h
      · rename_i hok
        simp only [Bool.and_eq_true, decide_eq_true_eq, Bool.not_eq_true'] at hok
        exact .readOwn hrow hok.1 hok.2
      · exact .refuse _ (by simp)
  · simp only [Option.some.injEq] at h
    exact .revoke rfl h
  · cases h

theorem moves_of_step {s s' : Store} {c : Call} {pc pc' : Pc}
    (h : c.step cfg verifyPassword now uuid s pc = some (s', pc')) : Moves cfg now uuid s c pc s' pc' := by
  cases c with
  | login email password => exact moves_login h
  | refresh t => exact moves_refresh h
  | logout t userId => exact moves_logout h

theorem Moves.grows {s s' : Store} {c : Call} {pc pc' : Pc} (h : Moves cfg now uuid s c pc s' pc') :
    s.Grows s' := by
  cases h with
  | revoke hc hst => exact RevokePc.grows hst
  | issue hst => exact IssuePc.grows hst
  | _ => exact .refl s

end

/-- What a step does to the system. -/
inductive System.Steps (cfg : Settings) (s : System) : Lbl → System → Prop
  | call (c : Call) : Steps cfg s (.call c) { s with procs := s.procs ++ [{ call := c, pc := c.entry }] }
  | next {i : Nat} {uuid : String} {x : Proc} {s' : Store} {pc' : Pc} (hx : s.procs[i]? = some x)
      (ha : x.alive = true) (hu : s.unlocked x = true) (hf : s.fresh x uuid = true)
      (hm : Moves cfg s.clock uuid s.store x.call x.pc s' pc') :
      Steps cfg s (.next i uuid .ok) { s with store := s', procs := s.procs.set i { x with pc := pc' } }
  /-- the operation raises; it may have taken effect -/
  | raised {i : Nat} {uuid : String} {o : Outcome} {x : Proc} {s' : Store} {pc' : Pc}
      (hx : s.procs[i]? = some x) (ho : o ≠ .ok)
      (hm : Moves cfg s.clock uuid s.store x.call x.pc s' pc') :
      Steps cfg s (.next i uuid o) { s with
        store := if o = .lost then s' else s.store
        procs := s.procs.set i { x with pc := .done (.error internalError) } }
  | crash {i : Nat} {x : Proc} (hx : s.procs[i]? = some x) :
      Steps cfg s (.crash i) { s with procs := s.procs.set i { x with alive := false } }
  | tick (d : Nat) : Steps cfg s (.tick d) { s with clock := s.clock + d }
  | forget (t : String) : Steps cfg s (.forget t) { s with store := s.store.forget t }

theorem System.steps_of_step {cfg : Settings} {verifyPassword : String → String → Bool} {s s' : System}
    {l : Lbl} (h : s.step cfg verifyPassword l = some s') : System.Steps cfg s l s' := by
  cases l with
  | call c =>
    simp only [System.step, Option.some.injEq] at h
    subst h
    exact .call c
  | next i uuid o =>
    simp only [System.step] at h
    split at h
    · rename_i x hx
      split at h
      · rename_i hok
        simp only [Bool.and_eq_true] at hok
        simp only [Option.map_eq_some_iff] at h
        obtain ⟨⟨s₁, pc'⟩, hst, rfl⟩ := h
        have hm := moves_of_step hst
        cases o with
        | ok => exact .next hx hok.1.1 hok.1.2 hok.2 hm
        | failed => exact .raised hx (by simp) hm
        | lost => exact .raised hx (by simp) hm
      · cases h
    · cases h
  | crash i =>
    simp only [System.step] at h
    split at h
    · rename_i x hx
      simp only [Option.some.injEq] at h
      subst h
      exact .crash hx
    · cases h
  | tick d =>
    simp only [System.step, Option.some.injEq] at h
    subst h
    exact .tick d
  | forget t =>
    simp only [System.step, Option.some.injEq] at h
    subst h
    exact .forget t

end Gestalt.Auth
