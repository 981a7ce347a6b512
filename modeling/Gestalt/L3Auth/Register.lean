import Gestalt.Core.LTS
import Gestalt.Core.Procs
import Gestalt.L3Auth.Tokens

/-!
# auth-service: registration

`register` over the `users` table, cut at its database operations: the `SELECT` by
e-mail, the `INSERT` that `db.commit()` flushes, the `COMMIT`, and the `SELECT` with
which SQLAlchemy reloads the row for the answer. Any number of calls interleave.

`users.email` is UNIQUE. An `INSERT` of an e-mail that another transaction has
inserted and not committed waits for it; one of an e-mail that is in the table raises
`IntegrityError`, which the handler does not catch, so that the call is answered by
`unhandled_exception_handler`. A plain `SELECT` reads what is committed.

`uuid4` returns no id that is in use, `hash_password` any text. E-mail addresses are
compared as strings.
-/
namespace Gestalt.Auth.Register

/-- `email` is an `EmailStr`, checked before.
mirrors services/auth-service/app/schemas.py:4-6 -/
structure RegisterRequest where
  email : String
  password : String
  password_length : 8 ≤ password.length ∧ password.length ≤ 128

/-- mirrors services/auth-service/app/schemas.py:9-11 -/
structure RegisterResponse where
  id : String
  email : String
  deriving DecidableEq, Repr

/-- mirrors services/auth-service/app/routers/auth.py:61 -/
def emailTaken : AppError := ⟨"EMAIL_TAKEN", "An account with this email already exists", 409⟩

inductive Answer
  | created (r : RegisterResponse)
  | error (e : AppError)
  deriving DecidableEq, Repr

/-- Where a call is, by its next operation. -/
inductive Pc
  | select
  | insert
  | commit (user : User)
  | readBack (user : User)
  | done (answer : Answer)
  deriving DecidableEq, Repr

/-- What `uuid4` and `hash_password` return for the call. -/
structure Draw where
  uuid : String
  passwordHash : String
  deriving DecidableEq, Repr

/-- The user with the e-mail, if any. -/
def byEmail (users : List User) (email : String) : Option User := Table.get User.email users email

/-- mirrors services/auth-service/app/routers/auth.py:57-65 -/
def registerStep (users : List User) (draw : Draw) (body : RegisterRequest) : Pc → Option (List User × Pc)
  | .select =>
    match byEmail users body.email with
    | some _ => some (users, .done (.error emailTaken))
    | none => some (users, .insert)
  | .insert =>
    match byEmail users body.email with
    -- the `IntegrityError`
    | some _ => some (users, .done (.error internalError))
    | none => some (users, .commit ⟨draw.uuid, body.email, draw.passwordHash⟩)
  | .commit user => some (users ++ [user], .readBack user)
  | .readBack user => some (users, .done (.created ⟨user.id, user.email⟩))
  | .done _ => none

structure Proc where
  body : RegisterRequest
  pc : Pc := .select

/-- The row it has inserted and not committed. -/
def Proc.inserts (x : Proc) : Option User :=
  match x.pc with
  | .commit user => some user
  | _ => none

structure System where
  users : List User
  procs : List Proc

inductive Lbl
  | call (body : RegisterRequest)
  | next (i : Nat) (draw : Draw)

namespace System

/-- No other transaction holds the e-mail the call is about to insert, and the id is no other's. -/
def mayInsert (s : System) (x : Proc) (draw : Draw) : Bool :=
  match x.pc with
  | .insert =>
    (s.procs.all fun y => y.inserts.all fun u =>
        decide (u.email ≠ x.body.email) && decide (u.id ≠ draw.uuid)) &&
      s.users.all fun u => decide (u.id ≠ draw.uuid)
  | _ => true

def step (s : System) : Lbl → Option System
  | .call body => some { s with procs := s.procs ++ [{ body }] }
  | .next i draw =>
    match s.procs[i]? with
    | some x =>
      if s.mayInsert x draw then
        (registerStep s.users draw x.body x.pc).map fun r =>
          { users := r.1, procs := s.procs.set i { x with pc := r.2 } }
      else none
    | none => none

def init (s : System) : Prop := s.procs = [] ∧ Table.Unique User.email s.users ∧ Table.Unique User.id s.users

/-- Any accounts, and no call. -/
def lts : LTS System Lbl := LTS.ofFn init step

end System

/-! ## What a step does -/

/-- What a step of a call does to the table. -/
inductive Moves (users : List User) (body : RegisterRequest) : Pc → List User → Pc → Prop
  | taken {u : User} (hu : byEmail users body.email = some u) :
      Moves users body .select users (.done (.error emailTaken))
  | free (hu : byEmail users body.email = none) : Moves users body .select users .insert
  | conflict {u : User} (hu : byEmail users body.email = some u) :
      Moves users body .insert users (.done (.error internalError))
  | insert {draw : Draw} (hu : byEmail users body.email = none) :
      Moves users body .insert users (.commit ⟨draw.uuid, body.email, draw.passwordHash⟩)
  | commit {user : User} : Moves users body (.commit user) (users ++ [user]) (.readBack user)
  | answer {user : User} : Moves users body (.readBack user) users (.done (.created ⟨user.id, user.email⟩))

theorem moves_of_step {users users' : List User} {draw : Draw} {body : RegisterRequest} {pc pc' : Pc}
    (h : registerStep users draw body pc = some (users', pc')) : Moves users body pc users' pc' := by
  unfold registerStep at h
  split at h
  · split at h <;> simp only [Option.some.injEq, Prod.mk.injEq] at h <;> obtain ⟨rfl, rfl⟩ := h
    · exact .taken ‹_›
    · exact .free ‹_›
  · split at h <;> simp only [Option.some.injEq, Prod.mk.injEq] at h <;> obtain ⟨rfl, rfl⟩ := h
    · exact .conflict ‹_›
    · exact .insert ‹_›
  · simp only [Option.some.injEq, Prod.mk.injEq] at h
    obtain ⟨rfl, rfl⟩ := h
    exact .commit
  · simp only [Option.some.injEq, Prod.mk.injEq] at h
    obtain ⟨rfl, rfl⟩ := h
    exact .answer
  · cases h

theorem byEmail_none {users : List User} {email : String} :
    byEmail users email = none ↔ ∀ u ∈ users, u.email ≠ email := Table.get_eq_none

theorem byEmail_some {users : List User} {email : String} {u : User} (h : byEmail users email = some u) :
    u ∈ users ∧ u.email = email := Table.get_some h

/-- What a step does to the system. -/
inductive System.Steps (s : System) : Lbl → System → Prop
  | call (body : RegisterRequest) : Steps s (.call body) { s with procs := s.procs ++ [{ body }] }
  | next {i : Nat} {draw : Draw} {x : Proc} {users' : List User} {pc' : Pc} (hx : s.procs[i]? = some x)
      (hi : s.mayInsert x draw = true) (hm : Moves s.users x.body x.pc users' pc') :
      Steps s (.next i draw) { users := users', procs := s.procs.set i { x with pc := pc' } }

namespace System

theorem steps_of_step {s s' : System} {l : Lbl} (h : s.step l = some s') : s.Steps l s' := by
  cases l with
  | call body =>
    obtain rfl := Option.some.inj h
    exact .call body
  | next i draw =>
    simp only [step] at h
    split at h
    · rename_i x hx
      split at h
      · rename_i hi
        simp only [Option.map_eq_some_iff] at h
        obtain ⟨⟨users', pc'⟩, hr, rfl⟩ := h
        exact .next hx hi (moves_of_step hr)
      · cases h
    · cases h

end System

/-! ## One account for an e-mail -/

/-- The e-mail of the row it has inserted and not committed. -/
def Proc.holds (x : Proc) : Option String := x.inserts.map User.email

/-- The account it has created. -/
def Proc.account (x : Proc) : Option RegisterResponse :=
  match x.pc with
  | .readBack user => some ⟨user.id, user.email⟩
  | .done (.created r) => some r
  | _ => none

def Proc.owns (x : Proc) : Option String := x.account.map RegisterResponse.email

namespace System

/-- Every account is an old one or that of the one call that has created it. -/
structure Accounts (s₀ s : System) : Prop where
  emails : Table.Unique User.email s.users
  old : ∀ u ∈ s₀.users, u ∈ s.users
  new : ∀ u ∈ s.users, u ∈ s₀.users ∨ ∃ x ∈ s.procs, x.owns = some u.email
  /-- a row that is inserted is that of the call, and its e-mail is nobody else's -/
  held : ∀ x ∈ s.procs, ∀ u, x.inserts = some u → u.email = x.body.email ∧ byEmail s.users u.email = none
  sole : Procs.Sole Proc.holds s.procs
  account : ∀ x ∈ s.procs, ∀ r, x.account = some r →
    r.email = x.body.email ∧ ∃ u ∈ s.users, u.id = r.id ∧ u.email = r.email
  owner : Procs.Sole Proc.owns s.procs
  errors : ∀ x ∈ s.procs, ∀ e, x.pc = .done (.error e) →
    e = internalError ∨ (e = emailTaken ∧ byEmail s.users x.body.email ≠ none)

variable {s₀ s s' : System}

theorem accounts_call (hI : Accounts s₀ s) (body : RegisterRequest) :
    Accounts s₀ { s with procs := s.procs ++ [{ body }] } := by
  have hmem {x : Proc} (hx : x ∈ s.procs ++ [({ body } : Proc)]) : x ∈ s.procs ∨ x = { body } := by
    simpa using hx
  refine ⟨hI.emails, hI.old, fun u hu => ?_, fun x hx u hu => ?_, hI.sole.spawn rfl, fun x hx r hr => ?_,
    hI.owner.spawn rfl, fun x hx e hpc => ?_⟩
  · refine (hI.new u hu).imp_right ?_
    rintro ⟨x, hx, hox⟩
    exact ⟨x, List.mem_append_left _ hx, hox⟩
  · rcases hmem hx with hx | rfl
    · exact hI.held x hx u hu
    · cases hu
  · rcases hmem hx with hx | rfl
    · exact hI.account x hx r hr
    · cases hr
  · rcases hmem hx with hx | rfl
    · exact hI.errors x hx e hpc
    · cases hpc

/-- A step that leaves the table alone. -/
theorem accounts_set {i : Nat} {x y : Proc} (hI : Accounts s₀ s) (hx : s.procs[i]? = some x)
    (hbody : y.body = x.body) (haccount : y.account = x.account)
    (hinserts : ∀ u, y.inserts = some u → u.email = y.body.email ∧ byEmail s.users u.email = none ∧
      ∀ z ∈ s.procs, z.holds ≠ some u.email)
    (herror : ∀ e, y.pc = .done (.error e) →
      e = internalError ∨ (e = emailTaken ∧ byEmail s.users y.body.email ≠ none)) :
    Accounts s₀ { s with procs := s.procs.set i y } := by
  have hmem {z : Proc} (hz : z ∈ s.procs.set i y) : z ∈ s.procs ∨ z = y := List.mem_or_eq_of_mem_set hz
  have hx' := List.mem_of_getElem? hx
  have howns : y.owns = x.owns := congrArg (Option.map RegisterResponse.email) haccount
  refine ⟨hI.emails, hI.old, fun u hu => ?_, fun z hz u hu => ?_, hI.sole.set hx fun k hk => .inr ?_,
    fun z hz r hr => ?_, hI.owner.set hx fun k hk => .inl (howns ▸ hk), fun z hz e hpc => ?_⟩
  · exact (hI.new u hu).imp_right (Procs.holder_set hx fun h => howns ▸ h)
  · rcases hmem hz with hz | rfl
    · exact hI.held z hz u hu
    · exact ⟨(hinserts u hu).1, (hinserts u hu).2.1⟩
  · obtain ⟨u, hu, rfl⟩ := Option.map_eq_some_iff.mp hk
    exact (hinserts u hu).2.2
  · rcases hmem hz with hz | rfl
    · exact hI.account z hz r hr
    · rw [hbody]
      exact hI.account x hx' r (haccount ▸ hr)
  · rcases hmem hz with hz | rfl
    · exact hI.errors z hz e hpc
    · exact herror e hpc

/-- The `COMMIT` of a row. -/
theorem accounts_commit {i : Nat} {x : Proc} {user : User} (hI : Accounts s₀ s)
    (hx : s.procs[i]? = some x) (hpc : x.pc = .commit user) :
    Accounts s₀ { users := s.users ++ [user], procs := s.procs.set i { x with pc := .readBack user } } := by
  have hx' := List.mem_of_getElem? hx
  have hins : x.inserts = some user := by simp [Proc.inserts, hpc]
  obtain ⟨hemail, hnone⟩ := hI.held x hx' user hins
  have hfree := byEmail_none.mp hnone
  let y : Proc := { x with pc := .readBack user }
  have hmem {z : Proc} (hz : z ∈ s.procs.set i y) : z ∈ s.procs ∨ z = y := List.mem_or_eq_of_mem_set hz
  have hy : y ∈ s.procs.set i y := List.mem_of_getElem? (Procs.set_self hx)
  -- nobody owns the e-mail yet
  have hnoowner : ∀ z ∈ s.procs, z.owns ≠ some user.email := by
    intro z hz ho
    obtain ⟨r, hr, hre⟩ := Option.map_eq_some_iff.mp ho
    obtain ⟨-, u, hu, -, hue⟩ := hI.account z hz r hr
    exact hfree u hu (hue.trans hre)
  refine ⟨hI.emails.append_one hfree, fun u hu => List.mem_append_left _ (hI.old u hu), fun u hu => ?_,
    fun z hz u hu => ?_, hI.sole.set hx (fun k hk => by cases hk), fun z hz r hr => ?_,
    hI.owner.set hx fun k hk => ?_, fun z hz e hzpc => ?_⟩
  · rcases List.mem_append.mp hu with hu | hu
    · refine (hI.new u hu).imp_right (Procs.holder_set hx fun h => ?_)
      simp [Proc.owns, Proc.account, hpc] at h
    · obtain rfl := List.mem_singleton.mp hu
      exact .inr ⟨y, hy, rfl⟩
  · obtain ⟨j, hj⟩ := List.mem_iff_getElem?.mp hz
    rcases Procs.set_cases hx hj with ⟨-, rfl⟩ | ⟨hji, hz'⟩
    · cases hu
    · obtain ⟨hze, hzn⟩ := hI.held z (List.mem_of_getElem? hz') u hu
      refine ⟨hze, byEmail_none.mpr fun v hv hve => ?_⟩
      rcases List.mem_append.mp hv with hv | hv
      · exact byEmail_none.mp hzn v hv hve
      · obtain rfl := List.mem_singleton.mp hv
        exact hji (hI.sole j i z x v.email hz' hx (by simp [Proc.holds, hu, hve])
          (by simp [Proc.holds, hins]))
  · rcases hmem hz with hz | rfl
    · obtain ⟨he, u, hu, hur⟩ := hI.account z hz r hr
      exact ⟨he, u, List.mem_append_left _ hu, hur⟩
    · cases hr
      exact ⟨hemail, user, List.mem_append_right _ (List.mem_singleton_self user), rfl, rfl⟩
  · obtain rfl : user.email = k := Option.some.inj hk
    exact .inr hnoowner
  · rcases hmem hz with hz | rfl
    · refine (hI.errors z hz e hzpc).imp_right (And.imp_right fun hz' hn => hz' (byEmail_none.mpr ?_))
      exact fun u hu => byEmail_none.mp hn u (List.mem_append_left _ hu)
    · cases hzpc

theorem accounts_step {l : Lbl} (hI : Accounts s₀ s) (h : s.step l = some s') : Accounts s₀ s' := by
  cases steps_of_step h with
  | call body => exact accounts_call hI body
  | @next i draw x users' pc' hx hi hm =>
    generalize hpc : x.pc = pc at hm
    cases hm with
    | @taken u hu =>
      refine accounts_set hI hx rfl ?_ (by rintro _ ⟨⟩) ?_
      · simp [Proc.account, hpc]
      · rintro e ⟨⟩
        exact .inr ⟨rfl, by simp [hu]⟩
    | free =>
      refine accounts_set hI hx rfl ?_ (by rintro _ ⟨⟩) (by rintro _ ⟨⟩)
      simp [Proc.account, hpc]
    | conflict =>
      refine accounts_set hI hx rfl ?_ (by rintro _ ⟨⟩) (by rintro e ⟨⟩; exact .inl rfl)
      simp [Proc.account, hpc]
    | insert hu =>
      refine accounts_set hI hx rfl ?_ ?_ (by rintro _ ⟨⟩)
      · simp [Proc.account, hpc]
      · rintro u ⟨⟩
        refine ⟨rfl, hu, fun z hz ho => ?_⟩
        -- it would have waited
        simp only [mayInsert, hpc, Bool.and_eq_true, List.all_eq_true] at hi
        obtain ⟨v, hv, hve⟩ := Option.map_eq_some_iff.mp ho
        have := hi.1 z hz
        simp [hv, hve] at this
    | commit => exact accounts_commit hI hx hpc
    | answer =>
      refine accounts_set hI hx rfl ?_ (by rintro _ ⟨⟩) (by rintro _ ⟨⟩)
      simp [Proc.account, hpc]

theorem accounts_run {ls : List Lbl} (h0 : init s₀) (hr : lts.Run s₀ ls s) : Accounts s₀ s := by
  refine hr.keeps (P := Accounts s₀) (fun _ _ _ hst hI => accounts_step hI hst) ?_
  obtain ⟨hprocs, hemails, -⟩ := h0
  constructor
  · exact hemails
  · exact fun u hu => hu
  · exact fun u hu => .inl hu
  all_goals simp [hprocs, Procs.Sole.nil]

end System
end Gestalt.Auth.Register
