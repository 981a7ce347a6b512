import Gestalt.Core.Tally
import Gestalt.L3Auth.Revocation
import Mathlib.Data.Fintype.EquivFin

/-!
# A refresh that fails and takes the session with it

Status: open.

Behaviour: `refresh` puts the token into the blacklist, commits its revocation,
and only then lets `_issue_tokens` insert the new token, with a commit of its own
(services/auth-service/app/routers/auth.py:95-100 and :29-41). If an operation
raises after the `SET`, the session's rows are rolled back and the entry in Redis
stays; if one raises after the first commit, the token is revoked for good. The
caller gets a 500 and no new token.

Documented: routers/auth.py:94, "Rotate: revoke the presented token, issue a brand
new one"; docs/02-api-contracts.md:27, "Exchange refresh token for new JWT";
NEXT_STEP_REQUIREMENTS.md:172, the old token is refused "after a successful
refresh".

Counterexample: `insertFails`. The commit of the new token fails, and the user,
whose session had 14 days to go, has to log in again.

Fix: insert the new token in the transaction that revokes the old one, and add
the old one to the blacklist after its commit.
-/
namespace Gestalt.Auth

/-! ## A refresh that fails -/

/-- How it ends: the process dies, or its next operation raises, with its effect
or without it. -/
inductive Failure
  | crash
  | raised (uuid : String) (took : Bool)
  deriving DecidableEq, Repr

def Failure.effects : Failure → Nat
  | .raised _ true => 1
  | _ => 0

/-- The operations that succeed, each with the time before it and what `uuid4`
would return, and then the failure. -/
structure Attempt where
  ops : List (Nat × String)
  wait : Nat
  failure : Failure
  deriving DecidableEq, Repr

namespace Attempt

def opLabels (i : Nat) (op : Nat × String) : List Lbl := [.tick op.1, .next i op.2 .ok]

def failureLabel (i : Nat) : Failure → Lbl
  | .crash => .crash i
  | .raised uuid true => .next i uuid .lost
  | .raised uuid false => .next i uuid .failed

/-- Call `i` by itself: it arrives, performs its operations and fails. -/
def labels (a : Attempt) (t : String) (i : Nat) : List Lbl :=
  .call (.refresh t) :: (a.ops.flatMap (opLabels i) ++ [.tick a.wait, failureLabel i a.failure])

/-- How many of its operations have taken effect. -/
def effects (a : Attempt) : Nat := a.ops.length + a.failure.effects

def elapsed (ops : List (Nat × String)) : Nat := (ops.map Prod.fst).sum

/-- When it reads the row, which is its second operation. -/
def readAt (a : Attempt) (now : Nat) : Nat := now + elapsed (a.ops.take 2)

end Attempt

namespace System

/-- The token is known, unrevoked, unexpired and not in the blacklist, its user exists, and no
transaction holds its row. -/
structure Valid (s : System) (t : String) (row : RefreshToken) (user : User) : Prop where
  known : s.store.token t = some row
  unrevoked : row.revoked = false
  unexpired : row.expired s.clock = false
  unlisted : s.store.blacklist t = false
  user : s.store.user row.userId = some user
  free : ∀ x ∈ s.procs, x.locks ≠ some t

/-- A `refresh` of the token, called now and left to itself, returns a pair. -/
def Accepts (cfg : Settings) (verifyPassword : String → String → Bool) (s : System) (t : String) : Prop :=
  ∃ (uuids : List String) (s' : System) (x : Proc) (p : TokenResponse),
    (lts cfg verifyPassword).Run s
        (.call (.refresh t) :: uuids.map fun uuid => .next s.procs.length uuid .ok) s' ∧
      s'.procs[s.procs.length]? = some x ∧ x.pc = .done (.pair p)

/-- So does one at any time before the token expires. -/
def Usable (cfg : Settings) (verifyPassword : String → String → Bool) (s : System) (t : String) : Prop :=
  ∀ d row, s.store.token t = some row → row.expired (s.clock + d) = false →
    Accepts cfg verifyPassword { s with clock := s.clock + d } t

/-- The call returns no pair. -/
def Fails (s : System) (i : Nat) : Prop := ∀ x p, s.procs[i]? = some x → x.pc ≠ .done (.pair p)

/-! ## What a refresh has done after `k` operations -/

end System

/-- Where a `refresh` that goes through is after `k` operations. -/
def Trail (user : User) (row : RefreshToken) (ttl : Int) : Nat → Pc → Prop
  | 0, pc => pc = .exists
  | 1, pc => pc = .row
  | 2, pc => pc = .user row ttl
  | 3, pc => pc = .revoke (some user) (.blacklist ttl)
  | 4, pc => pc = .revoke (some user) .update
  | 5, pc => pc = .revoke (some user) .commit
  | 6, pc => pc = .reload user
  | 7, pc => pc = .issue (.insert user)
  | 8, pc => ∃ new, pc = .issue (.commit user new)
  | 9, pc => ∃ id, pc = .issue (.readBack user id)
  | 10, pc => ∃ p, pc = .done (.pair p)
  | _, _ => False

/-- How the stores stand towards the token. -/
structure Standing (t : String) (row : RefreshToken) (user : User) (revoked listed : Bool) (s : Store) :
    Prop where
  token : s.token t = some { row with revoked }
  blacklist : s.blacklist t = listed
  user : s.user row.userId = some user

/-- After `k` operations: the entry is made by the fourth, if any of the lifetime is left in whole
seconds, and the revocation is committed by the sixth. -/
def After (t : String) (row : RefreshToken) (user : User) (ttl : Int) (k : Nat) (s : Store) : Prop :=
  Standing t row user (decide (6 ≤ k)) (decide (4 ≤ k ∧ 0 < ttl)) s

/-- Every operation but the fourth and the sixth leaves the token alone. -/
theorem After.same {t : String} {row : RefreshToken} {user : User} {ttl : Int} {k : Nat} {s : Store}
    (h : After t row user ttl k s) (h3 : k ≠ 3) (h5 : k ≠ 5) : After t row user ttl (k + 1) s := by
  have hrev : decide (6 ≤ k + 1) = decide (6 ≤ k) := decide_eq_decide.mpr (by omega)
  have hlist : decide (4 ≤ k + 1 ∧ 0 < ttl) = decide (4 ≤ k ∧ 0 < ttl) :=
    decide_eq_decide.mpr (by omega)
  unfold After at h ⊢
  rw [hrev, hlist]
  exact h

theorem Standing.append {t : String} {row new : RefreshToken} {user : User} {revoked listed : Bool}
    {s : Store} (h : Standing t row user revoked listed s) :
    Standing t row user revoked listed { s with tokens := s.tokens ++ [new] } :=
  ⟨Store.token_append h.token, h.blacklist, h.user⟩

theorem Standing.blacklistAdd {t : String} {row : RefreshToken} {user : User} {ttl : Int} {s : Store}
    (h : Standing t row user false false s) :
    Standing t row user false (decide (0 < ttl)) (s.blacklistAdd t ttl) := by
  unfold Store.blacklistAdd
  split
  · rename_i hpos
    refine ⟨h.token, ?_, h.user⟩
    simp [hpos]
  · rename_i hpos
    rw [decide_eq_false hpos]
    exact h

theorem Standing.revoke {t : String} {row : RefreshToken} {user : User} {listed : Bool} {s : Store}
    (h : Standing t row user false listed s) : Standing t row user true listed (s.revoke t) := by
  refine ⟨?_, h.blacklist, h.user⟩
  rw [Store.token_revoke, if_pos rfl, h.token]
  rfl

section
variable {cfg : Settings} {t : String} {row : RefreshToken} {user : User} {ttl : Int} {now : Nat}
  {uuid : String} {s : Store}

theorem Standing.userId {revoked listed : Bool} (h : Standing t row user revoked listed s) :
    user.id = row.userId := (Table.get_some h.user).2

variable (cfg now uuid) in
/-- Operation `k + 1`. -/
theorem trail_step {k : Nat} {pc : Pc} (hk : k < 10) (ha : After t row user ttl k s)
    (hp : Trail user row ttl k pc) (hrev : row.revoked = false)
    (hread : k = 1 → row.expired now = false ∧ row.remainingTtl now = ttl) :
    ∃ s' pc', refreshStep cfg now uuid s t pc = some (s', pc') ∧ After t row user ttl (k + 1) s' ∧
      Trail user row ttl (k + 1) pc' := by
  match k, hk with
  | 0, _ =>
    subst hp
    refine ⟨s, .row, ?_, ha.same (by decide) (by decide), rfl⟩
    have hlist : s.blacklist t = false := ha.blacklist.trans (by simp)
    simp [refreshStep, hlist]
  | 1, _ =>
    subst hp
    obtain ⟨hexp, rfl⟩ := hread rfl
    refine ⟨s, .user row (row.remainingTtl now), ?_, ha.same (by decide) (by decide), rfl⟩
    have hrow : s.token t = some row := ha.token.trans (by simp [← hrev])
    simp [refreshStep, hrow, hrev, hexp]
  | 2, _ =>
    subst hp
    refine ⟨s, .revoke (some user) (.blacklist ttl), ?_, ha.same (by decide) (by decide), rfl⟩
    simp [refreshStep, ha.user]
  | 3, _ =>
    subst hp
    refine ⟨s.blacklistAdd t ttl, .revoke (some user) .update, rfl, ?_, rfl⟩
    have hstand : Standing t row user false false s := by simpa [After] using ha
    simpa [After] using hstand.blacklistAdd
  | 4, _ =>
    subst hp
    exact ⟨s, .revoke (some user) .commit, rfl, ha.same (by decide) (by decide), rfl⟩
  | 5, _ =>
    subst hp
    refine ⟨s.revoke t, .reload user, rfl, ?_, rfl⟩
    have hstand : Standing t row user false (decide (0 < ttl)) s := by simpa [After] using ha
    simpa [After] using hstand.revoke
  | 6, _ =>
    subst hp
    refine ⟨s, .issue (.insert user), ?_, ha.same (by decide) (by decide), rfl⟩
    have huser : s.user user.id = some user := by rw [ha.userId, ha.user]
    simp [refreshStep, huser]
  | 7, _ =>
    subst hp
    exact ⟨s, _, rfl, ha.same (by decide) (by decide), _, rfl⟩
  | 8, _ =>
    obtain ⟨new, rfl⟩ := hp
    exact ⟨_, _, rfl, Standing.append (ha.same (by decide) (by decide)), _, rfl⟩
  | 9, _ =>
    obtain ⟨id, rfl⟩ := hp
    exact ⟨s, _, rfl, ha.same (by decide) (by decide), _, rfl⟩

theorem After.retime {k : Nat} (ttl' : Int) (h : After t row user ttl k s) (hk : k < 4) :
    After t row user ttl' k s := by
  have hlist : decide (4 ≤ k ∧ 0 < ttl') = decide (4 ≤ k ∧ 0 < ttl) :=
    decide_eq_decide.mpr (by omega)
  unfold After at h ⊢
  rw [hlist]
  exact h

end

/-! ## The same of call `i` of a system -/

namespace System

/-- Call `i` has performed `k` operations of a `refresh` that goes through, and no other call holds
the row. -/
structure OnTrail (i : Nat) (t : String) (row : RefreshToken) (user : User) (ttl : Int) (k : Nat)
    (s : System) : Prop where
  proc : ∃ pc, s.procs[i]? = some ⟨.refresh t, pc, true⟩ ∧ Trail user row ttl k pc
  after : After t row user ttl k s.store
  free : ∀ j x, s.procs[j]? = some x → j ≠ i → x.locks ≠ some t

section
variable {cfg : Settings} {verifyPassword : String → String → Bool} {i : Nat} {t : String}
  {row : RefreshToken} {user : User} {ttl : Int} {k : Nat} {s s' : System}

theorem OnTrail.retime (ttl' : Int) (h : s.OnTrail i t row user ttl k) (hk : k ≤ 1) :
    s.OnTrail i t row user ttl' k := by
  refine ⟨?_, h.after.retime ttl' (by omega), h.free⟩
  obtain ⟨pc, hx, hp⟩ := h.proc
  refine ⟨pc, hx, ?_⟩
  obtain rfl | rfl : k = 0 ∨ k = 1 := by omega
  · exact hp
  · exact hp

theorem OnTrail.tick (h : s.OnTrail i t row user ttl k) (d : Nat) :
    ({ s with clock := s.clock + d } : System).OnTrail i t row user ttl k :=
  ⟨h.proc, h.after, h.free⟩

/-- A `refresh` that is about to update a row holds none. -/
theorem refresh_updates {pc : Pc} {a : Bool} {u : String}
    (h : (⟨.refresh t, pc, a⟩ : Proc).updates = some u) :
    u = t ∧ (⟨.refresh t, pc, a⟩ : Proc).locks = none := by
  cases pc with
  | revoke next p =>
    cases p with
    | update => exact ⟨(Option.some.inj h).symm, rfl⟩
    | _ => cases h
  | _ => cases h

theorem OnTrail.unlocked (h : s.OnTrail i t row user ttl k) {pc : Pc}
    (hx : s.procs[i]? = some ⟨.refresh t, pc, true⟩) : s.unlocked ⟨.refresh t, pc, true⟩ = true := by
  unfold System.unlocked
  split
  · rename_i u hu
    obtain ⟨rfl, hown⟩ := refresh_updates hu
    refine List.all_eq_true.mpr fun y hy => ?_
    obtain ⟨j, hj⟩ := List.mem_iff_getElem?.mp hy
    by_cases hji : j = i
    · -- it has not updated the row itself
      subst hji
      obtain rfl : y = _ := Option.some.inj (hj.symm.trans hx)
      simp [hown]
    · exact decide_eq_true (h.free j y hj hji)
  · rfl

variable (cfg verifyPassword) in
/-- What the next operation of call `i` does, if `uuid4` returns an unused id. -/
theorem OnTrail.step_next (h : s.OnTrail i t row user ttl k) (hk : k < 10) (hrev : row.revoked = false)
    (hread : k = 1 → row.expired s.clock = false ∧ row.remainingTtl s.clock = ttl) (uuid : String) :
    ∃ x st pc, s.procs[i]? = some x ∧ x.call = .refresh t ∧ x.alive = true ∧
      After t row user ttl (k + 1) st ∧ Trail user row ttl (k + 1) pc ∧
      ∀ o, s.step cfg verifyPassword (.next i uuid o) =
        if s.fresh x uuid then
          some { s with
            store := (settle s.store (st, pc) o).1
            procs := s.procs.set i { x with pc := (settle s.store (st, pc) o).2 } }
        else none := by
  obtain ⟨pc, hx, hp⟩ := h.proc
  obtain ⟨st, pc', hop, hafter, htrail⟩ :=
    trail_step cfg s.clock uuid hk h.after hp hrev hread
  refine ⟨_, st, pc', hx, rfl, rfl, hafter, htrail, fun o => ?_⟩
  simp [System.step, hx, h.unlocked hx, Call.step, hop]

variable (cfg verifyPassword) in
/-- A call that is answered has no next operation. -/
theorem OnTrail.step_none (h : s.OnTrail i t row user ttl k) (hk : 10 ≤ k) (uuid : String) (o : Outcome) :
    s.step cfg verifyPassword (.next i uuid o) = none := by
  obtain ⟨pc, hx, hp⟩ := h.proc
  obtain rfl | hlt : k = 10 ∨ 10 < k := by omega
  · obtain ⟨p, rfl⟩ := hp
    simp [System.step, hx, Call.step, refreshStep]
  · obtain ⟨m, rfl⟩ : ∃ m, k = m + 11 := ⟨k - 11, by omega⟩
    exact hp.elim

/-- An operation that succeeds. -/
theorem OnTrail.ok (h : s.OnTrail i t row user ttl k) {x : Proc} {st : Store} {pc : Pc}
    (hx : s.procs[i]? = some x) (hc : x.call = .refresh t) (ha : x.alive = true)
    (hafter : After t row user ttl (k + 1) st) (hp : Trail user row ttl (k + 1) pc) :
    ({ s with store := st, procs := s.procs.set i { x with pc } } : System).OnTrail i t row user ttl
      (k + 1) := by
  obtain ⟨c, pc₀, a⟩ := x
  simp only at hc ha
  subst hc ha
  refine ⟨⟨pc, Procs.set_self hx, hp⟩, hafter, ?_⟩
  intro j y hy hji
  simp only at hy
  rw [List.getElem?_set_ne (Ne.symm hji)] at hy
  exact h.free j y hy hji

/-- The time a step takes. -/
def Lbl.ticks : Lbl → Nat
  | .tick d => d
  | _ => 0

theorem step_clock {l : Lbl} (hst : s.step cfg verifyPassword l = some s') :
    s'.clock = s.clock + Lbl.ticks l := by
  cases steps_of_step hst <;> rfl

theorem run_clock {ls : List Lbl} (hrun : (lts cfg verifyPassword).Run s ls s') :
    s'.clock = s.clock + (ls.map Lbl.ticks).sum := by
  induction hrun with
  | nil => rfl
  | cons hst _ ih =>
    rw [ih, step_clock hst, List.map_cons, List.sum_cons, Nat.add_assoc]

theorem ticks_ops (ops : List (Nat × String)) :
    ((ops.flatMap (Attempt.opLabels i)).map Lbl.ticks).sum = Attempt.elapsed ops := by
  induction ops with
  | nil => rfl
  | cons op ops ih =>
    rw [List.flatMap_cons, List.map_append, List.sum_append, ih]
    simp [Attempt.opLabels, Attempt.elapsed, Lbl.ticks]

/-- A successful operation, and the time before it. -/
theorem OnTrail.op (h : s.OnTrail i t row user ttl k) (hrev : row.revoked = false) {op : Nat × String}
    (hread : k = 1 → row.expired (s.clock + op.1) = false ∧ row.remainingTtl (s.clock + op.1) = ttl)
    (hrun : (lts cfg verifyPassword).Run s (Attempt.opLabels i op) s') :
    s'.OnTrail i t row user ttl (k + 1) := by
  cases hrun with
  | cons htick hrun =>
    cases hrun with
    | cons hnext hrun =>
      cases hrun
      obtain rfl := Option.some.inj htick
      have ht := h.tick op.1
      have hk : k < 10 := by
        by_contra hge
        have hnone := ht.step_none cfg verifyPassword (by omega) op.2 .ok
        rw [show step cfg verifyPassword _ (.next i op.2 .ok) = some s' from hnext] at hnone
        cases hnone
      obtain ⟨x, st, pc, hx, hc, ha, hafter, hp, hstep⟩ :=
        ht.step_next cfg verifyPassword hk hrev hread op.2
      have hs := (hstep .ok).symm.trans hnext
      split at hs
      · obtain rfl := Option.some.inj hs
        exact ht.ok hx hc ha hafter hp
      · cases hs

theorem expired_mono {now d : Nat} (h : row.expired (now + d) = false) : row.expired now = false := by
  simp only [RefreshToken.expired, decide_eq_false_iff_not] at h ⊢
  omega

theorem OnTrail.ops (hrev : row.revoked = false) : ∀ {ops : List (Nat × String)} {k : Nat} {s : System},
    s.OnTrail i t row user ttl k → row.expired (s.clock + Attempt.elapsed ops) = false →
    (2 ≤ k + ops.length → k ≤ 1 →
      row.remainingTtl (s.clock + Attempt.elapsed (ops.take (2 - k))) = ttl) →
    (lts cfg verifyPassword).Run s (ops.flatMap (Attempt.opLabels i)) s' →
    s'.OnTrail i t row user ttl (k + ops.length)
  | [], k, s, h, hexp, hread, hrun => by
    cases hrun
    exact h
  | op :: ops, k, s, h, hexp, hread, hrun => by
    rw [List.flatMap_cons] at hrun
    obtain ⟨m, hop, hops⟩ := hrun.of_append
    have helapsed : s.clock + Attempt.elapsed (op :: ops) = s.clock + op.1 + Attempt.elapsed ops := by
      simp [Attempt.elapsed, Nat.add_assoc]
    rw [helapsed] at hexp
    have hread1 : k = 1 → row.expired (s.clock + op.1) = false ∧
        row.remainingTtl (s.clock + op.1) = ttl := by
      rintro rfl
      refine ⟨expired_mono hexp, ?_⟩
      simpa [Attempt.elapsed] using hread (by simp only [List.length_cons]; omega) (by omega)
    have hm := h.op hrev hread1 hop
    have hclock : m.clock = s.clock + op.1 := run_clock hop
    have hread2 : 2 ≤ k + 1 + ops.length → k + 1 ≤ 1 →
        row.remainingTtl (m.clock + Attempt.elapsed (ops.take (2 - (k + 1)))) = ttl := by
      intro hlen hk
      obtain rfl : k = 0 := by omega
      have h2 := hread (by simp only [List.length_cons]; omega) (by omega)
      simpa [hclock, Attempt.elapsed, Nat.add_assoc] using h2
    have hs' := OnTrail.ops hrev hm (by rw [hclock]; exact hexp) hread2 hops
    have hlen : k + (op :: ops).length = k + 1 + ops.length := by
      simp only [List.length_cons]
      omega
    rw [hlen]
    exact hs'

/-- How the call has failed: the effects it has had, and no row it holds. -/
theorem OnTrail.fails (h : s.OnTrail i t row user ttl k) (hrev : row.revoked = false) {f : Failure}
    (hexp : row.expired s.clock = false) (hread : k = 1 → row.remainingTtl s.clock = ttl)
    (hst : s.step cfg verifyPassword (Attempt.failureLabel i f) = some s') :
    After t row user ttl (k + f.effects) s'.store ∧
      ∀ x ∈ s'.procs, x.locks ≠ some t := by
  have hfree {x' : Proc} (hx' : x'.locks = none) : ∀ x ∈ s.procs.set i x', x.locks ≠ some t := by
    intro y hy
    obtain ⟨j, hj⟩ := List.mem_iff_getElem?.mp hy
    obtain ⟨pc, hx, -⟩ := h.proc
    rcases Procs.set_cases hx hj with ⟨-, rfl⟩ | ⟨hji, hj⟩
    · simp [hx']
    · exact h.free j y hj hji
  cases f with
  | crash =>
    obtain ⟨pc, hx, -⟩ := h.proc
    simp only [Attempt.failureLabel, System.step, hx, Option.some.injEq] at hst
    subst hst
    refine ⟨h.after, hfree ?_⟩
    cases pc with
    | revoke next p => cases p <;> rfl
    | _ => rfl
  | raised uuid took =>
    have hk : k < 10 := by
      by_contra hge
      have hnone := h.step_none cfg verifyPassword (by omega) uuid
      cases took <;> simp [Attempt.failureLabel, hnone] at hst
    obtain ⟨x, st, pc, hx, hc, ha, hafter, -, hstep⟩ :=
      h.step_next cfg verifyPassword hk hrev (fun h1 => ⟨hexp, hread h1⟩) uuid
    have hnone (e : AppError) : (⟨x.call, .done (.error e), x.alive⟩ : Proc).locks = none := by
      rw [hc]
      rfl
    cases took with
    | false =>
      simp only [Attempt.failureLabel, hstep, settle] at hst
      split at hst
      · obtain rfl := Option.some.inj hst
        exact ⟨h.after, hfree (hnone _)⟩
      · cases hst
    | true =>
      simp only [Attempt.failureLabel, hstep, settle] at hst
      split at hst
      · obtain rfl := Option.some.inj hst
        exact ⟨hafter, hfree (hnone _)⟩
      · cases hst

/-! ## Whether the token is accepted afterwards -/

theorem exists_fresh (s : System) : ∃ uuid, ∀ x, s.fresh x uuid = true := by
  let used : List String := s.store.tokens.map RefreshToken.tokenId ++ s.procs.filterMap Proc.inserts
  obtain ⟨uuid, hnew⟩ := Infinite.exists_notMem_finset used.toFinset
  simp only [used, List.mem_toFinset, List.mem_append, List.mem_map, List.mem_filterMap, not_or,
    not_exists, not_and] at hnew
  refine ⟨uuid, fun x => ?_⟩
  have htoken : s.store.token uuid = none := Table.get_eq_none.mpr hnew.1
  have hinserts : (s.procs.all fun y => decide (y.inserts ≠ some uuid)) = true := by
    simpa using hnew.2
  unfold fresh
  split
  · simp only [htoken, hinserts]
    rfl
  · rfl

variable (cfg verifyPassword) in
/-- The rest of a `refresh`, with no time passing. -/
theorem OnTrail.finish (hrev : row.revoked = false) (hexp : row.expired s.clock = false)
    (hread : row.remainingTtl s.clock = ttl) : ∀ (n : Nat) {s₁ : System}, s₁.OnTrail i t row user ttl k →
      s₁.clock = s.clock → k + n = 10 → ∃ (uuids : List String) (s₂ : System),
        (lts cfg verifyPassword).Run s₁ (uuids.map fun uuid => .next i uuid .ok) s₂ ∧
          s₂.OnTrail i t row user ttl 10 := by
  intro n
  induction n generalizing k with
  | zero =>
    intro s₁ h _ hk
    obtain rfl : k = 10 := hk
    exact ⟨[], s₁, .nil _, h⟩
  | succ n ih =>
    intro s₁ h hclock hk
    obtain ⟨uuid, hfresh⟩ := s₁.exists_fresh
    obtain ⟨x, st, pc, hx, hc, ha, hafter, hp, hstep⟩ :=
      h.step_next cfg verifyPassword (by omega) hrev
        (fun _ => by rw [hclock]; exact ⟨hexp, hread⟩) uuid
    have hok := hstep .ok
    rw [if_pos (hfresh x)] at hok
    obtain ⟨uuids, s₂, hrun, hs₂⟩ := ih (h.ok hx hc ha hafter hp) hclock (by omega)
    exact ⟨uuid :: uuids, s₂, .cons hok hrun, hs₂⟩

/-- A token that is neither revoked nor in the blacklist, nor held by a transaction, is accepted. -/
theorem accepts_of_standing (hs : Standing t row user false false s.store) (hrev : row.revoked = false)
    (hfree : ∀ x ∈ s.procs, x.locks ≠ some t) (hexp : row.expired s.clock = false) :
    s.Accepts cfg verifyPassword t := by
  let s₁ : System := { s with procs := s.procs ++ [⟨.refresh t, .exists, true⟩] }
  have h₁ : s₁.OnTrail s.procs.length t row user (row.remainingTtl s.clock) 0 := by
    refine ⟨⟨.exists, Procs.spawn_new, rfl⟩, ?_, ?_⟩
    · simpa [After] using hs
    · intro j x hx hj
      rcases Procs.spawn_cases hx with hx | ⟨he, -⟩
      · exact hfree x (List.mem_of_getElem? hx)
      · exact absurd he hj
  obtain ⟨uuids, s₂, hrun, h₂⟩ :=
    OnTrail.finish cfg verifyPassword hrev hexp rfl 10 h₁ rfl rfl
  obtain ⟨pc, hx, p, rfl⟩ := h₂.proc
  exact ⟨uuids, s₂, _, p, .cons rfl hrun, hx, rfl⟩

/-- A `refresh` of a token that is spent or in the blacklist, on its way to a 401. -/
structure Refusing (i : Nat) (t : String) (s : System) : Prop where
  bad : s.store.Spent t ∨ s.store.blacklist t = true
  proc : ∃ pc, s.procs[i]? = some ⟨.refresh t, pc, true⟩ ∧ Refused pc ∧ (pc = .row → s.store.Spent t)

theorem Refusing.next (h : s.Refusing i t) {uuid : String}
    (hst : s.step cfg verifyPassword (.next i uuid .ok) = some s') : s'.Refusing i t := by
  obtain ⟨pc, hx, hp, hrow⟩ := h.proc
  simp only [System.step, hx, Call.step] at hst
  split at hst
  · simp only [Option.map_eq_some_iff] at hst
    obtain ⟨⟨st, pc'⟩, hop, rfl⟩ := hst
    rcases hp with rfl | rfl | rfl | rfl
    · simp only [refreshStep, Option.some.injEq, Prod.mk.injEq] at hop
      obtain ⟨rfl, rfl⟩ := hop
      refine ⟨h.bad, _, Procs.set_self hx, ?_⟩
      simp only [settle]
      split
      · exact ⟨.inr (.inr (.inl rfl)), by simp⟩
      · rename_i hlist
        exact ⟨.inr (.inl rfl), fun _ => h.bad.resolve_right hlist⟩
    · obtain ⟨r, hr, hrev⟩ := hrow rfl
      simp only [refreshStep, hr, hrev, Bool.true_or, if_true, Option.some.injEq, Prod.mk.injEq] at hop
      obtain ⟨rfl, rfl⟩ := hop
      exact ⟨h.bad, _, Procs.set_self hx, .inr (.inr (.inr rfl)), by simp [settle]⟩
    · cases hop
    · cases hop
  · cases hst

theorem Refusing.run {uuids : List String} (h : s.Refusing i t)
    (hrun : (lts cfg verifyPassword).Run s (uuids.map fun uuid => .next i uuid .ok) s') :
    s'.Refusing i t := by
  induction uuids generalizing s with
  | nil =>
    cases hrun
    exact h
  | cons uuid uuids ih =>
    cases hrun with
    | cons hst hrun => exact ih (h.next hst) hrun

/-- A token that is revoked or in the blacklist is not accepted. -/
theorem not_accepts (hbad : s.store.Spent t ∨ s.store.blacklist t = true) :
    ¬ s.Accepts cfg verifyPassword t := by
  rintro ⟨uuids, s', x, p, hrun, hx, hp⟩
  cases hrun with
  | cons hcall hrun =>
    obtain rfl := Option.some.inj hcall
    have h₁ : Refusing s.procs.length t { s with procs := s.procs ++ [⟨.refresh t, .exists, true⟩] } :=
      ⟨hbad, .exists, Procs.spawn_new, .inl rfl, by simp⟩
    obtain ⟨pc, hx', hpc, -⟩ := (h₁.run hrun).proc
    obtain rfl : x = _ := Option.some.inj (hx.symm.trans hx')
    simp only at hp
    subst hp
    simp [Refused] at hpc

theorem usable_iff_standing {revoked listed : Bool} (hs : Standing t row user revoked listed s.store)
    (hrev : row.revoked = false) (hfree : ∀ x ∈ s.procs, x.locks ≠ some t)
    (hexp : row.expired s.clock = false) :
    s.Usable cfg verifyPassword t ↔ revoked = false ∧ listed = false := by
  constructor
  · intro h
    have hacc := h 0 _ hs.token hexp
    by_contra hbad
    refine not_accepts (s := { s with clock := s.clock + 0 }) ?_ hacc
    cases revoked with
    | true => exact .inl ⟨_, hs.token, rfl⟩
    | false =>
      cases listed with
      | true => exact .inr hs.blacklist
      | false => exact absurd ⟨rfl, rfl⟩ hbad
  · rintro ⟨rfl, rfl⟩ d row' hrow' hexp'
    have hsame : row' = row := by
      have h := hrow'.symm.trans hs.token
      rw [← hrev] at h
      exact Option.some.inj h
    subst hsame
    exact accepts_of_standing (s := { s with clock := s.clock + d }) hs hrev hfree hexp'

/-! ## The run that goes wrong -/

/-- The insert of the new token is not committed. -/
def insertFails : Attempt where
  ops := List.replicate 8 (1000, "A")
  wait := 1000
  failure := .raised "A" false

theorem valid_oneSession : oneSession.Valid "T" ⟨"T", ada.id, 1209600, false⟩ ada :=
  ⟨rfl, rfl, rfl, rfl, rfl, by simp [oneSession]⟩

/-- **Counterexample.** The refresh fails, and the token is refused from then on. -/
theorem session_stranded :
    ¬ ∀ (cfg : Settings) (verifyPassword : String → String → Bool) (s s' : System) (t : String)
        (row : RefreshToken) (user : User) (a : Attempt), s.Valid t row user →
        (lts cfg verifyPassword).Run s (a.labels t s.procs.length) s' → s'.Fails s.procs.length →
        row.expired s'.clock = false → s'.Usable cfg verifyPassword t := by
  obtain ⟨s', hrun, hs⟩ : ∃ s', (lts {} fun _ _ => true).Run oneSession (insertFails.labels "T" 0) s' ∧
      (decide (s'.procs = [⟨.refresh "T", .done (.error internalError), true⟩]) &&
        decide (s'.clock < 100000) && ((s'.store.token "T").any fun r => r.revoked && r.expiresAt == 1209600)) = true :=
    LTS.exists_run_of_exec (insertFails.labels "T" 0) (by decide +kernel)
  simp only [Bool.and_eq_true, decide_eq_true_eq, Option.any_eq_true, beq_iff_eq] at hs
  obtain ⟨⟨hprocs, hclock⟩, row, hrow, hrev, hkept⟩ := hs
  intro h
  have hexp : RefreshToken.expired ⟨"T", ada.id, 1209600, false⟩ s'.clock = false := by
    exact decide_eq_false (by simp only [microseconds]; omega)
  have hfails : s'.Fails 0 := by
    intro x p hx
    rw [hprocs] at hx
    obtain rfl := Option.some.inj hx
    simp
  have husable := h {} (fun _ _ => true) oneSession s' "T" _ ada insertFails valid_oneSession hrun hfails
    hexp
  have hrow' : row.expired s'.clock = false := by
    refine decide_eq_false ?_
    have hexpires : row.expiresAt = 1209600 := hkept
    simp only [hexpires, microseconds]
    omega
  exact not_accepts (s := { s' with clock := s'.clock + 0 }) (.inl ⟨row, hrow, hrev⟩)
    (husable 0 row hrow hrow')

/-! ## When a refresh that fails leaves the session usable -/

/-- What an attempt leaves. -/
theorem attempt_after {a : Attempt} (hv : s.Valid t row user)
    (hrun : (lts cfg verifyPassword).Run s (a.labels t s.procs.length) s')
    (hexp : row.expired s'.clock = false) :
    After t row user (row.remainingTtl (a.readAt s.clock)) a.effects s'.store ∧
      ∀ x ∈ s'.procs, x.locks ≠ some t := by
  have hstand : Standing t row user false false s.store := by
    refine ⟨?_, hv.unlisted, hv.user⟩
    rw [hv.known, ← hv.unrevoked]
  cases hrun with
  | cons hcall hrun =>
    obtain rfl := Option.some.inj hcall
    have h₁ : OnTrail s.procs.length t row user (row.remainingTtl (a.readAt s.clock)) 0
        { s with procs := s.procs ++ [⟨.refresh t, .exists, true⟩] } := by
      refine ⟨⟨.exists, Procs.spawn_new, rfl⟩, by simpa [After] using hstand, ?_⟩
      intro j x hx hj
      rcases Procs.spawn_cases hx with hx | ⟨he, -⟩
      · exact hv.free x (List.mem_of_getElem? hx)
      · exact absurd he hj
    obtain ⟨m, hops, hlast⟩ := LTS.Run.of_append hrun
    cases hlast with
    | cons htick hlast =>
      cases hlast with
      | cons hfail hlast =>
        cases hlast
        obtain rfl := Option.some.inj htick
        have hclock : m.clock = s.clock + Attempt.elapsed a.ops := by
          rw [run_clock hops, ticks_ops]
        have hend : s'.clock = m.clock + a.wait := by
          rw [step_clock hfail]
          cases a.failure with
          | crash => rfl
          | raised uuid took => cases took <;> rfl
        rw [hend] at hexp
        have hm := OnTrail.ops hv.unrevoked h₁ (by rw [← hclock]; exact expired_mono hexp)
          (fun _ _ => rfl) hops
        rw [Nat.zero_add] at hm
        by_cases hone : a.ops.length = 1
        · -- it fails when it reads the row
          have hat := (hm.tick a.wait).retime (row.remainingTtl (m.clock + a.wait)) hone.le
          obtain ⟨hafter, hfree⟩ := hat.fails hv.unrevoked hexp (fun _ => rfl) hfail
          refine ⟨hafter.retime _ ?_, hfree⟩
          have hle : a.failure.effects ≤ 1 := by
            unfold Failure.effects
            split <;> decide
          omega
        · exact (hm.tick a.wait).fails hv.unrevoked hexp (fun h => absurd h hone) hfail

/-- **Usable sessions.** Whatever becomes of a `refresh` of a valid token that runs by itself, the token
is accepted afterwards until it expires if and only if fewer than four of the operations have taken
effect, or fewer than six and less than a second of its lifetime was left when its row was read. -/
theorem session_usable_iff {a : Attempt} (hv : s.Valid t row user)
    (hrun : (lts cfg verifyPassword).Run s (a.labels t s.procs.length) s')
    (hexp : row.expired s'.clock = false) :
    s'.Usable cfg verifyPassword t ↔
      a.effects < 4 ∨ a.effects < 6 ∧ row.remainingTtl (a.readAt s.clock) ≤ 0 := by
  obtain ⟨hafter, hfree⟩ := attempt_after hv hrun hexp
  rw [usable_iff_standing hafter hv.unrevoked hfree hexp]
  simp only [decide_eq_false_iff_not]
  omega

/-- The process dies when the blacklist entry is about to be made. -/
def crashesEarly : Attempt where
  ops := List.replicate 3 (1000, "A")
  wait := 1000
  failure := .crash

theorem session_usable_crashesEarly : ∃ s',
    (lts {} fun _ _ => true).Run oneSession (crashesEarly.labels "T" 0) s' ∧
      s'.Usable {} (fun _ _ => true) "T" := by
  obtain ⟨s', hrun, hs⟩ : ∃ s', (lts {} fun _ _ => true).Run oneSession (crashesEarly.labels "T" 0) s' ∧
      decide (s'.clock < 100000) = true :=
    LTS.exists_run_of_exec (crashesEarly.labels "T" 0) (by decide +kernel)
  have hclock := of_decide_eq_true hs
  have hexp : RefreshToken.expired ⟨"T", ada.id, 1209600, false⟩ s'.clock = false :=
    decide_eq_false (by simp only [microseconds]; omega)
  exact ⟨s', hrun, (session_usable_iff valid_oneSession hrun hexp).mpr (.inl (by decide))⟩

end
end System
end Gestalt.Auth
