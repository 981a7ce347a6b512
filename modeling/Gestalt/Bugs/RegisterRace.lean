import Gestalt.L3Auth.Register

/-!
# The losing registration

Status: open.

Behaviour: `register` looks the e-mail up and inserts the account afterwards
(services/auth-service/app/routers/auth.py:59-64). Two calls that both look before the
first commits both insert; the UNIQUE constraint raises `IntegrityError` in the
second, nothing catches it, and the caller is answered 500 `INTERNAL_ERROR`.

Documented: API_REFERENCE.md:60, "Duplicate email → `409 EMAIL_TAKEN`"; routers/auth.py:61;
tests/test_auth.py:45, `test_duplicate_registration_returns_409`. `create_order`
catches the `IntegrityError` of its own race (order-service/app/routers/orders.py:92).

Counterexample: `bothLook`.

Fix: catch `IntegrityError`, roll back and answer with `EMAIL_TAKEN`.
-/
namespace Gestalt.Auth.Register

def Pc.isDone : Pc → Bool
  | .done _ => true
  | _ => false

/-- The e-mail of a call that has found it free and not committed its account. -/
def Proc.pending (x : Proc) : Option String :=
  match x.pc with
  | .insert | .commit _ => some x.body.email
  | _ => none

namespace System

def Completed (s : System) : Prop := ∀ x ∈ s.procs, ∃ a, x.pc = .done a

/-- Of the calls with one e-mail, which nobody had at first, one creates the account and the others are
told that it is taken. -/
def FirstCome (s₀ s : System) : Prop :=
  ∀ email, (∀ u ∈ s₀.users, u.email ≠ email) → (∃ x ∈ s.procs, x.body.email = email) →
    ∃ (i : Nat) (x : Proc) (r : RegisterResponse), s.procs[i]? = some x ∧ x.pc = .done (.created r) ∧
      (∃ u, s.users.filter (fun v => v.email = email) = [u] ∧ r = ⟨u.id, email⟩) ∧
      ∀ (j : Nat) (y : Proc), j ≠ i → s.procs[j]? = some y → y.body.email = email →
        y.pc = .done (.error emailTaken)

/-- No call finds an e-mail free while another that has found it free has yet to commit. -/
def looksApart (s : System) : Lbl → Bool
  | .next i _ =>
    match s.procs[i]? with
    | some ⟨body, .select⟩ =>
      (byEmail s.users body.email).isSome || s.procs.all fun y => decide (y.pending ≠ some body.email)
    | _ => true
  | .call _ => true

def apartLts : LTS System Lbl := lts.restrict fun s l => looksApart s l = true

/-! ## When they keep apart -/

/-- No call is about to insert what another has inserted. -/
structure Apart (s : System) : Prop where
  sole : Procs.Sole Proc.pending s.procs
  free : ∀ x ∈ s.procs, ∀ email, x.pending = some email → byEmail s.users email = none
  clean : ∀ x ∈ s.procs, x.pc ≠ .done (.error internalError)

variable {s₀ s s' : System}

/-- A step that leaves the table alone. -/
theorem apart_set {i : Nat} {x y : Proc} (hI : s.Apart) (hx : s.procs[i]? = some x)
    (hpending : ∀ email, y.pending = some email → byEmail s.users email = none ∧
      (x.pending = some email ∨ ∀ z ∈ s.procs, z.pending ≠ some email))
    (hclean : y.pc ≠ .done (.error internalError)) : Apart { s with procs := s.procs.set i y } := by
  refine ⟨hI.sole.set hx fun email he => (hpending email he).2, fun z hz email he => ?_, fun z hz => ?_⟩ <;>
    rcases List.mem_or_eq_of_mem_set hz with hz | rfl
  · exact hI.free z hz email he
  · exact (hpending email he).1
  · exact hI.clean z hz
  · exact hclean

theorem apart_commit {i : Nat} {x : Proc} {user : User} (hA : Accounts s₀ s) (hI : s.Apart)
    (hx : s.procs[i]? = some x) (hpc : x.pc = .commit user) :
    Apart { users := s.users ++ [user], procs := s.procs.set i { x with pc := .readBack user } } := by
  obtain ⟨hemail, -⟩ := hA.held x (List.mem_of_getElem? hx) user (by simp [Proc.inserts, hpc])
  refine ⟨hI.sole.set hx (fun email he => by cases he), fun z hz email he => ?_, fun z hz => ?_⟩
  · obtain ⟨j, hj⟩ := List.mem_iff_getElem?.mp hz
    rcases Procs.set_cases hx hj with ⟨-, rfl⟩ | ⟨hji, hz'⟩
    · cases he
    · refine byEmail_none.mpr fun u hu hue => ?_
      rcases List.mem_append.mp hu with hu | hu
      · exact byEmail_none.mp (hI.free z (List.mem_of_getElem? hz') email he) u hu hue
      · obtain rfl := List.mem_singleton.mp hu
        -- then both were about to insert it
        refine hji (hI.sole j i z x email hz' hx he ?_)
        rw [Proc.pending, hpc, ← hue, hemail]
  · rcases List.mem_or_eq_of_mem_set hz with hz | rfl
    · exact hI.clean z hz
    · exact Pc.noConfusion

theorem apart_step {l : Lbl} (hA : Accounts s₀ s) (hI : s.Apart) (h : s.step l = some s')
    (hG : s.looksApart l = true) : s'.Apart := by
  cases steps_of_step h with
  | call body =>
    refine ⟨hI.sole.spawn rfl, fun x hx email he => ?_, fun x hx => ?_⟩ <;>
      rcases List.mem_append.mp hx with hx | hx
    · exact hI.free x hx email he
    · obtain rfl := List.mem_singleton.mp hx
      cases he
    · exact hI.clean x hx
    · obtain rfl := List.mem_singleton.mp hx
      exact Pc.noConfusion
  | @next i draw x users' pc' hx hi hm =>
    have hx' := List.mem_of_getElem? hx
    generalize hpc : x.pc = pc at hm
    cases hm with
    | taken hu => exact apart_set hI hx (by rintro _ ⟨⟩) (by simp [internalError, emailTaken])
    | free hu =>
      refine apart_set hI hx ?_ Pc.noConfusion
      rintro email ⟨⟩
      refine ⟨hu, .inr fun z hz => ?_⟩
      obtain ⟨body, pc⟩ := x
      obtain rfl : pc = .select := hpc
      simp only [looksApart, hx, Option.isSome_none, hu, Bool.false_or, List.all_eq_true,
        decide_eq_true_eq] at hG
      exact hG z hz
    | conflict hu =>
      have hfree := hI.free x hx' x.body.email (by rw [Proc.pending, hpc])
      rw [hu] at hfree
      cases hfree
    | insert hu =>
      refine apart_set hI hx ?_ Pc.noConfusion
      rintro email ⟨⟩
      exact ⟨hu, .inl (by rw [Proc.pending, hpc])⟩
    | commit => exact apart_commit hA hI hx hpc
    | answer => exact apart_set hI hx (by rintro _ ⟨⟩) (by simp)

theorem apart_run {ls : List Lbl} (h0 : init s₀) (hr : apartLts.Run s₀ ls s) : s.Apart := by
  have hboth : Accounts s₀ s ∧ s.Apart := by
    refine hr.keeps (P := fun s => Accounts s₀ s ∧ s.Apart) ?_ ?_
    · rintro s l s' hst ⟨hA, hI⟩
      exact ⟨accounts_step hA hst.1, apart_step hA hI hst.1 hst.2⟩
    · refine ⟨accounts_run h0 (.nil s₀), ?_⟩
      constructor <;> simp [h0.1, Procs.Sole.nil]
  exact hboth.2

/-- An e-mail that was nobody's at first is owned by a call. -/
theorem exists_owner (hA : Accounts s₀ s) {email : String} (hnew : ∀ u ∈ s₀.users, u.email ≠ email)
    (hsome : byEmail s.users email ≠ none) : ∃ y ∈ s.procs, y.owns = some email := by
  obtain ⟨u, hu⟩ := Option.ne_none_iff_exists'.mp hsome
  obtain ⟨hmem, rfl⟩ := byEmail_some hu
  rcases hA.new u hmem with hold | howner
  · exact absurd rfl (hnew u hold)
  · exact howner

theorem owns_of_created (hA : Accounts s₀ s) {x : Proc} {r : RegisterResponse} (hx : x ∈ s.procs)
    (hpc : x.pc = .done (.created r)) : x.owns = some x.body.email := by
  have hacc : x.account = some r := by simp [Proc.account, hpc]
  obtain ⟨hre, -⟩ := hA.account x hx r hacc
  simp [Proc.owns, hacc, hre]

theorem firstCome_of_apart (hA : Accounts s₀ s) (hI : s.Apart) (hc : s.Completed) : FirstCome s₀ s := by
  intro email hnew ⟨x, hx, hxe⟩
  have htaken {y : Proc} {e : AppError} (hy : y ∈ s.procs) (he : y.pc = .done (.error e)) :
      e = emailTaken ∧ byEmail s.users y.body.email ≠ none := by
    rcases hA.errors y hy e he with rfl | htaken
    · exact absurd he (hI.clean y hy)
    · exact htaken
  have howner : ∃ y ∈ s.procs, y.owns = some email := by
    subst hxe
    obtain ⟨a, ha⟩ := hc x hx
    cases a with
    | created r => exact ⟨x, hx, owns_of_created hA hx ha⟩
    | error e => exact exists_owner hA hnew (htaken hx ha).2
  obtain ⟨y, hy, hye⟩ := howner
  obtain ⟨i, hi⟩ := List.mem_iff_getElem?.mp hy
  obtain ⟨r, hr, rfl⟩ := Option.map_eq_some_iff.mp hye
  have hpc : y.pc = .done (.created r) := by
    obtain ⟨a, ha⟩ := hc y hy
    cases a <;> simp_all [Proc.account]
  refine ⟨i, y, r, hi, hpc, ?_, fun j z hji hz hze => ?_⟩
  · obtain ⟨-, u, hu, hid, hue⟩ := hA.account y hy r hr
    refine ⟨u, Table.filter_eq_singleton hA.emails.nodup hu (by simpa using hue) fun v hv hve => ?_, ?_⟩
    · exact hA.emails.eq hv hu ((of_decide_eq_true hve).trans hue.symm)
    · rw [hid]
  · have hz' := List.mem_of_getElem? hz
    obtain ⟨a, ha⟩ := hc z hz'
    cases a with
    | created r' =>
      have hown := owns_of_created hA hz' ha
      rw [hze] at hown
      exact absurd (hA.owner j i z y r.email hz hi hown hye) hji
    | error e =>
      obtain ⟨rfl, -⟩ := htaken hz' ha
      exact ha

/-! ## When they do not -/

end System

/-- The e-mail of a call that is answered with an internal error. -/
def Proc.failed (x : Proc) : Option String :=
  if x.pc = .done (.error internalError) then some x.body.email else none

namespace System

variable {s₀ s s' : System}

/-- A call with the e-mail has failed or will: two are about to insert it, or one when it is taken. -/
def Doomed (email : String) (s : System) : Prop :=
  (∃ x ∈ s.procs, x.failed = some email) ∨
    (∃ (i j : Nat) (x y : Proc), i ≠ j ∧ s.procs[i]? = some x ∧ s.procs[j]? = some y ∧
      x.pending = some email ∧ y.pending = some email) ∨
    ∃ x ∈ s.procs, x.pending = some email ∧ byEmail s.users email ≠ none

theorem byEmail_append {users : List User} {user : User} {email : String}
    (h : byEmail users email ≠ none) : byEmail (users ++ [user]) email ≠ none := by
  intro hn
  exact h (byEmail_none.mpr fun u hu => byEmail_none.mp hn u (List.mem_append_left _ hu))

/-- What becomes of a call that is about to insert the e-mail. -/
theorem Moves.pending {users users' : List User} {x : Proc} {pc' : Pc} {email : String}
    (hm : Moves users x.body x.pc users' pc') (hp : x.pending = some email)
    (hins : ∀ u, x.inserts = some u → u.email = x.body.email ∧ byEmail users u.email = none) :
    (({ x with pc := pc' } : Proc).pending = some email ∧ users' = users) ∨
      (({ x with pc := pc' } : Proc).failed = some email ∧ users' = users) ∨
      (byEmail users email = none ∧ byEmail users' email ≠ none) := by
  generalize hpc : x.pc = pc at hm
  cases hm with
  | taken | free | answer => simp [Proc.pending, hpc] at hp
  | conflict =>
    obtain rfl : x.body.email = email := by simpa [Proc.pending, hpc] using hp
    exact .inr (.inl ⟨by simp [Proc.failed], rfl⟩)
  | insert =>
    obtain rfl : x.body.email = email := by simpa [Proc.pending, hpc] using hp
    exact .inl ⟨rfl, rfl⟩
  | @commit user =>
    obtain rfl : x.body.email = email := by simpa [Proc.pending, hpc] using hp
    obtain ⟨he, hn⟩ := hins user (by simp [Proc.inserts, hpc])
    rw [he] at hn
    refine .inr (.inr ⟨hn, fun hnone => ?_⟩)
    exact byEmail_none.mp hnone user (List.mem_append_right _ (List.mem_singleton_self user)) he

theorem Moves.failed {users users' : List User} {x : Proc} {pc' : Pc}
    (hm : Moves users x.body x.pc users' pc') : x.failed = none := by
  generalize hpc : x.pc = pc at hm
  cases hm <;> simp [Proc.failed, hpc]

/-- One of two calls about to insert an e-mail goes on. -/
theorem doomed_pair {k j : Nat} {x y : Proc} {users' : List User} {pc' : Pc} {email : String}
    (hm : Moves s.users x.body x.pc users' pc') (hA : Accounts s₀ s) (hkj : k ≠ j)
    (hx : s.procs[k]? = some x) (hy : s.procs[j]? = some y) (hxp : x.pending = some email)
    (hyp : y.pending = some email) :
    Doomed email { users := users', procs := s.procs.set k { x with pc := pc' } } := by
  have hself := Procs.set_self (a := { x with pc := pc' }) hx
  have hother : (s.procs.set k { x with pc := pc' })[j]? = some y := by
    rw [List.getElem?_set_ne hkj]
    exact hy
  rcases Moves.pending hm hxp (hA.held x (List.mem_of_getElem? hx)) with ⟨hp, rfl⟩ | ⟨hf, rfl⟩ | ⟨-, hsome⟩
  · exact .inr (.inl ⟨k, j, _, y, hkj, hself, hother, hp, hyp⟩)
  · exact .inl ⟨_, List.mem_of_getElem? hself, hf⟩
  · exact .inr (.inr ⟨y, List.mem_of_getElem? hother, hyp, hsome⟩)

theorem doomed_next {k : Nat} {x : Proc} {users' : List User} {pc' : Pc} {email : String}
    (hm : Moves s.users x.body x.pc users' pc') (hA : Accounts s₀ s) (hx : s.procs[k]? = some x)
    (hD : Doomed email s) :
    Doomed email { users := users', procs := s.procs.set k { x with pc := pc' } } := by
  have hself := Procs.set_self (a := { x with pc := pc' }) hx
  rcases hD with hf | ⟨i, j, y, z, hij, hy, hz, hyp, hzp⟩ | ⟨y, hy, hyp, hsome⟩
  · refine .inl (Procs.holder_kept hx ?_ hf)
    rw [Moves.failed hm]
    simp
  · by_cases hki : k = i
    · subst hki
      obtain rfl : x = y := Option.some.inj (hx.symm.trans hy)
      exact doomed_pair hm hA hij hx hz hyp hzp
    · by_cases hkj : k = j
      · subst hkj
        obtain rfl : x = z := Option.some.inj (hx.symm.trans hz)
        exact doomed_pair hm hA hki hx hy hzp hyp
      · refine .inr (.inl ⟨i, j, y, z, hij, ?_, ?_, hyp, hzp⟩) <;>
          rw [List.getElem?_set_ne ‹_›] <;> assumption
  · have hsome' : byEmail users' email ≠ none := by
      generalize x.pc = pc at hm
      cases hm with
      | taken | free | conflict | insert | answer => exact hsome
      | commit => exact byEmail_append hsome
    obtain ⟨j, hj⟩ := List.mem_iff_getElem?.mp hy
    by_cases hkj : k = j
    · subst hkj
      obtain rfl : x = y := Option.some.inj (hx.symm.trans hj)
      rcases Moves.pending hm hyp (hA.held x hy) with ⟨hp, -⟩ | ⟨hf, -⟩ | ⟨hn, -⟩
      · exact .inr (.inr ⟨_, List.mem_of_getElem? hself, hp, hsome'⟩)
      · exact .inl ⟨_, List.mem_of_getElem? hself, hf⟩
      · exact absurd hn hsome
    · refine .inr (.inr ⟨y, List.mem_of_getElem? (i := j) ?_, hyp, hsome'⟩)
      rw [List.getElem?_set_ne hkj]
      exact hj

theorem doomed_step {l : Lbl} {email : String} (hA : Accounts s₀ s) (h : s.step l = some s')
    (hD : Doomed email s) : Doomed email s' := by
  cases steps_of_step h with
  | next hx _ hm => exact doomed_next hm hA hx hD
  | call body =>
    rcases hD with ⟨x, hx, hf⟩ | ⟨i, j, y, z, hij, hy, hz, hp⟩ | ⟨x, hx, hp⟩
    · exact .inl ⟨x, List.mem_append_left _ hx, hf⟩
    · exact .inr (.inl ⟨i, j, y, z, hij, Procs.spawn_old hy, Procs.spawn_old hz, hp⟩)
    · exact .inr (.inr ⟨x, List.mem_append_left _ hx, hp⟩)

/-- Looking while another call has yet to commit. -/
theorem doomed_of_look {l : Lbl} (h : s.step l = some s') (hG : ¬ s.looksApart l = true) :
    ∃ email, byEmail s.users email = none ∧ Doomed email s' := by
  cases steps_of_step h with
  | call body => exact absurd rfl hG
  | @next k draw x users' pc' hx hi hm =>
    obtain ⟨body, pc⟩ := x
    simp only [looksApart, hx] at hG
    cases pc with
    | select =>
      simp only [Bool.or_eq_true, List.all_eq_true, decide_eq_true_eq, not_or, not_forall, not_not,
        Bool.not_eq_true, Option.isSome_eq_false_iff, Option.isNone_iff_eq_none] at hG
      obtain ⟨hnone, y, hy, hyp⟩ := hG
      have hpc' : users' = s.users ∧ pc' = .insert := by
        cases hm with
        | taken hu => rw [hu] at hnone; cases hnone
        | free => exact ⟨rfl, rfl⟩
      obtain ⟨rfl, rfl⟩ := hpc'
      obtain ⟨j, hj⟩ := List.mem_iff_getElem?.mp hy
      have hkj : k ≠ j := by
        rintro rfl
        rw [hx] at hj
        cases hj
        cases hyp
      refine ⟨body.email, hnone, .inr (.inl ⟨k, j, _, y, hkj, Procs.set_self hx, ?_, rfl, hyp⟩)⟩
      rw [List.getElem?_set_ne hkj]
      exact hj
    | _ => exact absurd rfl hG

theorem not_firstCome_of_doomed {email : String} (hc : s.Completed) (hD : Doomed email s)
    (hnew : ∀ u ∈ s₀.users, u.email ≠ email) : ¬ FirstCome s₀ s := by
  have hdone : ∀ x ∈ s.procs, x.pending = none := by
    intro x hx
    obtain ⟨a, ha⟩ := hc x hx
    simp [Proc.pending, ha]
  obtain ⟨x, hx, hf⟩ : ∃ x ∈ s.procs, x.failed = some email := by
    rcases hD with hf | ⟨i, j, y, z, -, hy, -, hyp, -⟩ | ⟨y, hy, hyp, -⟩
    · exact hf
    · rw [hdone y (List.mem_of_getElem? hy)] at hyp
      cases hyp
    · rw [hdone y hy] at hyp
      cases hyp
  obtain ⟨hpc, rfl⟩ : x.pc = .done (.error internalError) ∧ x.body.email = email := by
    unfold Proc.failed at hf
    split at hf
    · exact ⟨‹_›, Option.some.inj hf⟩
    · cases hf
  obtain ⟨j, hj⟩ := List.mem_iff_getElem?.mp hx
  intro h
  obtain ⟨i, y, r, hi, hyc, -, hothers⟩ := h x.body.email hnew ⟨x, hx, rfl⟩
  have hji : j ≠ i := by
    rintro rfl
    obtain rfl : x = y := Option.some.inj (hj.symm.trans hi)
    rw [hpc] at hyc
    cases hyc
  have := hothers j x hji hj rfl
  rw [hpc] at this
  exact absurd this (by decide)

/-! ## The result -/

def ada : RegisterRequest := ⟨"ada@example.com", "password123", by decide⟩

def nobody : System := ⟨[], []⟩

/-- Both look before the first one commits. -/
def bothLook : List Lbl :=
  [.call ada, .call ada, .next 0 ⟨"", ""⟩, .next 1 ⟨"", ""⟩, .next 0 ⟨"A", "h"⟩, .next 0 ⟨"", ""⟩,
    .next 0 ⟨"", ""⟩, .next 1 ⟨"B", "h"⟩]

theorem init_nobody : init nobody := ⟨rfl, .nil, .nil⟩

theorem completed_of_all (h : (s.procs.all fun x => x.pc.isDone) = true) : s.Completed := by
  intro x hx
  have hdone := List.all_eq_true.mp h x hx
  cases hpc : x.pc with
  | done a => exact ⟨a, rfl⟩
  | _ =>
    rw [hpc] at hdone
    cases hdone

/-- **Counterexample.** The second call is answered with an internal error. -/
theorem registration_failed :
    ¬ ∀ s₀ s ls, init s₀ → lts.Run s₀ ls s → s.Completed → FirstCome s₀ s := by
  obtain ⟨s, hr, hs⟩ : ∃ s, lts.Run nobody bothLook s ∧
      ((s.procs.any fun x => decide (x.failed = some ada.email)) &&
        s.procs.all fun x => x.pc.isDone) = true :=
    LTS.exists_run_of_exec bothLook (by decide +kernel)
  simp only [Bool.and_eq_true, List.any_eq_true, decide_eq_true_eq] at hs
  have hc := completed_of_all hs.2
  intro h
  exact not_firstCome_of_doomed hc (.inl hs.1) (by simp [nobody]) (h nobody s bothLook init_nobody hr hc)

/-- **First come.** All calls answered, each e-mail has gone to its first comer with the others told so if and
only if no call has looked it up while another that had found it free had yet to commit. -/
theorem first_come_iff {s₀ s : System} {ls : List Lbl} (h0 : init s₀) (hr : lts.Run s₀ ls s)
    (hc : s.Completed) : FirstCome s₀ s ↔ apartLts.Run s₀ ls s := by
  constructor
  · intro h
    rcases hr.restrict_or fun s l => looksApart s l = true with hapart | ⟨l, t, t', htakes, hG⟩
    · exact hapart
    · obtain ⟨ls₁, ls₂, rfl, hr₁, hst, hr₂⟩ := htakes
      obtain ⟨email, hnone, hD⟩ := doomed_of_look hst hG
      have hA := accounts_run h0 hr₁
      have hlater : Accounts s₀ s ∧ Doomed email s := by
        refine hr₂.keeps (P := fun s => Accounts s₀ s ∧ Doomed email s) ?_ ⟨accounts_step hA hst, hD⟩
        rintro s l s' hst ⟨hA, hD⟩
        exact ⟨accounts_step hA hst, doomed_step hA hst hD⟩
      refine absurd h (not_firstCome_of_doomed hc hlater.2 fun u hu => ?_)
      exact byEmail_none.mp hnone u (hA.old u hu)
  · intro hapart
    exact firstCome_of_apart (accounts_run h0 hr) (apart_run h0 hapart) hc

/-- The second call looks between the `INSERT` of another e-mail and its `COMMIT`, and after the
`COMMIT` of its own. -/
def inTurn : List Lbl :=
  [.call ada, .call ada, .call { ada with email := "bob@example.com" }, .next 0 ⟨"", ""⟩, .next 2 ⟨"", ""⟩,
    .next 0 ⟨"A", "h"⟩, .next 2 ⟨"B", "h"⟩, .next 0 ⟨"", ""⟩, .next 1 ⟨"", ""⟩, .next 2 ⟨"", ""⟩,
    .next 0 ⟨"", ""⟩, .next 2 ⟨"", ""⟩]

theorem first_come_iff_inTurn :
    ∃ s, apartLts.Run nobody inTurn s ∧ s.Completed ∧ FirstCome nobody s := by
  obtain ⟨s, hr, hs⟩ : ∃ s, apartLts.Run nobody inTurn s ∧
      (s.procs.all fun x => x.pc.isDone) = true :=
    LTS.exists_run_of_execG inTurn (by decide +kernel)
  have hc := completed_of_all hs
  exact ⟨s, hr, hc, (first_come_iff init_nobody hr.unrestrict hc).mpr hr⟩

end System
end Gestalt.Auth.Register
