import Gestalt.L3Payment.Once

/-!
# What a caller can rely on

A caller that sends one charge per key sees the service's calls from outside:
which calls there are, when one can still execute `_process_charge`, and what an
answer says about the key. `step_call` and `step_exec` are the service's steps
seen that way; `Charged` and `Quiet` are the two facts a caller cares about, and
`answer_charged`, `answer_declined` read them off an answer.
-/
namespace Gestalt.Payment

variable {cfg : Settings} {s s' : St}

/-- The call will do nothing more: it has answered or its process is gone. -/
def Call.idle (c : Call) : Bool := !c.alive || c.pc.isDone

def Req.isCharge : Req → Bool
  | .charge _ => true
  | .getResult _ => false

/-- A successful charge has been made under the key. -/
def Charged (s : St) (k : String) : Prop :=
  ∃ e ∈ s.execs, e.body.idempotencyKey = k ∧ e.result.isSuccess = true

instance (s : St) (k : String) : Decidable (Charged s k) :=
  inferInstanceAs (Decidable (∃ e ∈ s.execs, e.body.idempotencyKey = k ∧ e.result.isSuccess = true))

/-- No charge has been made under the key, and no call will make one. -/
def Quiet (s : St) (k : String) : Prop :=
  ¬ Charged s k ∧ ∀ c ∈ s.calls, c.req.isCharge = true → c.key = k → c.idle = true

instance (s : St) (k : String) : Decidable (Quiet s k) :=
  inferInstanceAs (Decidable (¬ Charged s k ∧
    ∀ c ∈ s.calls, c.req.isCharge = true → c.key = k → c.idle = true))

/-! ## Steps, seen from the calls -/

/-- A step's call is a new one or an old one moved on. -/
theorem step_call {l : Lbl} (h : step cfg s l = some s') {j : Nat} {c' : Call}
    (hj : s'.calls[j]? = some c') :
    (∃ r, l = .arrive r ∧ c' = { req := r } ∧ j = s.calls.length) ∨
    ∃ c, s.calls[j]? = some c ∧ c'.req = c.req ∧ (c.idle = true → c'.idle = true) := by
  -- replacing a call by one with the same request
  have hput : ∀ {i : Nat} {c d : Call}, s.calls[i]? = some c → (s.calls.set i d)[j]? = some c' →
      d.req = c.req → (c.idle = true → d.idle = true) →
      ∃ c, s.calls[j]? = some c ∧ c'.req = c.req ∧ (c.idle = true → c'.idle = true) := by
    intro i c d hi hj hreq hidle
    rcases Procs.set_cases hi hj with ⟨rfl, rfl⟩ | ⟨-, hj⟩
    · exact ⟨c, hi, hreq, hidle⟩
    · exact ⟨c', hj, rfl, fun h => h⟩
  cases l with
  | arrive r =>
    simp only [step, Option.some.injEq] at h; subst h
    rcases Procs.spawn_cases hj with hj | ⟨he, rfl⟩
    · exact .inr ⟨c', hj, rfl, fun h => h⟩
    · exact .inl ⟨r, rfl, rfl, he⟩
  | run i o =>
    simp only [step] at h
    split at h
    · rename_i c hi
      split at h
      · rename_i hal
        have hbusy : ∀ d : Call, c.pc.isDone = false → c.idle = true → d.idle = true := by
          intro d hd hc; simp [Call.idle, hal, hd] at hc
        refine .inr ?_
        cases stepCall_moves h with
        | read pc n hr =>
          have hd : c.pc.isDone = false := by cases hp : c.pc <;> simp_all [Pc.reading, Pc.isDone]
          exact hput hi hj rfl (hbusy _ hd)
        | miss body hu hreq hpc => exact hput hi hj rfl (hbusy _ (by rw [hpc]; rfl))
        | claim body hu hreq hpc => exact hput hi hj rfl (hbusy _ (by rw [hpc]; rfl))
        | process body hreq hpc => exact hput hi hj rfl (hbusy _ (by rw [hpc]; rfl))
        | store body r hreq hpc => exact hput hi hj rfl (hbusy _ (by rw [hpc]; rfl))
      · cases h
    · cases h
  | crash i =>
    simp only [step, Option.map_eq_some_iff] at h
    obtain ⟨c, hi, rfl⟩ := h
    exact .inr (hput hi hj rfl fun _ => rfl)
  | expire k =>
    simp only [step] at h
    split at h
    · split at h
      · cases h; exact .inr ⟨c', hj, rfl, fun h => h⟩
      · cases h
    · cases h
  | tick =>
    simp only [step, Option.some.injEq] at h; subst h
    exact .inr ⟨c', hj, rfl, fun h => h⟩

/-- An execution is an old one, or made by a charge that was still at work. -/
theorem step_exec {l : Lbl} (h : step cfg s l = some s') :
    (∀ e ∈ s.execs, e ∈ s'.execs) ∧
    ∀ e ∈ s'.execs, e ∈ s.execs ∨
      ∃ c, s.calls[e.call]? = some c ∧ c.req = .charge e.body ∧ c.idle = false := by
  have hsame : s'.execs = s.execs → (∀ e ∈ s.execs, e ∈ s'.execs) ∧ ∀ e ∈ s'.execs, e ∈ s.execs ∨
      ∃ c, s.calls[e.call]? = some c ∧ c.req = .charge e.body ∧ c.idle = false := by
    intro he; rw [he]; exact ⟨fun e h => h, fun e h => .inl h⟩
  cases l with
  | arrive r => simp only [step, Option.some.injEq] at h; subst h; exact hsame rfl
  | run i o =>
    simp only [step] at h
    split at h
    · rename_i c hi
      split at h
      · rename_i hal
        cases stepCall_moves h with
        | process body hreq hpc =>
          refine ⟨fun e he => List.mem_append_left _ he, ?_⟩
          intro e he
          rcases List.mem_append.mp he with he | he
          · exact .inl he
          · rw [List.mem_singleton.mp he]
            exact .inr ⟨c, hi, hreq, by simp [Call.idle, hal, hpc, Pc.isDone]⟩
        | _ => exact hsame rfl
      · cases h
    · cases h
  | crash i =>
    simp only [step, Option.map_eq_some_iff] at h
    obtain ⟨c, -, rfl⟩ := h
    exact hsame rfl
  | expire k =>
    simp only [step] at h
    split at h
    · split at h
      · cases h; exact hsame rfl
      · cases h
    · cases h
  | tick => simp only [step, Option.some.injEq] at h; subst h; exact hsame rfl

/-- Calls are never dropped from the list. -/
theorem step_call_old {l : Lbl} (h : step cfg s l = some s') {j : Nat} {c : Call}
    (hj : s.calls[j]? = some c) : ∃ c', s'.calls[j]? = some c' ∧ c'.req = c.req := by
  have hlen : s.calls.length ≤ s'.calls.length := by
    cases l with
    | arrive r => simp only [step, Option.some.injEq] at h; subst h; simp [St.arrive]
    | run i o =>
      simp only [step] at h
      split at h
      · split at h
        · cases stepCall_moves h <;> simp [St.put, St.set]
        · cases h
      · cases h
    | crash i =>
      simp only [step, Option.map_eq_some_iff] at h
      obtain ⟨c, -, rfl⟩ := h
      simp [St.put]
    | expire k =>
      simp only [step] at h
      split at h
      · split at h
        · cases h; exact Nat.le_refl _
        · cases h
      · cases h
    | tick => simp only [step, Option.some.injEq] at h; subst h; exact Nat.le_refl _
  have hlt : j < s'.calls.length := Nat.lt_of_lt_of_le (Procs.lt_of hj) hlen
  refine ⟨s'.calls[j], List.getElem?_eq_getElem hlt, ?_⟩
  rcases step_call h (List.getElem?_eq_getElem hlt) with ⟨r, -, -, he⟩ | ⟨c0, h0, hr, -⟩
  · exact absurd (Procs.lt_of hj) (by omega)
  · rw [hj, Option.some.injEq] at h0; subst h0; exact hr

/-! ## The key, between steps -/

theorem Charged.step {l : Lbl} {k : String} (hc : Charged s k) (h : step cfg s l = some s') :
    Charged s' k := by
  obtain ⟨e, he, hrest⟩ := hc
  exact ⟨e, (step_exec h).1 e he, hrest⟩

/-- A quiet key stays quiet, as long as no charge under it arrives. -/
theorem Quiet.step {l : Lbl} {k : String} (hq : Quiet s k) (h : step cfg s l = some s')
    (hl : ∀ r, l = .arrive r → r.isCharge = true → r.key ≠ k) : Quiet s' k := by
  refine ⟨?_, ?_⟩
  · rintro ⟨e, he, hk, hs⟩
    rcases (step_exec h).2 e he with he | ⟨c, hc, hreq, hidle⟩
    · exact hq.1 ⟨e, he, hk, hs⟩
    · have := hq.2 c (List.mem_of_getElem? hc) (by rw [hreq]; rfl) (by simp [Call.key, Req.key, hreq, hk])
      rw [hidle] at this; cases this
  · intro c' hc' hreq hk
    obtain ⟨j, hj⟩ := List.mem_iff_getElem?.mp hc'
    rcases step_call h hj with ⟨r, rfl, rfl, -⟩ | ⟨c, hc, hr, hidle⟩
    · exact absurd hk (hl r rfl hreq)
    · exact hidle (hq.2 c (List.mem_of_getElem? hc) (hr ▸ hreq) (by simpa [Call.key, hr] using hk))

/-! ## Answers -/

/-- Only success answers 200. -/
theorem respond_ok {k : String} {r : Result} : (wire (respond k (.result r))).ok = r.isSuccess := by
  cases r <;> rfl

/-- A 200 says the key is charged. -/
theorem answer_charged (I : Inv cfg s) {j : Nat} {c : Call} {a : Answer} (hc : s.calls[j]? = some c)
    (ha : c.pc = .done a) (hok : (wire a).ok = true) : Charged s c.key := by
  have hset : Settled a := by
    constructor <;> rintro rfl <;> cases hok
  obtain ⟨e, he, hk, rfl⟩ := (I.call j c hc).answer a ha hset
  exact ⟨e, he, hk, respond_ok.symm.trans hok⟩

/-- Anything else says it is not, if no other call has charged under the key. -/
theorem answer_declined (I : Inv cfg s) {j : Nat} {c : Call} {a : Answer} (hc : s.calls[j]? = some c)
    (ha : c.pc = .done a) (hok : (wire a).ok = false)
    (hone : ∀ e ∈ s.execs, e.body.idempotencyKey = c.key → e.call = j) : ¬ Charged s c.key := by
  rintro ⟨e, he, hk, hs⟩
  obtain ⟨d, hd, -, hreq, hpc⟩ := I.exec e he
  rw [hone e he hk, hc, Option.some.injEq] at hd; subst hd
  rw [ha] at hpc
  rcases hpc with hpc | hpc
  · cases hpc
  · cases hpc
    rw [respond_ok, hs] at hok
    cases hok

/-- A key no charge call has is quiet. -/
theorem quiet_of_fresh (I : Inv cfg s) {k : String}
    (h : ∀ c ∈ s.calls, ∀ body, c.req = .charge body → body.idempotencyKey ≠ k) : Quiet s k := by
  refine ⟨?_, ?_⟩
  · rintro ⟨e, he, hk, -⟩
    obtain ⟨c, hc, -, hreq, -⟩ := I.exec e he
    exact h c (List.mem_of_getElem? hc) e.body hreq hk
  · intro c hc hreq hk
    cases hr : c.req with
    | charge body => exact absurd (by simpa [Call.key, Req.key, hr] using hk) (h c hc body hr)
    | getResult k' => rw [hr] at hreq; cases hreq

/-- A key whose only charge call has answered anything but 200 is quiet. -/
theorem quiet_declined (I : Inv cfg s) {j : Nat} {c : Call} {a : Answer} (hc : s.calls[j]? = some c)
    (ha : c.pc = .done a) (hok : (wire a).ok = false)
    (hone : ∀ (j' : Nat) (c' : Call), s.calls[j']? = some c' → c'.req.isCharge = true → c'.key = c.key →
      j' = j) : Quiet s c.key := by
  refine ⟨answer_declined I hc ha hok ?_, ?_⟩
  · intro e he hk
    obtain ⟨d, hd, -, hreq, -⟩ := I.exec e he
    exact hone e.call d hd (by rw [hreq]; rfl) (by simp [Call.key, Req.key, hreq, hk])
  · intro c' hc' hreq hk
    obtain ⟨j', hj'⟩ := List.mem_iff_getElem?.mp hc'
    have := hone j' c' hj' hreq hk
    subst this
    rw [hc, Option.some.injEq] at hj'; subst hj'
    simp [Call.idle, ha, Pc.isDone]

/-- Executions under one key made by one call are one execution. -/
theorem Inv.exec_one (I : Inv cfg s) {e e' : Exec} (he : e ∈ s.execs) (he' : e' ∈ s.execs)
    (hc : e.call = e'.call) : e = e' :=
  Table.Unique.eq I.once he he' hc

end Gestalt.Payment
