import Gestalt.Core.Procs
import Gestalt.Core.Table
import Gestalt.L3Payment.Charge

/-!
# One charge per idempotency key

For any interleaving of the Redis commands of any number of `charge` and
`get_result` calls, crashes at any step included:

* `Inv`: every result there is, in Redis, in a call about to store it or in an
  answer, is that of a recorded execution of `_process_charge` under its key,
  and each execution was made by a call of its own. This holds in both modes,
  whether or not keys expire (`inv_step`).
* `Held`: in safe mode, as long as the key does not expire, a claimed key stays
  in Redis, so at most one call ever claims it (`held_step`).

`charge_once` puts the two together: at most one execution per key, and every
call that answers anything but 409 CHARGE_IN_PROGRESS or 404 NOT_FOUND gives
the one answer that execution has.
-/
namespace Gestalt.Payment

/-! ## What one command does -/

/-- Waiting for a result: before the claim, or polling. -/
def Pc.reading : Pc → Bool
  | .start => true
  | .poll _ => true
  | _ => false

/-- Past the claim. -/
def Pc.writing : Pc → Bool
  | .process => true
  | .store _ => true
  | _ => false

def Pc.isDone : Pc → Bool
  | .done _ => true
  | _ => false

/-- The answers that carry a result. -/
def Settled (a : Answer) : Prop := a ≠ .error chargeInProgress ∧ a ≠ .error notFound

/-- The things a command of a call can do. -/
inductive Moves (cfg : Settings) (s : St) (j : Nat) (c : Call) (o : Option Nat) : St → Prop
  /-- a losing `SET NX`, a `GET` or giving up: nothing is written, and an answer with
  a result is what Redis holds; only unsafe mode answers with the claim -/
  | read (pc : Pc) (n : Nat) : c.pc.reading = true → pc.reading = true ∨ pc.isDone = true →
      (∀ a, pc = .done a → Settled a →
        cfg.unsafeIdempotencyMode = true ∧ s.get c.key = some .inProgress ∨
        ∃ r, s.get c.key = some (.result r) ∧ a = respond c.key (.result r)) →
      Moves cfg s j c o { s.put j { c with pc := pc } with replays := n }
  /-- unsafe mode found nothing -/
  | miss (body : ChargeRequest) : cfg.unsafeIdempotencyMode = true → c.req = .charge body →
      c.pc = .start → Moves cfg s j c o (s.put j { c with pc := .process, claimed := true })
  /-- the winning `SET NX` -/
  | claim (body : ChargeRequest) : cfg.unsafeIdempotencyMode = false → c.req = .charge body →
      c.pc = .start → s.get c.key = none →
      Moves cfg s j c o
        ((s.set cfg c.key .inProgress).put j { c with pc := .process, claimed := true })
  /-- `_process_charge` -/
  | process (body : ChargeRequest) : c.req = .charge body → c.pc = .process →
      Moves cfg s j c o { s.put j { c with pc := .store (processCharge body o) } with
        execs := s.execs ++ [⟨j, body, processCharge body o⟩] }
  /-- the final `SET` -/
  | store (body : ChargeRequest) (r : Result) : c.req = .charge body → c.pc = .store r →
      Moves cfg s j c o ((s.set cfg c.key (.result r)).put j
        { c with pc := .done (respond c.key (.result r)) })

theorem stepCall_moves {cfg : Settings} {s s' : St} {j : Nat} {c : Call} {o : Option Nat}
    (h : stepCall cfg s j c o = some s') : Moves cfg s j c o s' := by
  have hread : ∀ (pc : Pc) (n : Nat), c.pc.reading = true → pc.reading = true ∨ pc.isDone = true →
      (∀ a, pc = .done a → Settled a →
        cfg.unsafeIdempotencyMode = true ∧ s.get c.key = some .inProgress ∨
        ∃ r, s.get c.key = some (.result r) ∧ a = respond c.key (.result r)) →
      Moves cfg s j c o { s.put j { c with pc := pc } with replays := n } := .read
  unfold stepCall at h
  split at h
  · -- `charge`, first command
    rename_i body hreq hpc
    have hk : c.key = body.idempotencyKey := by simp [Call.key, Req.key, hreq]
    have hr : c.pc.reading = true := by rw [hpc]; rfl
    rw [← hk] at h
    split at h
    · rename_i v hu hg
      cases h
      refine hread (.done (respond c.key v)) _ hr (.inr rfl) ?_
      intro a ha _; cases ha
      cases v with
      | inProgress => exact .inl ⟨hu, hg⟩
      | result r => exact .inr ⟨r, hg, rfl⟩
    · rename_i hu _; cases h; exact .miss body hu hreq hpc
    · cases h
      exact hread (.poll attempts) s.replays hr (.inl rfl) (fun a ha => by cases ha)
    · rename_i hu hg; cases h; exact .claim body hu hreq hpc hg
  · -- out of attempts
    rename_i body hreq hpc
    cases h
    refine hread (.done (.error chargeInProgress)) s.replays (by rw [hpc]; rfl) (.inr rfl) ?_
    intro a ha hs; cases ha; exact absurd rfl hs.1
  · -- one `GET` of `_wait_for_result`
    rename_i body left hreq hpc
    have hk : c.key = body.idempotencyKey := by simp [Call.key, Req.key, hreq]
    rw [← hk] at h
    split at h
    · rename_i r hg; cases h
      refine hread (.done (respond c.key (.result r))) _ (by rw [hpc]; rfl) (.inr rfl) ?_
      intro a ha _; cases ha; exact .inr ⟨r, hg, rfl⟩
    · cases h
      exact hread (.poll left) s.replays (by rw [hpc]; rfl) (.inl rfl) (fun a ha => by cases ha)
  · rename_i body hreq hpc; cases h; exact .process body hreq hpc
  · rename_i body r hreq hpc
    have hk : c.key = body.idempotencyKey := by simp [Call.key, Req.key, hreq]
    rw [← hk] at h; cases h; exact .store body r hreq hpc
  · -- `get_result`
    rename_i k hreq hpc
    have hk : c.key = k := by simp [Call.key, Req.key, hreq]
    have hr : c.pc.reading = true := by rw [hpc]; rfl
    rw [← hk] at h
    split at h
    · cases h
      refine hread (.done (.error notFound)) s.replays hr (.inr rfl) ?_
      intro a ha hs; cases ha; exact absurd rfl hs.2
    · cases h
      refine hread (.done (.error chargeInProgress)) s.replays hr (.inr rfl) ?_
      intro a ha hs; cases ha; exact absurd rfl hs.1
    · rename_i r hg; cases h
      refine hread (.done (respond c.key (.result r))) s.replays hr (.inr rfl) ?_
      intro a ha _; cases ha; exact .inr ⟨r, hg, rfl⟩
  · cases h

/-! ## Every result comes from an execution of its own -/

/-- What is known of call `j`, given the executions so far. -/
structure CallOk (execs : List Exec) (j : Nat) (c : Call) : Prop where
  store : ∀ r, c.pc = .store r → ∃ e ∈ execs, e.call = j ∧ e.result = r
  answer : ∀ a, c.pc = .done a → Settled a →
    ∃ e ∈ execs, e.body.idempotencyKey = c.key ∧ a = respond c.key (.result e.result)
  reader : c.pc.reading = true → c.claimed = false
  writer : c.pc.writing = true → c.claimed = true

structure Inv (cfg : Settings) (s : St) : Prop where
  /-- an execution was made by a call that claimed the key, and is what that call stores
  or has answered -/
  exec : ∀ e ∈ s.execs, ∃ c, s.calls[e.call]? = some c ∧ c.claimed = true ∧ c.req = .charge e.body ∧
    (c.pc = .store e.result ∨ c.pc = .done (respond c.key (.result e.result)))
  once : (s.execs.map Exec.call).Nodup
  outcome : ∀ e ∈ s.execs, ∃ o, e.result = processCharge e.body o
  redis : ∀ k r, s.get k = some (.result r) →
    ∃ e ∈ s.execs, e.body.idempotencyKey = k ∧ e.result = r
  call : ∀ (j : Nat) (c : Call), s.calls[j]? = some c → CallOk s.execs j c
  /-- only safe mode stores the claim -/
  unsafeFree : cfg.unsafeIdempotencyMode = true → ∀ k, s.get k ≠ some .inProgress

theorem inv_init (cfg : Settings) : Inv cfg init := by
  constructor <;> simp [init, St.get]

theorem CallOk.mono {execs execs' : List Exec} {j : Nat} {c : Call} (h : CallOk execs j c)
    (hsub : ∀ e ∈ execs, e ∈ execs') : CallOk execs' j c where
  store r hr := by
    obtain ⟨e, he, hrest⟩ := h.store r hr
    exact ⟨e, hsub e he, hrest⟩
  answer a ha hs := by
    obtain ⟨e, he, hrest⟩ := h.answer a ha hs
    exact ⟨e, hsub e he, hrest⟩
  reader := h.reader
  writer := h.writer

theorem get_set (cfg : Settings) (s : St) (k k' : String) (v : Stored) :
    (s.set cfg k v).get k' = if k' = k then some v else s.get k' := by
  unfold St.get St.set
  simp only
  split <;> rfl

/-- Replacing call `j` keeps the facts about every call, if it keeps those about `j`. -/
theorem Inv.put {cfg : Settings} {s : St} (I : Inv cfg s) {execs' : List Exec} (hsub : ∀ e ∈ s.execs, e ∈ execs')
    {j : Nat} {c c' : Call} (hc : s.calls[j]? = some c) (h : CallOk execs' j c') :
    ∀ (i : Nat) (d : Call), (s.calls.set j c')[i]? = some d → CallOk execs' i d := by
  intro i d hd
  rcases Procs.set_cases hc hd with ⟨rfl, rfl⟩ | ⟨-, hd⟩
  · exact h
  · exact (I.call i d hd).mono hsub

/-- The execution made by call `j`, as `j` moves on without making another. -/
theorem Inv.exec_put {cfg : Settings} {s : St} (I : Inv cfg s) {j : Nat} {c c' : Call}
    (hc : s.calls[j]? = some c)
    (h : ∀ e ∈ s.execs, e.call = j → c'.claimed = true ∧ c'.req = .charge e.body ∧
      (c'.pc = .store e.result ∨ c'.pc = .done (respond c'.key (.result e.result)))) :
    ∀ e ∈ s.execs, ∃ d, (s.calls.set j c')[e.call]? = some d ∧ d.claimed = true ∧
      d.req = .charge e.body ∧
      (d.pc = .store e.result ∨ d.pc = .done (respond d.key (.result e.result))) := by
  intro e he
  by_cases hj : e.call = j
  · exact ⟨c', by rw [hj]; exact Procs.set_self hc, h e he hj⟩
  · obtain ⟨d, hd, hrest⟩ := I.exec e he
    exact ⟨d, by rw [List.getElem?_set_ne (Ne.symm hj)]; exact hd, hrest⟩

/-- A call that has not claimed its key has executed nothing. -/
theorem Inv.no_exec {cfg : Settings} {s : St} (I : Inv cfg s) {j : Nat} {c : Call}
    (hc : s.calls[j]? = some c)
    (h : c.claimed = false ∨ c.pc = .process) : ∀ e ∈ s.execs, e.call ≠ j := by
  intro e he hj
  obtain ⟨d, hd, hcl, -, hpc⟩ := I.exec e he
  rw [hj, hc, Option.some.injEq] at hd; subst hd
  rcases h with h | h
  · rw [h] at hcl; cases hcl
  · rw [h] at hpc; rcases hpc with hpc | hpc <;> cases hpc

/-- The execution behind a result about to be stored is under the call's key. -/
theorem Inv.store_key {cfg : Settings} {s : St} (I : Inv cfg s) {j : Nat} {c : Call} {r : Result}
    (hc : s.calls[j]? = some c) (hpc : c.pc = .store r) :
    ∃ e ∈ s.execs, e.body.idempotencyKey = c.key ∧ e.result = r := by
  obtain ⟨e, he, hj, hr⟩ := (I.call j c hc).store r hpc
  obtain ⟨d, hd, -, hreq, -⟩ := I.exec e he
  rw [hj, hc, Option.some.injEq] at hd
  subst hd
  exact ⟨e, he, by simp [Call.key, Req.key, hreq], hr⟩

/-- `_process_charge` of a call that has claimed its key: the call's first. -/
theorem Inv.process {cfg : Settings} {s : St} (I : Inv cfg s) {j : Nat} {c : Call} {body : ChargeRequest}
    {o : Option Nat} (hc : s.calls[j]? = some c) (hreq : c.req = .charge body) (hpc : c.pc = .process) :
    Inv cfg { s.put j { c with pc := .store (processCharge body o) } with
      execs := s.execs ++ [⟨j, body, processCharge body o⟩] } := by
  have hcl := (I.call j c hc).writer (by rw [hpc]; rfl)
  have hnone := I.no_exec hc (.inr hpc)
  have hsub : ∀ e ∈ s.execs, e ∈ s.execs ++ [⟨j, body, processCharge body o⟩] :=
    fun e he => List.mem_append_left _ he
  refine ⟨?_, ?_, ?_, ?_, I.put hsub hc ⟨?_, ?_, ?_, fun _ => hcl⟩, I.unsafeFree⟩
  · intro e he
    rcases List.mem_append.mp he with he | he
    · exact I.exec_put hc (fun e he hj => absurd hj (hnone e he)) e he
    · rw [List.mem_singleton.mp he]
      exact ⟨_, Procs.set_self hc, hcl, hreq, .inl rfl⟩
  · rw [List.map_append, List.nodup_append]
    refine ⟨I.once, by simp, ?_⟩
    intro x hx y hy
    obtain ⟨e, he, rfl⟩ := List.mem_map.mp hx
    simp only [List.map_cons, List.map_nil, List.mem_singleton] at hy
    subst hy; exact hnone e he
  · intro e he
    rcases List.mem_append.mp he with he | he
    · exact I.outcome e he
    · rw [List.mem_singleton.mp he]; exact ⟨o, rfl⟩
  · intro k r hk
    obtain ⟨e, he, hrest⟩ := I.redis k r hk
    exact ⟨e, hsub e he, hrest⟩
  · intro r hr; cases hr
    exact ⟨⟨j, body, processCharge body o⟩, by simp, rfl, rfl⟩
  · intro a ha; cases ha
  · intro hr; cases hr

/-- The final `SET`, and the answer that goes with it. -/
theorem Inv.store {cfg : Settings} {s : St} (I : Inv cfg s) {j : Nat} {c : Call} {r : Result}
    (hc : s.calls[j]? = some c) (hpc : c.pc = .store r) :
    Inv cfg ((s.set cfg c.key (.result r)).put j { c with pc := .done (respond c.key (.result r)) }) := by
  have hcl := (I.call j c hc).writer (by rw [hpc]; rfl)
  obtain ⟨e0, he0, hk0, hr0⟩ := I.store_key hc hpc
  refine ⟨I.exec_put hc ?_, I.once, I.outcome, ?_, I.put (fun _ h => h) hc ⟨?_, ?_, ?_, ?_⟩, ?_⟩
  · intro e he hj
    obtain ⟨d, hd, -, hdr, hdp⟩ := I.exec e he
    rw [hj, hc, Option.some.injEq] at hd; subst hd
    have hre : r = e.result := by rw [hpc] at hdp; rcases hdp with h | h <;> cases h; rfl
    exact ⟨hcl, hdr, .inr (by simp [Call.key, hre])⟩
  · intro k r' hk
    change (s.set cfg c.key (.result r)).get k = _ at hk
    rw [get_set] at hk
    split at hk
    · rename_i hkk; cases hk; exact ⟨e0, he0, by rw [hk0, hkk], hr0⟩
    · exact I.redis k r' hk
  · intro r' hr; cases hr
  · intro a ha _; cases ha; exact ⟨e0, he0, hk0, by simp [Call.key, hr0]⟩
  · intro hr; cases hr
  · intro hw; cases hw
  · intro hu k hk
    change (s.set cfg c.key (.result r)).get k = _ at hk
    rw [get_set] at hk
    split at hk
    · cases hk
    · exact I.unsafeFree hu k hk

/-- **Step lemma**, for a command of a call. -/
theorem inv_moves {cfg : Settings} {s s' : St} {j : Nat} {c : Call} {o : Option Nat}
    (I : Inv cfg s) (hc : s.calls[j]? = some c) (h : Moves cfg s j c o s') : Inv cfg s' := by
  cases h with
  | read pc n hrd hpc hans =>
    have hcl := (I.call j c hc).reader hrd
    refine ⟨I.exec_put hc ?_, I.once, I.outcome, I.redis,
      I.put (fun _ h => h) hc ⟨?_, ?_, ?_, ?_⟩, I.unsafeFree⟩
    · intro e he hj; exact absurd hj (I.no_exec hc (.inl hcl) e he)
    · intro r hr; subst hr; rcases hpc with h | h <;> cases h
    · intro a ha hs
      rcases hans a ha hs with ⟨hu, hg⟩ | ⟨r, hg, rfl⟩
      · exact absurd hg (I.unsafeFree hu _)
      · obtain ⟨e, he, hk, hr⟩ := I.redis _ _ hg
        exact ⟨e, he, hk, by simp [Call.key, hr]⟩
    · intro _; exact hcl
    · intro hw; rcases hpc with h | h <;> cases pc <;> simp_all [Pc.reading, Pc.isDone, Pc.writing]
  | miss body hu hreq hpc =>
    have hcl := (I.call j c hc).reader (by rw [hpc]; rfl)
    refine ⟨I.exec_put hc ?_, I.once, I.outcome, I.redis,
      I.put (fun _ h => h) hc ⟨?_, ?_, ?_, fun _ => rfl⟩, I.unsafeFree⟩
    · intro e he hj; exact absurd hj (I.no_exec hc (.inl hcl) e he)
    · intro r hr; cases hr
    · intro a ha; cases ha
    · intro hr; cases hr
  | claim body hu hreq hpc hg =>
    have hcl := (I.call j c hc).reader (by rw [hpc]; rfl)
    refine ⟨I.exec_put hc ?_, I.once, I.outcome, ?_,
      I.put (fun _ h => h) hc ⟨?_, ?_, ?_, fun _ => rfl⟩, ?_⟩
    · intro e he hj; exact absurd hj (I.no_exec hc (.inl hcl) e he)
    · intro k r hk
      change (s.set cfg c.key .inProgress).get k = _ at hk
      rw [get_set] at hk
      split at hk
      · cases hk
      · exact I.redis k r hk
    · intro r hr; cases hr
    · intro a ha; cases ha
    · intro hr; cases hr
    · intro hu'; rw [hu] at hu'; cases hu'
  | process body hreq hpc => exact I.process hc hreq hpc
  | store body r hreq hpc => exact I.store hc hpc

theorem Inv.crash {cfg : Settings} {s : St} (I : Inv cfg s) {j : Nat} {c : Call}
    (hc : s.calls[j]? = some c) : Inv cfg (s.put j { c with alive := false }) := by
  refine ⟨I.exec_put hc ?_, I.once, I.outcome, I.redis, I.put (fun _ h => h) hc ?_, I.unsafeFree⟩
  · intro e he hj
    obtain ⟨d, hd, hrest⟩ := I.exec e he
    rw [hj, hc, Option.some.injEq] at hd; subst hd
    exact hrest
  · obtain ⟨h1, h2, h3, h4⟩ := I.call j c hc
    exact ⟨h1, h2, h3, h4⟩

/-- **Step lemma.** Arrivals, crashes and expiries included. -/
theorem inv_step {cfg : Settings} {s s' : St} {l : Lbl} (I : Inv cfg s)
    (h : step cfg s l = some s') : Inv cfg s' := by
  cases l with
  | arrive r =>
    simp only [step, Option.some.injEq] at h; subst h
    refine ⟨?_, I.once, I.outcome, I.redis, ?_, I.unsafeFree⟩
    · intro e he
      obtain ⟨d, hd, hrest⟩ := I.exec e he
      exact ⟨d, Procs.spawn_old hd, hrest⟩
    · intro i d hd
      rcases Procs.spawn_cases hd with hd | ⟨-, rfl⟩
      · exact I.call i d hd
      · refine ⟨?_, ?_, fun _ => rfl, ?_⟩
        · intro r h; cases h
        · intro a h; cases h
        · intro h; cases h
  | run j o =>
    simp only [step] at h
    split at h
    · rename_i c hc
      split at h
      · exact inv_moves I hc (stepCall_moves h)
      · cases h
    · cases h
  | crash j =>
    simp only [step, Option.map_eq_some_iff] at h
    obtain ⟨c, hc, rfl⟩ := h
    exact I.crash hc
  | expire k =>
    simp only [step] at h
    split at h
    · split at h
      · cases h
        have hget : ∀ k' v, (if k' = k then none else s.redis k').map Entry.value = some v →
            s.get k' = some v := by
          intro k' v hv
          split at hv
          · cases hv
          · exact hv
        refine ⟨I.exec, I.once, I.outcome, ?_, I.call, ?_⟩
        · intro k' r hk; exact I.redis k' r (hget k' _ hk)
        · intro hu k' hk; exact I.unsafeFree hu k' (hget k' _ hk)
      · cases h
    · cases h
  | tick =>
    simp only [step, Option.some.injEq] at h; subst h
    exact ⟨I.exec, I.once, I.outcome, I.redis, I.call, I.unsafeFree⟩

/-! ## While the key lives, one call claims it -/

structure Held (k : String) (s : St) : Prop where
  present : ∀ (j : Nat) (c : Call), s.calls[j]? = some c → c.claimed = true → c.key = k →
    s.get k ≠ none
  one : ∀ (i j : Nat) (c d : Call), s.calls[i]? = some c → s.calls[j]? = some d →
    c.claimed = true → d.claimed = true → c.key = k → d.key = k → i = j

/-- A command of a call that claims nothing keeps the claims as they are. -/
theorem Held.put {k : String} {s s' : St} (H : Held k s) {j : Nat} {c c' : Call}
    (hc : s.calls[j]? = some c) (hcalls : s'.calls = s.calls.set j c')
    (hget : s.get k ≠ none → s'.get k ≠ none) (hcl : c'.claimed = c.claimed)
    (hreq : c'.req = c.req) : Held k s' := by
  have back : ∀ (i : Nat) (d : Call), s'.calls[i]? = some d →
      ∃ d0, s.calls[i]? = some d0 ∧ d0.claimed = d.claimed ∧ d0.key = d.key := by
    intro i d hd
    rw [hcalls] at hd
    rcases Procs.set_cases hc hd with ⟨rfl, rfl⟩ | ⟨-, hd⟩
    · exact ⟨c, hc, hcl.symm, by simp [Call.key, hreq]⟩
    · exact ⟨d, hd, rfl, rfl⟩
  refine ⟨?_, ?_⟩
  · intro i d hd hdc hdk
    obtain ⟨d0, h0, e1, e2⟩ := back i d hd
    exact hget (H.present i d0 h0 (e1.trans hdc) (e2.trans hdk))
  · intro i j' d e hd he hdc hec hdk hek
    obtain ⟨d0, h0, e1, e2⟩ := back i d hd
    obtain ⟨f0, h1, e3, e4⟩ := back j' e he
    exact H.one i j' d0 f0 h0 h1 (e1.trans hdc) (e3.trans hec) (e2.trans hdk) (e4.trans hek)

theorem held_moves {cfg : Settings} {k : String} {s s' : St} {j : Nat} {c : Call} {o : Option Nat}
    (hsafe : cfg.unsafeIdempotencyMode = false) (H : Held k s) (hc : s.calls[j]? = some c)
    (h : Moves cfg s j c o s') : Held k s' := by
  cases h with
  | miss body hu => rw [hsafe] at hu; cases hu
  | read pc n => exact H.put hc rfl (fun h => h) rfl rfl
  | process body => exact H.put hc rfl (fun h => h) rfl rfl
  | store body r =>
    refine H.put hc rfl (fun h => ?_) rfl rfl
    change (s.set cfg c.key (.result r)).get k ≠ none
    rw [get_set]; split
    · simp
    · exact h
  | claim body hu hreq hpc hg =>
    -- the winner found the key absent, so nobody had claimed it
    have hfree : ∀ (i : Nat) (d : Call), s.calls[i]? = some d → d.claimed = true → d.key = k →
        c.key ≠ k := by
      intro i d hd hdc hdk he
      rw [he] at hg
      exact H.present i d hd hdc hdk hg
    refine ⟨?_, ?_⟩
    · intro i d hd hdc hdk
      change (s.set cfg c.key .inProgress).get k ≠ none
      rw [get_set]; split
      · simp
      · rename_i hne
        rcases Procs.set_cases hc hd with ⟨-, rfl⟩ | ⟨-, hd'⟩
        · exact absurd hdk.symm hne
        · exact H.present i d hd' hdc hdk
    · intro i i' d e hd he hdc hec hdk hek
      rcases Procs.set_cases hc hd with ⟨rfl, rfl⟩ | ⟨-, hd'⟩
      · rcases Procs.set_cases hc he with ⟨rfl, -⟩ | ⟨-, he'⟩
        · rfl
        · exact absurd hdk (hfree i' e he' hec hek)
      · rcases Procs.set_cases hc he with ⟨rfl, rfl⟩ | ⟨-, he'⟩
        · exact absurd hek (hfree i d hd' hdc hdk)
        · exact H.one i i' d e hd' he' hdc hec hdk hek

theorem held_step {cfg : Settings} (hsafe : cfg.unsafeIdempotencyMode = false) {k : String}
    {s s' : St} {l : Lbl} (H : Held k s) (hl : l ≠ .expire k) (h : step cfg s l = some s') :
    Held k s' := by
  cases l with
  | arrive r =>
    simp only [step, Option.some.injEq] at h; subst h
    have old : ∀ (i : Nat) (d : Call), (s.arrive r).calls[i]? = some d → d.claimed = true →
        s.calls[i]? = some d := by
      intro i d hd hdc
      rcases Procs.spawn_cases hd with hd | ⟨-, rfl⟩
      · exact hd
      · cases hdc
    exact ⟨fun i d hd hdc hdk => H.present i d (old i d hd hdc) hdc hdk,
      fun i j d e hd he hdc hec => H.one i j d e (old i d hd hdc) (old j e he hec) hdc hec⟩
  | run j o =>
    simp only [step] at h
    split at h
    · rename_i c hc
      split at h
      · exact held_moves hsafe H hc (stepCall_moves h)
      · cases h
    · cases h
  | crash j =>
    simp only [step, Option.map_eq_some_iff] at h
    obtain ⟨c, hc, rfl⟩ := h
    exact H.put hc rfl (fun h => h) rfl rfl
  | expire k' =>
    simp only [step] at h
    split at h
    · split at h
      · cases h
        have hne : k ≠ k' := by rintro rfl; exact hl rfl
        refine ⟨fun i d hd hdc hdk => ?_, H.one⟩
        have := H.present i d hd hdc hdk
        simpa [St.get, hne] using this
      · cases h
    · cases h
  | tick =>
    simp only [step, Option.some.injEq] at h; subst h
    exact ⟨H.present, H.one⟩

/-! ## Payment idempotency -/

/-- The runs in which the key does not expire. -/
def withinTtl (cfg : Settings) (k : String) : LTS St Lbl := (lts cfg).restrict fun _ l => l ≠ .expire k

theorem withinTtl_inv {cfg : Settings} (hsafe : cfg.unsafeIdempotencyMode = false) {k : String}
    {s : St} (hr : (withinTtl cfg k).Reachable s) : Inv cfg s ∧ Held k s := by
  have hind : (withinTtl cfg k).Inductive fun s => Inv cfg s ∧ Held k s := by
    refine ⟨?_, ?_⟩
    · intro s hs; subst hs
      exact ⟨inv_init cfg, by constructor <;> simp [init]⟩
    · rintro s l s' ⟨I, H⟩ ⟨hst, hl⟩
      exact ⟨inv_step I hst, held_step hsafe H hl hst⟩
  exact hind.reachable s hr

/-- Two executions under one key are the same one. -/
theorem exec_unique {cfg : Settings} {k : String} {s : St} (I : Inv cfg s) (H : Held k s)
    {e e' : Exec} (he : e ∈ s.execs) (he' : e' ∈ s.execs) (hk : e.body.idempotencyKey = k)
    (hk' : e'.body.idempotencyKey = k) : e = e' := by
  obtain ⟨c, hc, hcl, hreq, -⟩ := I.exec e he
  obtain ⟨c', hc', hcl', hreq', -⟩ := I.exec e' he'
  have hj : e.call = e'.call := H.one _ _ c c' hc hc' hcl hcl'
    (by simp [Call.key, Req.key, hreq, hk]) (by simp [Call.key, Req.key, hreq', hk'])
  exact Table.Unique.eq I.once he he' hj

/-- **Payment idempotency.** While the key lives, `_process_charge` runs at most
once for it, and the calls with the key that answer anything but 409
CHARGE_IN_PROGRESS or 404 NOT_FOUND all give the same answer: the CHARGED
response or the 402 decline. -/
theorem charge_once (cfg : Settings) (hsafe : cfg.unsafeIdempotencyMode = false) (k : String) (s : St)
    (hr : (withinTtl cfg k).Reachable s) :
    (s.execs.filter fun e => e.body.idempotencyKey = k).length ≤ 1 ∧
    (∀ c ∈ s.calls, ∀ a, c.key = k → c.pc = .done a → Settled a →
      (∃ r, a = .ok r) ∨ ∃ e, a = .error e ∧ e.status = 402) ∧
    ∀ c ∈ s.calls, ∀ c' ∈ s.calls, ∀ a a', c.key = k → c'.key = k → c.pc = .done a →
      c'.pc = .done a' → Settled a → Settled a' → a = a' := by
  obtain ⟨I, H⟩ := withinTtl_inv hsafe hr
  have answer : ∀ c ∈ s.calls, ∀ a, c.key = k → c.pc = .done a → Settled a →
      ∃ e ∈ s.execs, e.body.idempotencyKey = k ∧ a = respond k (.result e.result) := by
    intro c hc a hk ha hs
    obtain ⟨j, hj⟩ := List.mem_iff_getElem?.mp hc
    subst hk
    exact (I.call j c hj).answer a ha hs
  refine ⟨?_, ?_, ?_⟩
  · refine Table.filter_length_le_one (List.Nodup.of_map _ I.once) ?_
    intro e he e' he' hk hk'
    exact exec_unique I H he he' (of_decide_eq_true hk) (of_decide_eq_true hk')
  · intro c hc a hk ha hs
    obtain ⟨e, -, -, rfl⟩ := answer c hc a hk ha hs
    cases e.result with
    | success => exact .inl ⟨_, rfl⟩
    | failure => exact .inr ⟨_, rfl, rfl⟩
  · intro c hc c' hc' a a' hk hk' ha ha' hs hs'
    obtain ⟨e, he, hek, rfl⟩ := answer c hc a hk ha hs
    obtain ⟨e', he', hek', rfl⟩ := answer c' hc' a' hk' ha' hs'
    rw [exec_unique I H he he' hek hek']

/-- Two charges of one key for different orders and a lookup: the second charge
loses the claim, polls, and is answered with the first one's result. -/
def twoCharges : List Lbl :=
  [.arrive (.charge ⟨"o1", 5, "INR", "k", by decide⟩),
    .arrive (.charge ⟨"o2", 7, "INR", "k", by decide⟩), .arrive (.getResult "k"),
    .run 0 none, .run 1 none, .run 2 none, .run 0 (some 9), .run 1 none, .run 0 none, .run 1 none]

/-- Both charges have the first one's answer; `_process_charge` ran once. -/
def answeredOnce (s : St) : Bool :=
  s.execs.length = 1 ∧ s.calls.map Call.pc =
    [.done (.ok ⟨"o1", 5, "INR", "k", "CHARGED", 9⟩), .done (.ok ⟨"o1", 5, "INR", "k", "CHARGED", 9⟩),
      .done (.error chargeInProgress)]

/-- `charge_once` after `twoCharges`. -/
theorem charge_once_twoCharges : ∃ s : St, answeredOnce s = true ∧
    (s.execs.filter fun e => e.body.idempotencyKey = "k").length ≤ 1 ∧
    (∀ c ∈ s.calls, ∀ a, c.key = "k" → c.pc = .done a → Settled a →
      (∃ r, a = .ok r) ∨ ∃ e, a = .error e ∧ e.status = 402) ∧
    ∀ c ∈ s.calls, ∀ c' ∈ s.calls, ∀ a a', c.key = "k" → c'.key = "k" → c.pc = .done a →
      c'.pc = .done a' → Settled a → Settled a' → a = a' := by
  have hrun : ∃ s, (withinTtl {} "k").Reachable s ∧ answeredOnce s = true :=
    LTS.reachable_of_execG twoCharges rfl (by decide +kernel)
  obtain ⟨s, hr, hs⟩ := hrun
  exact ⟨s, hs, charge_once {} rfl "k" s hr⟩

end Gestalt.Payment
