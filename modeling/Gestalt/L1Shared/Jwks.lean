import Gestalt.Core.LTS
import Gestalt.Core.Json

/-!
# gestalt_shared.security: the keys tokens are checked with

`JWKSClient` of one service process. `get_current_user` runs on the event loop and
awaits nothing, so that one `get_key` ends before the next begins. The clock is
`time.monotonic()` in nanoseconds, which may start anywhere; a fetch takes any time,
and auth-service reads its keys at some moment within it.

A fetch fails when auth-service is not reached, answers outside 200..299, or sends what
`_refresh` cannot turn into keys: no JSON, no object, `keys` that nothing iterates over,
a key that is no object, has no `kid` or one that no dict takes, or that
`RSAAlgorithm.from_jwk` refuses (`fromJwk`).

* `Service.jwks_cache`, of every sequence of calls: an answer is the entry of the latest key set
  fetched; the kids of that set resolve through any failed fetches; and a key that has been
  removed is not returned for longer than `ttl_seconds`, counted from the end of the fetch
  that brought it if that is later.

The last is not counted from the removal alone: `_fetched_at` is read when the fetch has
ended, which may be long after auth-service has read its keys.
-/
namespace Gestalt.Jwks

/-- How `httpx.get` ends. `body` is what `resp.json()` returns, `none` if it raises. -/
inductive Fetch
  | unreachable
  | response (status : Nat) (body : Option Json)
  deriving Repr

/-- Whether a dict takes it as a key. -/
def hashable : Json → Bool
  | .arr _ | .obj _ => false
  | _ => true

variable {Key : Type}

/-- The dict's entry for a kid: the last one written. -/
def find (keys : List (Json × Key)) (kid : String) : Option Key :=
  (keys.reverse.find? fun e => e.1.isStr kid).map Prod.snd

@[simp] theorem find_nil (kid : String) : find ([] : List (Json × Key)) kid = none := rfl

section
variable (fromJwk : Json → Option Key)

/-- mirrors shared/gestalt_shared/security.py:56 -/
def keyEntry : Json → Option (Json × Key)
  | .obj key => do
    let kid ← Json.lookup key "kid"
    let parsed ← fromJwk (.obj key)
    if hashable kid then some (kid, parsed) else none
  | _ => none

/-- What a fetch brings; `none`: something on the way raises.
mirrors shared/gestalt_shared/security.py:52-57 -/
def Fetch.keys : Fetch → Option (List (Json × Key))
  | .response status (some (.obj jwks)) =>
    if 200 ≤ status ∧ status < 300 then
      ((Json.lookup jwks "keys").getD (.arr [])).iter.bind (List.mapM (keyEntry fromJwk))
    else none
  | _ => none

end

/-- mirrors shared/gestalt_shared/security.py:44-48 -/
structure Client (Key : Type) where
  keys : List (Json × Key) := []
  fetchedAt : Nat := 0

inductive Answer (Key : Type)
  | key (k : Option Key)
  | raised
  deriving DecidableEq, Repr

def nanoseconds : Nat := 1000000000

namespace Client

variable (fromJwk : Json → Option Key) (ttlSeconds : Nat)

/-- `none`: it raises.
mirrors shared/gestalt_shared/security.py:50-61 -/
def refresh (c : Client Key) (fetch : Fetch) (ended : Nat) : Option (Client Key) :=
  match fetch.keys fromJwk with
  | some keys => some { keys, fetchedAt := ended }
  | none => if c.keys.isEmpty then none else some c

/-- `stale or kid not in self._keys`
mirrors shared/gestalt_shared/security.py:64-65 -/
def fetches (c : Client Key) (kid : String) (now : Nat) : Bool :=
  decide (c.fetchedAt + nanoseconds * ttlSeconds < now) || (find c.keys kid).isNone

/-- mirrors shared/gestalt_shared/security.py:63-67 -/
def getKey (c : Client Key) (kid : String) (now : Nat) (fetch : Fetch) (ended : Nat) :
    Client Key × Answer Key :=
  if c.fetches ttlSeconds kid now then
    match c.refresh fromJwk fetch ended with
    | some c' => (c', .key (find c'.keys kid))
    | none => (c, .raised)
  else (c, .key (find c.keys kid))

end Client

/-! ## A service at work -/

/-- One `get_key`. -/
structure Call where
  kid : String
  /-- since the last one -/
  wait : Nat
  /-- what a fetch would come to -/
  fetch : Fetch
  /-- from the call to the moment auth-service reads its keys, and from there to the end -/
  toServer : Nat
  toEnd : Nat

structure Service (Key : Type) where
  client : Client Key := {}
  clock : Nat

namespace Service

variable (fromJwk : Json → Option Key) (ttlSeconds : Nat)

/-- When a call reads the clock, when auth-service its keys, when the fetch ends. -/
def now (s : Service Key) (l : Call) : Nat := s.clock + l.wait
def served (s : Service Key) (l : Call) : Nat := s.now l + l.toServer
def ended (s : Service Key) (l : Call) : Nat := s.served l + l.toEnd

def fetches (s : Service Key) (l : Call) : Bool := s.client.fetches ttlSeconds l.kid (s.now l)

/-- When the call is over. -/
def finish (s : Service Key) (l : Call) : Nat := if s.fetches ttlSeconds l then s.ended l else s.now l

def getKey (s : Service Key) (l : Call) : Client Key × Answer Key :=
  s.client.getKey fromJwk ttlSeconds l.kid (s.now l) l.fetch (s.ended l)

def answer (s : Service Key) (l : Call) : Answer Key := (s.getKey fromJwk ttlSeconds l).2

def call (s : Service Key) (l : Call) : Option (Service Key) :=
  some { client := (s.getKey fromJwk ttlSeconds l).1, clock := s.finish ttlSeconds l }

/-- The process starts with an empty client, at any time. -/
def lts : LTS (Service Key) Call := LTS.ofFn (fun s => s.client = {}) (call fromJwk ttlSeconds)

end Service

/-- A key set as it was fetched. -/
structure Fetched (Key : Type) where
  keys : List (Json × Key)
  served : Nat
  ended : Nat

namespace Service

section
variable (fromJwk : Json → Option Key) (ttlSeconds : Nat)

/-- The latest fetch that succeeded, once the call is over. -/
def note (s : Service Key) (l : Call) (last : Option (Fetched Key)) : Option (Fetched Key) :=
  match s.fetches ttlSeconds l, l.fetch.keys fromJwk with
  | true, some keys => some { keys, served := s.served l, ended := s.ended l }
  | _, _ => last

def latest (s : Service Key) (ls : List Call) : Option (Fetched Key) :=
  LTS.history (call fromJwk ttlSeconds) (note fromJwk ttlSeconds) s none ls

end

/-- Its keys; none before the first. -/
def keysOf (last : Option (Fetched Key)) : List (Json × Key) := (last.map Fetched.keys).getD []

/-- The cache holds the latest key set fetched, and when that fetch ended. -/
structure Current (s : Service Key) (last : Option (Fetched Key)) : Prop where
  keys : s.client.keys = keysOf last
  fetchedAt : s.client.fetchedAt = (last.map Fetched.ended).getD 0

variable {fromJwk : Json → Option Key} {ttlSeconds : Nat} {s s₀ s' : Service Key} {l : Call} {ls : List Call}
  {last : Option (Fetched Key)}

/-! ## One call -/

/-- Everything one call can do: it finds the kid in a fresh cache, it fetches, it fails to fetch
and goes on with what it has, or it has nothing to go on with. -/
theorem getKey_cases (fromJwk : Json → Option Key) (ttlSeconds : Nat) (s : Service Key) (l : Call) :
    (s.fetches ttlSeconds l = false ∧
      s.getKey fromJwk ttlSeconds l = (s.client, .key (find s.client.keys l.kid))) ∨
    (s.fetches ttlSeconds l = true ∧ ∃ keys, l.fetch.keys fromJwk = some keys ∧
      s.getKey fromJwk ttlSeconds l = ({ keys, fetchedAt := s.ended l }, .key (find keys l.kid))) ∨
    (s.fetches ttlSeconds l = true ∧ l.fetch.keys fromJwk = none ∧ s.client.keys ≠ [] ∧
      s.getKey fromJwk ttlSeconds l = (s.client, .key (find s.client.keys l.kid))) ∨
    (s.fetches ttlSeconds l = true ∧ l.fetch.keys fromJwk = none ∧ s.client.keys = [] ∧
      s.getKey fromJwk ttlSeconds l = (s.client, .raised)) := by
  cases hf : s.fetches ttlSeconds l with
  | false =>
    have hc : s.client.fetches ttlSeconds l.kid (s.now l) = false := hf
    exact .inl ⟨rfl, by simp [getKey, Client.getKey, hc]⟩
  | true =>
    have hc : s.client.fetches ttlSeconds l.kid (s.now l) = true := hf
    cases hk : l.fetch.keys fromJwk with
    | some keys =>
      exact .inr (.inl ⟨rfl, keys, rfl, by simp [getKey, Client.getKey, hc, Client.refresh, hk]⟩)
    | none =>
      by_cases he : s.client.keys = []
      · exact .inr (.inr (.inr ⟨rfl, rfl, he, by simp [getKey, Client.getKey, hc, Client.refresh, hk, he]⟩))
      · exact .inr (.inr (.inl ⟨rfl, rfl, he, by simp [getKey, Client.getKey, hc, Client.refresh, hk, he]⟩))

/-- A failed fetch changes neither the keys nor the time they were fetched. -/
theorem getKey_failed (hf : l.fetch.keys fromJwk = none) :
    (s.getKey fromJwk ttlSeconds l).1 = s.client := by
  obtain ⟨-, h⟩ | ⟨-, keys, hk, -⟩ | ⟨-, -, -, h⟩ | ⟨-, -, -, h⟩ := getKey_cases fromJwk ttlSeconds s l
  · rw [h]
  · rw [hf] at hk; cases hk
  · rw [h]
  · rw [h]

/-- A fetch brings a whole key set: `Current` is kept, and the answer is read from it. -/
theorem getKey_current (h : s.Current last) :
    let last' := s.note fromJwk ttlSeconds l last
    (s.getKey fromJwk ttlSeconds l).1.keys = keysOf last' ∧
      (s.getKey fromJwk ttlSeconds l).1.fetchedAt = (last'.map Fetched.ended).getD 0 ∧
      ∀ r, s.answer fromJwk ttlSeconds l = .key r → r = find (keysOf last') l.kid := by
  have hkeep : s.getKey fromJwk ttlSeconds l = (s.client, .key (find s.client.keys l.kid)) →
      (s.getKey fromJwk ttlSeconds l).1.keys = keysOf last ∧
        (s.getKey fromJwk ttlSeconds l).1.fetchedAt = (last.map Fetched.ended).getD 0 ∧
        ∀ r, s.answer fromJwk ttlSeconds l = .key r → r = find (keysOf last) l.kid := by
    intro hg
    refine ⟨by rw [hg]; exact h.keys, by rw [hg]; exact h.fetchedAt, fun r hr => ?_⟩
    rw [answer, hg] at hr
    rw [← Answer.key.inj hr, h.keys]
  obtain ⟨hf, hg⟩ | ⟨hf, keys, hk, hg⟩ | ⟨hf, hk, -, hg⟩ | ⟨hf, hk, -, hg⟩ :=
    getKey_cases fromJwk ttlSeconds s l
  · simpa only [note, hf] using hkeep hg
  · simp only [note, hf, hk, answer, hg]
    exact ⟨rfl, rfl, fun r hr => (Answer.key.inj hr).symm⟩
  · simpa only [note, hf, hk] using hkeep hg
  · simp only [note, hf, hk, answer, hg]
    exact ⟨h.keys, h.fetchedAt, fun r hr => by cases hr⟩

theorem call_current (hst : (lts fromJwk ttlSeconds).step s l s') (h : s.Current last) :
    s'.Current (s.note fromJwk ttlSeconds l last) := by
  obtain rfl := Option.some.inj hst
  exact ⟨(getKey_current h).1, (getKey_current h).2.1⟩

/-- It raises only with no key cached, and when the fetch fails. -/
theorem answer_raised (h : s.answer fromJwk ttlSeconds l = .raised) :
    s.client.keys = [] ∧ l.fetch.keys fromJwk = none := by
  obtain ⟨-, hg⟩ | ⟨-, keys, -, hg⟩ | ⟨-, -, -, hg⟩ | ⟨-, hf, hk, -⟩ := getKey_cases fromJwk ttlSeconds s l
  · rw [answer, hg] at h; cases h
  · rw [answer, hg] at h; cases h
  · rw [answer, hg] at h; cases h
  · exact ⟨hk, hf⟩

/-- An answer without an error is the entry of the cached set, when the fetch fails. -/
theorem answer_failed {k : Key} (hf : l.fetch.keys fromJwk = none)
    (hk : find s.client.keys l.kid = some k) : s.answer fromJwk ttlSeconds l = .key (some k) := by
  obtain ⟨-, hg⟩ | ⟨-, keys, hk', -⟩ | ⟨-, -, -, hg⟩ | ⟨-, -, he, -⟩ :=
    getKey_cases fromJwk ttlSeconds s l
  · rw [answer, hg, hk]
  · rw [hf] at hk'; cases hk'
  · rw [answer, hg, hk]
  · rw [he, find_nil] at hk; cases hk

/-! ## Over a run -/

theorem latest_current (h0 : s₀.client = {}) (hr : (lts fromJwk ttlSeconds).Run s₀ ls s) :
    s.Current (latest fromJwk ttlSeconds s₀ ls) := by
  refine hr.history_induct (I := Current) (fun _ _ _ h => h) (fun _ _ _ _ => call_current) ?_
  exact ⟨by rw [h0]; rfl, by rw [h0]; rfl⟩

/-- The record of one more call. -/
theorem latest_snoc (hr : (lts fromJwk ttlSeconds).Run s₀ ls s) (l : Call) :
    latest fromJwk ttlSeconds s₀ (ls ++ [l]) =
      s.note fromJwk ttlSeconds l (latest fromJwk ttlSeconds s₀ ls) :=
  hr.history_snoc (fun _ _ _ h => h) rfl

/-- The answers name what was fetched last. -/
theorem get_key_current (h0 : s₀.client = {}) (hr : (lts fromJwk ttlSeconds).Run s₀ ls s)
    {r : Option Key} (ha : s.answer fromJwk ttlSeconds l = .key r) :
    r = find (keysOf (latest fromJwk ttlSeconds s₀ (ls ++ [l]))) l.kid := by
  obtain ⟨-, -, hread⟩ := getKey_current (l := l) (latest_current h0 hr)
  rw [latest_snoc hr]
  exact hread r ha

/-- While every fetch fails the cache stays as it is. -/
theorem outage_client (hr : (lts fromJwk ttlSeconds).Run s ls s')
    (hf : ∀ l ∈ ls, l.fetch.keys fromJwk = none) : s'.client = s.client := by
  induction hr with
  | nil => rfl
  | @cons s m s' l ls hst _ ih =>
    obtain ⟨hl, hls⟩ := List.forall_mem_cons.mp hf
    obtain rfl := Option.some.inj hst
    rw [ih hls]
    exact getKey_failed hl

/-- **Graceful degradation.** -/
theorem outage (h0 : s₀.client = {}) (hr : (lts fromJwk ttlSeconds).Run s₀ ls s) {ds : List Call}
    (hd : (lts fromJwk ttlSeconds).Run s ds s') (hf : ∀ d ∈ ds ++ [l], d.fetch.keys fromJwk = none)
    {k : Key} (hk : find (keysOf (latest fromJwk ttlSeconds s₀ ls)) l.kid = some k) :
    s'.answer fromJwk ttlSeconds l = .key (some k) := by
  obtain ⟨hds, hl⟩ := List.forall_mem_append.mp hf
  refine answer_failed (hl l (List.mem_singleton_self l)) ?_
  rw [outage_client hd hds, (latest_current h0 hr).keys, hk]

/-! ## Removed keys -/

/-- A fetch brings what auth-service publishes when it reads its keys. -/
def Served (fromJwk : Json → Option Key) (ttlSeconds : Nat) (published : Nat → List (Json × Key))
    (s : Service Key) (l : Call) : Prop :=
  s.fetches ttlSeconds l = true → l.fetch.keys fromJwk = some (published (s.served l))

/-- What was fetched was published, at a time that has come. -/
def Published (published : Nat → List (Json × Key)) (s : Service Key) (last : Option (Fetched Key)) : Prop :=
  ∀ f ∈ last, f.keys = published f.served ∧ f.served ≤ s.clock

theorem clock_le_finish : s.clock ≤ s.finish ttlSeconds l := by
  unfold finish ended served now
  split <;> omega

theorem call_published {published : Nat → List (Json × Key)}
    (hst : ((lts fromJwk ttlSeconds).restrict (Served fromJwk ttlSeconds published)).step s l s')
    (h : Published published s last) : Published published s' (s.note fromJwk ttlSeconds l last) := by
  obtain ⟨hst, hs⟩ := hst
  obtain rfl := Option.some.inj hst
  intro f hf
  cases hc : s.fetches ttlSeconds l with
  | false =>
    simp only [note, hc] at hf
    exact ⟨(h f hf).1, Nat.le_trans (h f hf).2 clock_le_finish⟩
  | true =>
    simp only [note, hc, hs hc, Option.mem_some_iff] at hf
    subst hf
    refine ⟨rfl, ?_⟩
    simp only [finish, hc, if_true, ended]
    exact Nat.le_add_right _ _

theorem latest_published {published : Nat → List (Json × Key)}
    (hr : ((lts fromJwk ttlSeconds).restrict (Served fromJwk ttlSeconds published)).Run s₀ ls s) :
    Published published s (latest fromJwk ttlSeconds s₀ ls) := by
  refine hr.history_induct (I := Published published) ?_ (fun _ _ _ _ => call_published) ?_
  · intro s l s' hst
    exact hst.1
  · intro f hf
    cases hf

/-- A call that fetches nothing comes in time; one that does ends with its fetch. -/
theorem finish_le (hs : s.fetches ttlSeconds l = true → l.fetch.keys fromJwk ≠ none) (h : s.Current last)
    {f : Fetched Key} (hf : f ∈ s.note fromJwk ttlSeconds l last) :
    s.finish ttlSeconds l ≤ f.ended + nanoseconds * ttlSeconds := by
  cases hc : s.fetches ttlSeconds l with
  | false =>
    have hfresh : s.now l ≤ s.client.fetchedAt + nanoseconds * ttlSeconds := by
      simp only [fetches, Client.fetches, Bool.or_eq_false_iff, decide_eq_false_iff_not] at hc
      exact Nat.le_of_not_lt hc.1
    simp only [note, hc] at hf
    rw [h.fetchedAt, hf] at hfresh
    simpa [finish, hc] using hfresh
  | true =>
    obtain ⟨keys, hk⟩ := Option.ne_none_iff_exists'.mp (hs hc)
    simp only [note, hc, hk, Option.mem_some_iff] at hf
    simp only [finish, hc, if_true, ← hf]
    exact Nat.le_add_right _ _

/-- **A removed key.** It is returned only if the fetch that brought it was answered before the
removal, and within `ttl_seconds` of the end of that fetch. -/
theorem removed_key {published : Nat → List (Json × Key)} (h0 : s₀.client = {})
    (hr : ((lts fromJwk ttlSeconds).restrict (Served fromJwk ttlSeconds published)).Run s₀ ls s)
    (hs : Served fromJwk ttlSeconds published s l) {k : Key}
    (ha : s.answer fromJwk ttlSeconds l = .key (some k)) {removed : Nat}
    (hgone : ∀ t, removed ≤ t → t ≤ s.finish ttlSeconds l → find (published t) l.kid ≠ some k) :
    ∃ f ∈ latest fromJwk ttlSeconds s₀ (ls ++ [l]),
      f.served < removed ∧ s.finish ttlSeconds l ≤ f.ended + nanoseconds * ttlSeconds := by
  have hread := get_key_current h0 hr.unrestrict ha
  have hpub := latest_published (hr.snoc (l := l) ⟨rfl, hs⟩)
  cases hlast : latest fromJwk ttlSeconds s₀ (ls ++ [l]) with
  | none => rw [hlast] at hread; cases hread
  | some f =>
    obtain ⟨hkeys, hserved⟩ := hpub f hlast
    refine ⟨f, rfl, ?_, ?_⟩
    · refine Nat.lt_of_not_le fun hle => hgone f.served hle hserved ?_
      rw [hread, hlast, ← hkeys]
      rfl
    · rw [latest_snoc hr.unrestrict] at hlast
      refine finish_le (fun hc => ?_) (latest_current h0 hr.unrestrict) hlast
      rw [hs hc]
      exact Option.some_ne_none _

/-! ## Freshness and outages -/

/-- **The cache.** Answers are read from the latest key set fetched; a failed fetch changes nothing, so
that its kids resolve through any outage; only an empty cache and a failed fetch raise; and while every
fetch succeeds, a removed key is not returned for longer than `ttl_seconds`, counted from its removal or
from the end of the fetch that brought it. -/
theorem jwks_cache (h0 : s₀.client = {}) (hr : (lts fromJwk ttlSeconds).Run s₀ ls s) (l : Call) :
    (∀ r, s.answer fromJwk ttlSeconds l = .key r →
      r = find (keysOf (latest fromJwk ttlSeconds s₀ (ls ++ [l]))) l.kid) ∧
    (l.fetch.keys fromJwk = none → (s.getKey fromJwk ttlSeconds l).1 = s.client) ∧
    (∀ ds s', (lts fromJwk ttlSeconds).Run s ds s' → (∀ d ∈ ds ++ [l], d.fetch.keys fromJwk = none) →
      ∀ k, find (keysOf (latest fromJwk ttlSeconds s₀ ls)) l.kid = some k →
        s'.answer fromJwk ttlSeconds l = .key (some k)) ∧
    (s.answer fromJwk ttlSeconds l = .raised → s.client.keys = [] ∧ l.fetch.keys fromJwk = none) ∧
    ∀ published, ((lts fromJwk ttlSeconds).restrict (Served fromJwk ttlSeconds published)).Run s₀ ls s →
      Served fromJwk ttlSeconds published s l → ∀ k, s.answer fromJwk ttlSeconds l = .key (some k) →
        ∀ removed, (∀ t, removed ≤ t → t ≤ s.finish ttlSeconds l → find (published t) l.kid ≠ some k) →
          ∃ f ∈ latest fromJwk ttlSeconds s₀ (ls ++ [l]), f.served < removed ∧
            s.finish ttlSeconds l ≤ max removed f.ended + nanoseconds * ttlSeconds := by
  refine ⟨fun r ha => get_key_current h0 hr ha, getKey_failed, ?_, answer_raised, ?_⟩
  · intro ds s' hd hf k hk
    exact outage h0 hr hd hf hk
  · intro published hpr hs k ha removed hgone
    obtain ⟨f, hf, hserved, hle⟩ := removed_key h0 hpr hs ha hgone
    exact ⟨f, hf, hserved, Nat.le_trans hle (Nat.add_le_add_right (Nat.le_max_right _ _) _)⟩

end Service

/-- An RSA key is as good as its modulus. -/
def modulus : Json → Option String
  | .obj key =>
    match Json.get key "kty", Json.get key "e", Json.get key "n" with
    | .str "RSA", .str _, .str n => some n
    | _, _, _ => none
  | _ => none

def jwk (kid n : String) : Json :=
  .obj [("kty", .str "RSA"), ("kid", .str kid), ("n", .str n), ("e", .str "AQAB")]

/-- A fetch that takes two seconds; auth-service reads its keys at once. -/
def firstCall : Call where
  kid := "k1"
  wait := 0
  fetch := .response 200 (some (.obj [("keys", .arr [jwk "k1" "n1"])]))
  toServer := 0
  toEnd := nanoseconds * 2

/-- Five minutes later auth-service cannot be reached. -/
def secondCall : Call where
  kid := "k1"
  wait := nanoseconds * 300
  fetch := .unreachable
  toServer := 0
  toEnd := 0

def fetchedOnce : Service String where
  client := { keys := [(.str "k1", "n1")], fetchedAt := nanoseconds * 2 }
  clock := nanoseconds * 2

/-- `k1` is removed after a second. -/
def published (t : Nat) : List (Json × String) := if t < nanoseconds then [(.str "k1", "n1")] else []

theorem firstCall_run : ((Service.lts modulus 300).restrict (Service.Served modulus 300 published)).Run
    { clock := 0 } [firstCall] fetchedOnce :=
  .cons ⟨rfl, fun _ => rfl⟩ (.nil _)

theorem secondCall_served : Service.Served modulus 300 published fetchedOnce secondCall := by
  have hfresh : fetchedOnce.fetches 300 secondCall = false := by decide +kernel
  simp [Service.Served, hfresh]

theorem published_gone (last : Nat) :
    ∀ t, nanoseconds ≤ t → t ≤ last → find (published t) "k1" ≠ some "n1" := by
  intro t ht _
  simp [published, Nat.not_lt.mpr ht]

theorem jwks_cache_secondCall :
    fetchedOnce.answer modulus 300 secondCall = .key (some "n1") ∧
      ∃ f ∈ Service.latest modulus 300 { clock := 0 } [firstCall, secondCall], f.served < nanoseconds ∧
        fetchedOnce.finish 300 secondCall ≤ max nanoseconds f.ended + nanoseconds * 300 := by
  obtain ⟨-, -, houtage, -, hremoved⟩ := Service.jwks_cache rfl firstCall_run.unrestrict secondCall
  have hanswer : fetchedOnce.answer modulus 300 secondCall = .key (some "n1") :=
    houtage [] _ (.nil _) (by simp [secondCall, Fetch.keys]) "n1" (by decide +kernel)
  exact ⟨hanswer, hremoved published firstCall_run secondCall_served "n1" hanswer nanoseconds
    (published_gone _)⟩

/-- The bound counted from the removal alone. -/
def RemovedInTime (Key : Type) (fromJwk : Json → Option Key) (ttlSeconds : Nat) : Prop :=
  ∀ (published : Nat → List (Json × Key)) (s₀ s : Service Key) (ls : List Call) (l : Call) (k : Key)
    (removed : Nat), s₀.client = {} →
    ((Service.lts fromJwk ttlSeconds).restrict (Service.Served fromJwk ttlSeconds published)).Run s₀ ls s →
    Service.Served fromJwk ttlSeconds published s l → s.answer fromJwk ttlSeconds l = .key (some k) →
    (∀ t, removed ≤ t → t ≤ s.finish ttlSeconds l → find (published t) l.kid ≠ some k) →
    s.finish ttlSeconds l ≤ removed + nanoseconds * ttlSeconds

/-- A key that is removed while it is on its way outlives the removal by more. -/
theorem fetched_slowly : ¬ RemovedInTime String modulus 300 := by
  intro h
  have hlate := h published _ _ _ secondCall "n1" nanoseconds rfl firstCall_run secondCall_served
    (by decide +kernel) (published_gone _)
  exact absurd hlate (by decide +kernel)

end Gestalt.Jwks
