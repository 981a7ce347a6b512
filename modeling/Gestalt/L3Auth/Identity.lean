import Gestalt.L3Auth.AccessTokens

/-!
# Identity, from auth-service to every service

Processes of auth-service load the signing key from its volume, publish it and sign
access tokens; processes of the other services fetch the key set, cache it, and check the
tokens they are shown. `System` interleaves all of these: auth-service starts, crashes and
restarts, anybody may write to its volume, services start at any time, and a fetch is
answered by a process of auth-service or fails.

Wall clocks are the reader's own: a request carries the time at which its token is checked.

* `accepted_issued`: a service accepts nothing but tokens auth-service has signed, unexpired,
  with the claims they were signed with, in every run in which no token is forged.
* `issued_accepted`: where the signing key is stable (`Keys.System.key_stable`), every token
  auth-service has signed is accepted until it expires, by every service that has ever reached
  auth-service, through its restarts and outages.
-/
namespace Gestalt.Auth.Identity

/-- An access token, by what it was made from. -/
structure Issued (Priv : Type) where
  km : KeyMaterial Priv
  userId : String
  email : String
  jti : String
  now : Nat
  deriving DecidableEq

/-- Who answers a fetch. -/
inductive Source
  | process (p : Nat)
  | fails (fetch : Jwks.Fetch)

inductive Lbl (Priv : Type)
  | keys (l : Keys.Lbl Priv)
  /-- process `p` of auth-service signs a token -/
  | issue (p : Nat) (userId email jti : String) (now : Nat)
  /-- a process of some service starts -/
  | serve (clock : Nat)
  | request (i : Nat) (r : Request) (source : Source)

structure System (Priv : Type) where
  keys : Keys.System Priv
  services : List (Jwks.Service PublicNumbers) := []
  issued : List (Issued Priv) := []

variable {Priv : Type}

namespace Issued

variable (cfg : TokenSettings) (t : Issued Priv)

def claims : Claims := accessClaims cfg t.userId t.email t.jti t.now

def token (j : PyJwt) : String := createAccessToken j cfg t.km t.userId t.email t.jti t.now

/-- When it expires. -/
def expiry : Nat := (t.now / microseconds + cfg.jwtAccessTokenTtlSeconds) * microseconds

end Issued

namespace System

variable (c : Crypto Priv) (j : PyJwt) (cfg : TokenSettings) (ttlSeconds : Nat)

/-- The keys of a process of auth-service that lives and is up. -/
def up (s : System Priv) (p : Nat) : Option (KeyMaterial Priv) :=
  match s.keys.procs[p]? with
  | some x => if x.alive then x.ready else none
  | none => none

/-- What a fetch comes to. -/
def fetched (s : System Priv) : Source → Option Jwks.Fetch
  | .process p => (s.up p).map fun km => .response 200 (some (km.jwks c))
  | .fails fetch => if (fetch.keys j.fromJwk).isNone then some fetch else none

def step (s : System Priv) : Lbl Priv → Option (System Priv)
  | .keys l => (s.keys.step c l).map fun keys => { s with keys }
  | .issue p userId email jti now =>
    (s.up p).map fun km => { s with issued := s.issued ++ [⟨km, userId, email, jti, now⟩] }
  | .serve clock => some { s with services := s.services ++ [{ clock }] }
  | .request i r source =>
    match s.services[i]?, s.fetched c j source with
    | some v, some fetch =>
      some { s with services := s.services.set i (getCurrentUser j ttlSeconds v r fetch).1 }
    | _, _ => none

def init (s : System Priv) : Prop := Keys.System.init c s.keys ∧ s.services = [] ∧ s.issued = []

def lts : LTS (System Priv) (Lbl Priv) := LTS.ofFn (init c) (step c j ttlSeconds)

/-- `Keys.System.Alone` -/
def Alone (s : System Priv) : Lbl Priv → Prop
  | .keys l => s.keys.Alone l
  | _ => True

/-- What verifies under a key of auth-service was signed with it. -/
def Unforged (s : System Priv) : Lbl Priv → Prop
  | .request _ r _ => ∀ token, bearer (r.authorization.getD "") = some token →
    ∀ x ∈ s.keys.procs, ∀ km, x.ready = some km → ∀ claims,
      j.decode token (c.publicNumbers km.privateKey) issuer r.now = .ok claims →
        ∃ t ∈ s.issued, t.claims cfg = claims
  | _ => True

end System

/-! ## The keys the services hold -/

variable {c : Crypto Priv} {j : PyJwt} {cfg : TokenSettings} {ttlSeconds : Nat} {s s' : System Priv}

/-- A process of auth-service has loaded it, at some time. -/
def System.Known (s : System Priv) (km : KeyMaterial Priv) : Prop :=
  ∃ x ∈ s.keys.procs, x.ready = some km

/-- What a process has loaded it keeps. -/
theorem known_keys {keys : Keys.System Priv} {l : Keys.Lbl Priv} (h : s.keys.step c l = some keys)
    {km : KeyMaterial Priv} (hk : s.Known km) : ∃ x ∈ keys.procs, x.ready = some km := by
  obtain ⟨x, hx, hr⟩ := hk
  cases l with
  | start =>
    obtain rfl := Option.some.inj h
    exact ⟨x, List.mem_append_left _ hx, hr⟩
  | next i drawn =>
    simp only [Keys.System.step] at h
    split at h
    · rename_i y hy
      split at h
      · obtain ⟨r, hst, rfl⟩ := Option.map_eq_some_iff.mp h
        refine Procs.holder_kept hy ?_ ⟨x, hx, hr⟩
        intro hyr
        rw [Keys.Proc.pc_of_ready hyr] at hst
        cases hst
      · cases h
    · cases h
  | crash i =>
    simp only [Keys.System.step] at h
    split at h
    · rename_i y hy
      obtain rfl := Option.some.inj h
      exact Procs.holder_set hy id ⟨x, hx, hr⟩
    · cases h
  | replace files =>
    obtain rfl := Option.some.inj h
    exact ⟨x, hx, hr⟩

theorem known_up {p : Nat} {km : KeyMaterial Priv} (h : s.up p = some km) : s.Known km := by
  unfold System.up at h
  split at h
  · rename_i x hx
    split at h
    · exact ⟨x, List.mem_of_getElem? hx, h⟩
    · cases h
  · cases h

/-- Every key a service holds is one of auth-service's, under its kid. -/
def Genuine (c : Crypto Priv) (s : System Priv) (keys : List (Json × PublicNumbers)) : Prop :=
  ∀ e ∈ keys, ∃ km, s.Known km ∧ e = (.str km.kid, c.publicNumbers km.privateKey)

theorem genuine_fetched (hj : j.Works c) {source : Source} {fetch : Jwks.Fetch}
    {keys : List (Json × PublicNumbers)} (hs : s.fetched c j source = some fetch)
    (hk : fetch.keys j.fromJwk = some keys) : Genuine c s keys := by
  cases source with
  | process p =>
    obtain ⟨km, hup, rfl⟩ := Option.map_eq_some_iff.mp hs
    rw [jwks_keys hj] at hk
    obtain rfl := Option.some.inj hk
    intro e he
    exact ⟨km, known_up hup, List.mem_singleton.mp he⟩
  | fails f =>
    simp only [System.fetched] at hs
    split at hs
    · rename_i hnone
      obtain rfl := Option.some.inj hs
      rw [hk] at hnone
      cases hnone
    · cases hs

theorem genuine_getKey (hj : j.Works c) {source : Source} {fetch : Jwks.Fetch}
    {v : Jwks.Service PublicNumbers} {call : Jwks.Call} (hs : s.fetched c j source = some fetch)
    (hcall : call.fetch = fetch) (hv : Genuine c s v.client.keys) :
    Genuine c s (v.getKey j.fromJwk ttlSeconds call).1.keys := by
  obtain ⟨-, h⟩ | ⟨-, keys, hk, h⟩ | ⟨-, -, -, h⟩ | ⟨-, -, -, h⟩ :=
    Jwks.Service.getKey_cases j.fromJwk ttlSeconds v call
  · rw [h]
    exact hv
  · rw [h]
    exact genuine_fetched hj hs (hcall ▸ hk)
  · rw [h]
    exact hv
  · rw [h]
    exact hv

theorem genuine_getCurrentUser (hj : j.Works c) {source : Source} {fetch : Jwks.Fetch}
    {v : Jwks.Service PublicNumbers} {r : Request} (hs : s.fetched c j source = some fetch)
    (hv : Genuine c s v.client.keys) :
    Genuine c s (getCurrentUser j ttlSeconds v r fetch).1.client.keys := by
  unfold getCurrentUser decodeToken
  split
  · exact hv
  · split
    · exact hv
    · split
      · exact hv
      · exact genuine_getKey hj hs rfl hv

/-- The services hold auth-service's keys, and auth-service has signed with its own. -/
structure Trusted (c : Crypto Priv) (s : System Priv) : Prop where
  genuine : ∀ v ∈ s.services, Genuine c s v.client.keys
  issued : ∀ t ∈ s.issued, s.Known t.km

theorem Trusted.of_known (h : Trusted c s) (hknown : ∀ km, s.Known km → s'.Known km)
    (hsv : s'.services = s.services) (his : s'.issued = s.issued) : Trusted c s' := by
  refine ⟨fun v hv e he => ?_, fun t ht => hknown _ (h.issued t (his ▸ ht))⟩
  obtain ⟨km, hk, hek⟩ := h.genuine v (hsv ▸ hv) e he
  exact ⟨km, hknown km hk, hek⟩

theorem trusted_step (hj : j.Works c) {l : Lbl Priv} (h : s.step c j ttlSeconds l = some s')
    (hI : Trusted c s) : Trusted c s' := by
  cases l with
  | keys l =>
    obtain ⟨keys, hst, rfl⟩ := Option.map_eq_some_iff.mp h
    exact hI.of_known (fun km hk => known_keys hst hk) rfl rfl
  | issue p userId email jti now =>
    obtain ⟨km, hup, rfl⟩ := Option.map_eq_some_iff.mp h
    refine ⟨hI.genuine, fun t ht => ?_⟩
    rcases List.mem_append.mp ht with ht | ht
    · exact hI.issued t ht
    · obtain rfl := List.mem_singleton.mp ht
      exact known_up hup
  | serve clock =>
    obtain rfl := Option.some.inj h
    refine ⟨fun v hv => ?_, hI.issued⟩
    rcases List.mem_append.mp hv with hv | hv
    · exact hI.genuine v hv
    · obtain rfl := List.mem_singleton.mp hv
      exact nofun
  | request i r source =>
    simp only [System.step] at h
    split at h
    · rename_i v fetch hv hfetch
      obtain rfl := Option.some.inj h
      refine ⟨fun w hw => ?_, hI.issued⟩
      rcases List.mem_or_eq_of_mem_set hw with hw | rfl
      · exact hI.genuine w hw
      · exact genuine_getCurrentUser hj hfetch (hI.genuine v (List.mem_of_getElem? hv))
    · cases h

theorem trusted (hj : j.Works c) (h : (System.lts c j ttlSeconds).Reachable s) : Trusted c s := by
  refine LTS.reachable_induct (I := Trusted c) ?_ (fun s l s' _ hI hst => trusted_step hj hst hI) h
  rintro s ⟨-, hsv, his⟩
  refine ⟨fun v hv => ?_, fun t ht => ?_⟩
  · rw [hsv] at hv
    cases hv
  · rw [his] at ht
    cases ht

/-! ## What is accepted was issued -/

theorem find_mem {Key : Type} {keys : List (Json × Key)} {kid : String} {key : Key}
    (h : Jwks.find keys kid = some key) : ∃ e ∈ keys, e.1.isStr kid = true ∧ e.2 = key := by
  obtain ⟨e, he, rfl⟩ := Option.map_eq_some_iff.mp h
  have hmem := List.mem_of_find?_eq_some he
  exact ⟨e, List.mem_reverse.mp hmem, by simpa using List.find?_some he, rfl⟩

/-- The key an answer names is one of auth-service's. -/
theorem answer_known (hj : j.Works c) {source : Source} {fetch : Jwks.Fetch}
    {v : Jwks.Service PublicNumbers} {call : Jwks.Call} {key : PublicNumbers}
    (hs : s.fetched c j source = some fetch) (hcall : call.fetch = fetch)
    (hv : Genuine c s v.client.keys) (ha : v.answer j.fromJwk ttlSeconds call = .key (some key)) :
    ∃ km, s.Known km ∧ key = c.publicNumbers km.privateKey := by
  have hfind : ∀ keys, Genuine c s keys → Jwks.find keys call.kid = some key →
      ∃ km, s.Known km ∧ key = c.publicNumbers km.privateKey := by
    intro keys hg hf
    obtain ⟨e, he, -, rfl⟩ := find_mem hf
    obtain ⟨km, hk, rfl⟩ := hg e he
    exact ⟨km, hk, rfl⟩
  obtain ⟨-, h⟩ | ⟨-, keys, hk, h⟩ | ⟨-, -, -, h⟩ | ⟨-, -, -, h⟩ :=
    Jwks.Service.getKey_cases j.fromJwk ttlSeconds v call
  · rw [Jwks.Service.answer, h] at ha
    exact hfind _ hv (Jwks.Answer.key.inj ha)
  · rw [Jwks.Service.answer, h] at ha
    exact hfind _ (genuine_fetched hj hs (hcall ▸ hk)) (Jwks.Answer.key.inj ha)
  · rw [Jwks.Service.answer, h] at ha
    exact hfind _ hv (Jwks.Answer.key.inj ha)
  · rw [Jwks.Service.answer, h] at ha
    cases ha

/-- The ways a request can end: no token, an unreadable one, no kid, no key set, no such key, or
checked under a key of the cached or the fetched set. -/
theorem getCurrentUser_cases (ttlSeconds : Nat) (r : Request) (hj : j.Works c)
    {v : Jwks.Service PublicNumbers} {source : Source} {fetch : Jwks.Fetch} (hs : s.fetched c j source = some fetch)
    (hv : Genuine c s v.client.keys) :
    (∃ e : AppError, e.status = 401 ∧ (getCurrentUser j ttlSeconds v r fetch).2 = .error e) ∨
    (v.client.keys = [] ∧ source = .fails fetch ∧
      (getCurrentUser j ttlSeconds v r fetch).2 = .error internalError) ∨
    ∃ token km, bearer (r.authorization.getD "") = some token ∧ s.Known km ∧
      (getCurrentUser j ttlSeconds v r fetch).2 =
        readClaims (j.decode token (c.publicNumbers km.privateKey) issuer r.now) := by
  unfold getCurrentUser decodeToken
  split
  · exact .inl ⟨missingToken, rfl, rfl⟩
  · rename_i token hb
    split
    · exact .inl ⟨_, rfl, rfl⟩
    · split
      · exact .inl ⟨unknownKey, rfl, rfl⟩
      · rename_i kid hkid
        dsimp only
        split
        · rename_i ha
          obtain ⟨hempty, hfail⟩ := Jwks.Service.answer_raised ha
          split
          · exact .inl ⟨_, rfl, rfl⟩
          · refine .inr (.inl ⟨hempty, ?_, rfl⟩)
            cases source with
            | process p =>
              obtain ⟨km, -, rfl⟩ := Option.map_eq_some_iff.mp hs
              change Jwks.Fetch.keys j.fromJwk (.response 200 (some (km.jwks c))) = none at hfail
              rw [jwks_keys hj] at hfail
              cases hfail
            | fails f =>
              simp only [System.fetched] at hs
              split at hs
              · rw [Option.some.inj hs]
              · cases hs
        · exact .inl ⟨unknownKey, rfl, rfl⟩
        · rename_i key ha
          obtain ⟨km, hk, rfl⟩ := answer_known hj hs rfl hv ha
          exact .inr (.inr ⟨token, km, hb, hk, rfl⟩)

theorem readClaims_issued (t : Issued Priv) :
    readClaims (.ok (t.claims cfg)) = .ok ⟨.str t.userId, .str t.email, t.claims cfg⟩ := rfl

/-- **Nothing but what auth-service signed.** In a run without forged tokens a service accepts only
unexpired tokens that auth-service has signed, and reads them as they were signed; what it refuses it
answers with 401, or with 500 when it has never had a key and cannot fetch one. -/
theorem accepted_issued (hj : j.Works c)
    (h : ((System.lts c j ttlSeconds).restrict (System.Unforged c j cfg)).Reachable s) {i : Nat} {r : Request}
    {source : Source} {v : Jwks.Service PublicNumbers} {fetch : Jwks.Fetch}
    (hu : s.Unforged c j cfg (.request i r source)) (hv : s.services[i]? = some v)
    (hs : s.fetched c j source = some fetch) :
    (∀ claims, (getCurrentUser j ttlSeconds v r fetch).2 = .ok claims →
      ∃ t ∈ s.issued, claims = ⟨.str t.userId, .str t.email, t.claims cfg⟩ ∧ r.now < t.expiry cfg) ∧
    ∀ e, (getCurrentUser j ttlSeconds v r fetch).2 = .error e →
      e.status = 401 ∨ (e = internalError ∧ v.client.keys = [] ∧ source = .fails fetch) := by
  have hI := trusted hj h.unrestrict
  obtain ⟨e, he, hr⟩ | ⟨hempty, hsrc, hr⟩ | ⟨token, km, hb, ⟨x, hx, hready⟩, hr⟩ :=
    getCurrentUser_cases ttlSeconds r hj hs
      (hI.genuine v (List.mem_of_getElem? hv))
  · rw [hr]
    exact ⟨nofun, by rintro _ ⟨⟩; exact .inl he⟩
  · rw [hr]
    exact ⟨nofun, by rintro _ ⟨⟩; exact .inr ⟨rfl, hempty, hsrc⟩⟩
  · rw [hr]
    cases hd : j.decode token (c.publicNumbers km.privateKey) issuer r.now with
    | error exc => exact ⟨nofun, by rintro _ ⟨⟩; exact .inl rfl⟩
    | ok claims =>
      obtain ⟨t, ht, rfl⟩ := hu token hb x hx km hready claims hd
      rw [readClaims_issued]
      refine ⟨?_, nofun⟩
      rintro _ ⟨⟩
      exact ⟨t, ht, rfl, hj.decode_exp _ _ _ _ _ hd _ rfl⟩

/-! ## What is issued is accepted -/

/-- The volume and the processes of auth-service, in a run of the whole system. -/
theorem keys_reachable (h : ((System.lts c j ttlSeconds).restrict System.Alone).Reachable s) :
    ((Keys.System.lts c).restrict Keys.System.Alone).Reachable s.keys := by
  have hsim : LTS.Simulation ((System.lts c j ttlSeconds).restrict System.Alone)
      ((Keys.System.lts c).restrict Keys.System.Alone) System.keys := by
    refine ⟨fun s h0 => h0.1, fun s l s' _ hst => ?_⟩
    obtain ⟨hst, ha⟩ := hst
    cases l with
    | keys l =>
      obtain ⟨keys, hk, rfl⟩ := Option.map_eq_some_iff.mp hst
      exact .inr ⟨l, hk, ha⟩
    | issue p userId email jti now =>
      obtain ⟨km, -, rfl⟩ := Option.map_eq_some_iff.mp hst
      exact .inl rfl
    | serve clock =>
      obtain rfl := Option.some.inj hst
      exact .inl rfl
    | request i r source =>
      simp only [System.lts, LTS.ofFn, System.step] at hst
      split at hst
      · obtain rfl := Option.some.inj hst
        exact .inl rfl
      · cases hst
  exact hsim.reachable h

/-- A key set that is not empty, and holds one key only. -/
theorem find_single {Key : Type} {keys : List (Json × Key)} {kid : String} {key : Key} (hne : keys ≠ [])
    (h : ∀ e ∈ keys, e = (.str kid, key)) : Jwks.find keys kid = some key := by
  obtain ⟨e, he⟩ := List.exists_mem_of_ne_nil keys hne
  obtain ⟨d, hd⟩ : ∃ d, keys.reverse.find? (fun e => e.1.isStr kid) = some d := by
    refine Option.isSome_iff_exists.mp (List.find?_isSome.mpr ⟨e, List.mem_reverse.mpr he, ?_⟩)
    rw [h e he]
    exact decide_eq_true rfl
  have hdk := h d (List.mem_reverse.mp (List.mem_of_find?_eq_some hd))
  rw [Jwks.find, hd, hdk]
  rfl

/-- With one key about, and a set cached or fetched, the answer is that key. -/
theorem answer_single (ttlSeconds : Nat) (call : Jwks.Call) (hj : j.Works c) {km : KeyMaterial Priv}
    (hone : ∀ km', s.Known km' → km' = km)
    {source : Source} {fetch : Jwks.Fetch} {v : Jwks.Service PublicNumbers}
    (hs : s.fetched c j source = some fetch) (hcall : call.fetch = fetch) (hkid : call.kid = km.kid)
    (hv : Genuine c s v.client.keys) (hhas : v.client.keys ≠ [] ∨ ∃ p, source = .process p) :
    v.answer j.fromJwk ttlSeconds call = .key (some (c.publicNumbers km.privateKey)) := by
  have hsingle : ∀ keys, Genuine c s keys → keys ≠ [] →
      Jwks.find keys call.kid = some (c.publicNumbers km.privateKey) := by
    intro keys hg hne
    refine find_single hne fun e he => ?_
    obtain ⟨km', hk, rfl⟩ := hg e he
    rw [hone km' hk, hkid]
  obtain ⟨hf, h⟩ | ⟨-, keys, hk, h⟩ | ⟨-, -, hne, h⟩ | ⟨-, hk, hempty, -⟩ :=
    Jwks.Service.getKey_cases j.fromJwk ttlSeconds v call
  · -- what needs no fetch is in the cache
    have hne : v.client.keys ≠ [] := by
      intro he
      simp [Jwks.Service.fetches, Jwks.Client.fetches, he] at hf
    rw [Jwks.Service.answer, h, hsingle _ hv hne]
  · have hne : keys ≠ [] := by
      rintro rfl
      cases source with
      | process p =>
        obtain ⟨km', -, rfl⟩ := Option.map_eq_some_iff.mp hs
        rw [hcall, jwks_keys hj] at hk
        cases hk
      | fails f =>
        simp only [System.fetched] at hs
        split at hs
        · rename_i hnone
          obtain rfl := Option.some.inj hs
          rw [← hcall, hk] at hnone
          cases hnone
        · cases hs
    rw [Jwks.Service.answer, h, hsingle _ (genuine_fetched hj hs (hcall ▸ hk)) hne]
  · rw [Jwks.Service.answer, h, hsingle _ hv hne]
  · rcases hhas with hne | ⟨p, rfl⟩
    · exact absurd hempty hne
    · obtain ⟨km', -, rfl⟩ := Option.map_eq_some_iff.mp hs
      rw [hcall, jwks_keys hj] at hk
      cases hk

theorem kid_ne_empty (hc : c.Works) {privatePem publicPem : Base64.Bytes} {km : KeyMaterial Priv}
    (h : KeyMaterial.load c privatePem publicPem = some km) : km.kid ≠ "" := by
  obtain ⟨key, -, rfl⟩ := Option.map_eq_some_iff.mp h
  intro he
  have hlen := congrArg String.length he
  simp only [String.length_ofList, List.length_take, String.length_toList, hc.hexdigest_length] at hlen
  cases hlen

theorem load_key {privatePem publicPem : Base64.Bytes} {km : KeyMaterial Priv}
    (h : KeyMaterial.load c privatePem publicPem = some km) :
    km.privatePem = privatePem ∧ c.loadPemPrivateKey privatePem = some km.privateKey := by
  obtain ⟨key, hkey, rfl⟩ := Option.map_eq_some_iff.mp h
  exact ⟨rfl, hkey⟩

/-- **A session holds.** Where processes of auth-service start one at a time on a volume of their own,
a token that any of them has signed is accepted until it expires, with the claims it was signed with: by
every service that has a key set or gets one, whether auth-service can be reached or not, and by every
process of auth-service, started before or after. `JWT_ISSUER` is the issuer that the services check (`hiss`;
by default it is), and the reader's clock is not behind the signer's (`hnow`): PyJWT refuses an `iat` that
lies ahead. -/
theorem issued_accepted (hc : c.Works) (hj : j.Works c) (hiss : cfg.jwtIssuer = issuer)
    (h : ((System.lts c j ttlSeconds).restrict System.Alone).Reachable s) {t : Issued Priv}
    (ht : t ∈ s.issued) {r : Request} {scheme : String}
    (hscheme : scheme.toList.map Char.toLower = "bearer".toList)
    (hauth : r.authorization = some (scheme ++ " " ++ t.token cfg j)) (hnow : t.now ≤ r.now)
    (hexp : r.now < t.expiry cfg) :
    (∀ v ∈ s.services, ∀ source fetch, s.fetched c j source = some fetch →
      (v.client.keys ≠ [] ∨ ∃ p, source = .process p) →
        (getCurrentUser j ttlSeconds v r fetch).2 = .ok ⟨.str t.userId, .str t.email, t.claims cfg⟩) ∧
    ∀ p km, s.up p = some km → currentUserId j c cfg km r.authorization r.now = .ok (.str t.userId) := by
  have hI := trusted hj h.unrestrict
  have hkeys := keys_reachable h
  obtain ⟨x, hx, hready⟩ := hI.issued t ht
  have hone : ∀ km', s.Known km' → km' = t.km := by
    rintro km' ⟨y, hy, hr⟩
    exact Keys.System.ready_eq hc hkeys hy hx hr hready
  obtain ⟨-, hload⟩ := Keys.System.ready_files hc hkeys hx hready
  have hpem : c.loadPemPrivateKey t.km.privatePem = some t.km.privateKey := (load_key hload).2
  have hb : bearer (r.authorization.getD "") = some (t.token cfg j) := by
    rw [hauth]
    exact bearer_append hscheme _
  have hdec : j.decode (t.token cfg j) (c.publicNumbers t.km.privateKey) cfg.jwtIssuer r.now =
      .ok (t.claims cfg) :=
    hj.decode_encode _ _ _ _ _ _ hpem (accessClaims_current hnow hexp)
  constructor
  · intro v hv source fetch hs hhas
    obtain ⟨header, hheader, hkid⟩ := hj.header (t.claims cfg) _ _ t.km.kid hpem
    have hkidOf : kidOf header = some t.km.kid := by
      simp [kidOf, hkid, kid_ne_empty hc hload]
    have hans := answer_single ttlSeconds (r.call fetch t.km.kid) hj hone hs rfl rfl
      (hI.genuine v hv) hhas
    have hheader' : j.getUnverifiedHeader (t.token cfg j) = .ok header := hheader
    rw [hiss] at hdec
    simp only [getCurrentUser, hb, decodeToken, hheader', hkidOf, hans, hdec, readClaims_issued]
  · intro p km hup
    obtain rfl := hone km (known_up hup)
    have hdec' : j.decode (t.token cfg j) (t.km.publicNumbers c) cfg.jwtIssuer r.now = .ok (t.claims cfg) :=
      hdec
    simp only [currentUserId, hb, hdec', readClaims_issued]
    rfl

/-! ## Tokens in clear -/

open Keys (byteKeys byteKeys_works)

def clearText (claims : Claims) (key : PublicNumbers) (kid : String) : Json :=
  .obj [("kid", .str kid), ("n", .num key.n), ("claims", .obj claims)]

def checks (issuer : String) (now : Nat) (claims : Claims) : Bool :=
  (Json.get claims "iss").isStr issuer &&
    match Json.lookup claims "iat", Json.lookup claims "exp" with
    | some (.num iat), some (.num exp) =>
      decide (iat * microseconds ≤ (now : Int)) && decide ((now : Int) < exp * microseconds)
    | _, _ => false

/-- A token names the key it is signed with, and shows its claims. -/
def clear : PyJwt where
  encode claims pem kid :=
    match byteKeys.loadPemPrivateKey pem with
    | some key => String.ofList (clearText claims (byteKeys.publicNumbers key) kid).dumps
    | none => ""
  getUnverifiedHeader token :=
    match Json.loads token.toList with
    | some (.obj header) => .ok header
    | _ => .error "Not enough segments"
  decode token key issuer now :=
    match Json.loads token.toList with
    | some (.obj ms) =>
      match Json.lookup ms "n", Json.lookup ms "claims" with
      | some (.num n), some (.obj claims) =>
        if n = key.n && checks issuer now claims then .ok claims
        else .error "Signature verification failed"
      | _, _ => .error "Invalid payload string"
    | _ => .error "Not enough segments"
  fromJwk
    | .obj jwk =>
      match Json.lookup jwk "n", Json.lookup jwk "e" with
      | some (.str n), some (.str e) => do
        let n ← Base64.readUint n.toList
        let e ← Base64.readUint e.toList
        some ⟨n, e⟩
      | _, _ => none
    | _ => none
  fetchError _ := none

theorem clear_works : clear.Works byteKeys where
  header := by
    intro claims pem key kid hkey
    refine ⟨[("kid", .str kid), ("n", .num (byteKeys.publicNumbers key).n), ("claims", .obj claims)], ?_, rfl⟩
    simp only [clear, hkey, String.toList_ofList, Json.loads_dumps, clearText]
  decode_encode := by
    intro claims pem key kid iss now hkey h
    obtain ⟨iat, hiat, hle⟩ := h.iat
    obtain ⟨exp, hexp, hlt⟩ := h.exp
    have hchecks : checks iss now claims = true := by
      simp only [checks, Json.get, h.iss, hiat, hexp, Option.getD_some, Json.isStr, decide_true,
        Bool.true_and, Bool.and_eq_true, decide_eq_true_eq]
      exact ⟨by exact_mod_cast hle, by exact_mod_cast hlt⟩
    simp only [clear, hkey, String.toList_ofList, Json.loads_dumps, clearText]
    simp [Json.lookup, hchecks]
  decode_exp := by
    intro token key iss now claims hd exp hexp
    simp only [clear] at hd
    split at hd
    · split at hd
      · split at hd
        · rename_i hok
          obtain rfl := Except.ok.inj hd
          simp only [checks, hexp, Bool.and_eq_true] at hok
          obtain ⟨-, -, hok⟩ := hok
          split at hok
          · rename_i he
            cases he
            simp only [Bool.and_eq_true, decide_eq_true_eq] at hok
            exact_mod_cast hok.2
          · cases hok
        · cases hd
      · cases hd
    · cases hd
  from_jwk := by
    intro key jwk h
    obtain ⟨n, hn, hrn⟩ := h.n
    obtain ⟨e, he, hre⟩ := h.e
    simp [clear, hn, he, hrn, hre]

theorem clear_decode {claims claims' : Claims} {pem : Base64.Bytes} {kid : String} {key : PublicNumbers}
    {iss : String} {now : Nat} (h : clear.decode (clear.encode claims pem kid) key iss now = .ok claims') :
    claims' = claims := by
  cases hkey : byteKeys.loadPemPrivateKey pem with
  | none =>
    have hempty : Json.loads "".toList = none := by decide
    simp only [clear, hkey, hempty, reduceCtorEq] at h
  | some k =>
    simp only [clear, hkey, String.toList_ofList, Json.loads_dumps, clearText] at h
    simp only [Json.lookup, List.reverse_cons, List.reverse_nil, List.nil_append, List.cons_append,
      List.find?_cons, decide_true, Option.map_some] at h
    split at h
    · rename_i hclaims
      obtain rfl := Json.obj.inj (Option.some.inj hclaims)
      split at h
      · exact (Except.ok.inj h).symm
      · cases h
    · cases h

/-- A token of the key 7. -/
def ada : Issued UInt8 :=
  ⟨⟨[7], [7], 7, "7000000000000000"⟩, "u1", "ada@example.org", "j1", 5000000⟩

def adaAsks (now : Nat) : Request where
  authorization := some ("Bearer" ++ " " ++ ada.token {} clear)
  now

/-- auth-service starts, a service fetches its keys for a request, auth-service starts again. -/
def restarted : List (Lbl UInt8) :=
  [.keys .start] ++ List.replicate 7 (.keys (.next 0 7)) ++
  [.serve 0, .issue 0 "u1" "ada@example.org" "j1" 5000000, .request 0 (adaAsks 6000000) (.process 0)] ++
  [.keys (.crash 0), .keys .start] ++ List.replicate 4 (.keys (.next 1 8))

instance (s : System UInt8) (l : Lbl UInt8) : Decidable (s.Alone l) :=
  match l with
  | .keys l => inferInstanceAs (Decidable (s.keys.Alone l))
  | .issue .. => inferInstanceAs (Decidable True)
  | .serve _ => inferInstanceAs (Decidable True)
  | .request .. => inferInstanceAs (Decidable True)

def start : System UInt8 := { keys := { files := {} } }

theorem start_init : System.init byteKeys start := ⟨⟨rfl, by simp [start, Keys.System.Loadable]⟩, rfl, rfl⟩

/-- auth-service cannot be reached any more, and the token is still good. -/
theorem restarted_accepted : ∃ s v, ((System.lts byteKeys clear 300).restrict System.Alone).Reachable s ∧
    v ∈ s.services ∧
    (getCurrentUser clear 300 v (adaAsks 7000000) .unreachable).2 =
      .ok ⟨.str "u1", .str "ada@example.org", ada.claims {}⟩ ∧
    currentUserId clear byteKeys {} ada.km (adaAsks 7000000).authorization 7000000 = .ok (.str "u1") := by
  obtain ⟨s, hs, hp⟩ : ∃ s, ((System.lts byteKeys clear 300).restrict System.Alone).Reachable s ∧
      (decide (ada ∈ s.issued) && decide (s.up 1 = some ada.km) &&
        s.services.any fun v => !v.client.keys.isEmpty) = true :=
    LTS.reachable_of_execG restarted start_init (by decide +kernel)
  simp only [Bool.and_eq_true, decide_eq_true_eq, List.any_eq_true, Bool.not_eq_true',
    List.isEmpty_eq_false_iff] at hp
  obtain ⟨⟨hada, hup⟩, v, hv, hne⟩ := hp
  have hauth : (adaAsks 7000000).authorization = some ("Bearer" ++ " " ++ ada.token {} clear) := rfl
  obtain ⟨hservice, hown⟩ := issued_accepted byteKeys_works clear_works rfl hs hada (by decide) hauth
    (by decide) (by decide)
  exact ⟨s, v, hs, hv, hservice v hv (.fails .unreachable) .unreachable rfl (.inl hne), hown 1 ada.km hup⟩

def Lbl.asks : Lbl UInt8 → Bool
  | .request .. => true
  | _ => false

theorem unforged_of_not_asks {s : System UInt8} {l : Lbl UInt8} (h : l.asks = false) :
    s.Unforged byteKeys clear {} l := by
  cases l with
  | request => cases h
  | _ => trivial

theorem unforged_ada {s : System UInt8} (h : ada ∈ s.issued) (i now : Nat) (source : Source) :
    s.Unforged byteKeys clear {} (.request i (adaAsks now) source) := by
  intro token htoken x _ km _ claims hd
  have hauth : (adaAsks now).authorization.getD "" = "Bearer" ++ " " ++ ada.token {} clear := rfl
  rw [hauth, bearer_append (by decide)] at htoken
  obtain rfl := Option.some.inj htoken
  rw [Issued.token, createAccessToken] at hd
  exact ⟨ada, h, (clear_decode hd).symm⟩

/-- Service `i` accepts the request. -/
def System.accepts (s : System UInt8) (i : Nat) (r : Request) (source : Source) : Bool :=
  match s.services[i]?, s.fetched byteKeys clear source with
  | some v, some fetch => (getCurrentUser clear 300 v r fetch).2.isOk
  | _, _ => false

theorem exists_of_accepts {s : System UInt8} {i : Nat} {r : Request} {source : Source}
    (h : s.accepts i r source = true) : ∃ v fetch claims, s.services[i]? = some v ∧
      s.fetched byteKeys clear source = some fetch ∧ (getCurrentUser clear 300 v r fetch).2 = .ok claims := by
  unfold System.accepts at h
  split at h
  · rename_i v fetch hv hfetch
    cases hr : (getCurrentUser clear 300 v r fetch).2 with
    | ok claims => exact ⟨v, fetch, claims, hv, hfetch, hr⟩
    | error e =>
      rw [hr] at h
      cases h
  · cases h

/-- A service fetches its first keys and accepts the token. -/
theorem ada_accepted : ∃ s v fetch claims,
    ((System.lts byteKeys clear 300).restrict (System.Unforged byteKeys clear {})).Reachable s ∧
    s.services[0]? = some v ∧ s.fetched byteKeys clear (.process 0) = some fetch ∧
    (getCurrentUser clear 300 v (adaAsks 7000000) fetch).2 = .ok claims ∧
    ∃ t ∈ s.issued, claims = ⟨.str t.userId, .str t.email, t.claims {}⟩ ∧
      (adaAsks 7000000).now < t.expiry {} := by
  obtain ⟨s, hs, hp⟩ : ∃ s,
      ((System.lts byteKeys clear 300).restrict fun _ l => l.asks = false).Reachable s ∧
      (decide (ada ∈ s.issued) && s.accepts 0 (adaAsks 7000000) (.process 0)) = true :=
    LTS.reachable_of_execG ([.keys .start] ++ List.replicate 7 (.keys (.next 0 7)) ++
      [.serve 0, .issue 0 "u1" "ada@example.org" "j1" 5000000]) start_init (by decide +kernel)
  rw [Bool.and_eq_true, decide_eq_true_eq] at hp
  have hs' := hs.mono fun s l h => unforged_of_not_asks (s := s) h
  obtain ⟨v, fetch, claims, hv, hfetch, hok⟩ := exists_of_accepts hp.2
  obtain ⟨hissued, -⟩ := accepted_issued clear_works hs' (unforged_ada hp.1 0 7000000 (.process 0)) hv hfetch
  exact ⟨s, v, fetch, claims, hs', hv, hfetch, hok, hissued claims hok⟩

end Gestalt.Auth.Identity
