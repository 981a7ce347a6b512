import Gestalt.L1Shared.Http
import Gestalt.L1Shared.Jwks
import Gestalt.L3Auth.KeyMaterial
import Gestalt.L3Auth.Tokens

/-!
# Access tokens

What auth-service signs (`createAccessToken`), and the two places that check it: the
dependency of every protected service, which looks the key up by the token's kid
(`decodeToken`), and auth-service's own, which has it (`currentUserId`).

PyJWT is a parameter (`PyJwt`). Times are in microseconds; `exp` and `iat` are whole
seconds. `unhandled_exception_handler` answers what is no `PyJWTError`.
-/
namespace Gestalt.Auth

open Base64 (Bytes)

/-- mirrors services/auth-service/app/config.py:14-16 -/
structure TokenSettings extends Settings where
  jwtIssuer : String := "gestalt-commerce-auth"

/-- mirrors shared/gestalt_shared/security.py:23 -/
def issuer : String := "gestalt-commerce-auth"

abbrev Claims := List (String × Json)

/-- PyJWT, as far as the services use it. An error is the text of the `PyJWTError`. -/
structure PyJwt where
  /-- `jwt.encode(claims, private_pem, algorithm="RS256", headers={"kid": kid})` -/
  encode : Claims → Bytes → String → String
  getUnverifiedHeader : String → Except String (List (String × Json))
  /-- `jwt.decode(token, key=key, algorithms=["RS256"], issuer=issuer)`, at a time -/
  decode : String → PublicNumbers → String → Nat → Except String Claims
  /-- `RSAAlgorithm.from_jwk`; `none`: it raises -/
  fromJwk : Json → Option PublicNumbers
  /-- what a fetch raises, if that is a `PyJWTError` -/
  fetchError : Jwks.Fetch → Option String

/-- What `jwt.decode` asks of the claims. -/
structure Current (issuer : String) (now : Nat) (claims : Claims) : Prop where
  iss : Json.lookup claims "iss" = some (.str issuer)
  iat : ∃ iat : Nat, Json.lookup claims "iat" = some (.num iat) ∧ iat * microseconds ≤ now
  exp : ∃ exp : Nat, Json.lookup claims "exp" = some (.num exp) ∧ now < exp * microseconds
  aud : Json.lookup claims "aud" = none
  nbf : Json.lookup claims "nbf" = none

/-- An RSA public key as a JWK, for a key pair. -/
structure IsJwk {Priv : Type} (c : Crypto Priv) (key : Priv) (jwk : List (String × Json)) : Prop where
  kty : Json.lookup jwk "kty" = some (.str "RSA")
  n : ∃ n, Json.lookup jwk "n" = some (.str n) ∧ Base64.readUint n.toList = some (c.publicNumbers key).n
  e : ∃ e, Json.lookup jwk "e" = some (.str e) ∧ Base64.readUint e.toList = some (c.publicNumbers key).e
  d : Json.lookup jwk "d" = none

/-- What is relied on. -/
structure PyJwt.Works {Priv : Type} (c : Crypto Priv) (j : PyJwt) : Prop where
  header : ∀ claims pem key kid, c.loadPemPrivateKey pem = some key →
    ∃ header, j.getUnverifiedHeader (j.encode claims pem kid) = .ok header ∧
      Json.lookup header "kid" = some (.str kid)
  decode_encode : ∀ claims pem key kid issuer now, c.loadPemPrivateKey pem = some key →
    Current issuer now claims →
    j.decode (j.encode claims pem kid) (c.publicNumbers key) issuer now = .ok claims
  decode_exp : ∀ token key issuer now claims, j.decode token key issuer now = .ok claims →
    ∀ exp : Nat, Json.lookup claims "exp" = some (.num exp) → now < exp * microseconds
  from_jwk : ∀ key jwk, IsJwk c key jwk → j.fromJwk (.obj jwk) = some (c.publicNumbers key)

/-! ## Issuing -/

section
variable {Priv : Type} (c : Crypto Priv) (j : PyJwt) (cfg : TokenSettings)

/-- mirrors services/auth-service/app/security.py:22-30 -/
def accessClaims (userId email jti : String) (now : Nat) : Claims :=
  [("sub", .str userId), ("email", .str email), ("iss", .str cfg.jwtIssuer),
    ("iat", .num (now / microseconds : Nat)),
    ("exp", .num (now / microseconds + cfg.jwtAccessTokenTtlSeconds : Nat)), ("jti", .str jti)]

/-- mirrors services/auth-service/app/security.py:21-32 -/
def createAccessToken (km : KeyMaterial Priv) (userId email jti : String) (now : Nat) : String :=
  j.encode (accessClaims cfg userId email jti now) km.privatePem km.kid

end

/-! ## Checking -/

/-- mirrors shared/gestalt_shared/security.py:88, services/auth-service/app/routers/auth.py:46 -/
def missingToken : AppError := ⟨"UNAUTHENTICATED", "Missing bearer token", 401⟩

/-- mirrors shared/gestalt_shared/security.py:76 -/
def unknownKey : AppError := ⟨"INVALID_TOKEN", "Unknown signing key", 401⟩

/-- mirrors shared/gestalt_shared/security.py:80, services/auth-service/app/routers/auth.py:53 -/
def verificationFailed (exc : String) : AppError :=
  ⟨"INVALID_TOKEN", "Token verification failed: " ++ exc, 401⟩

/-- What follows the first blank, if the header's first word is `bearer`.
mirrors shared/gestalt_shared/security.py:87-89, services/auth-service/app/routers/auth.py:45-47 -/
def bearer (authorization : String) : Option String :=
  if "bearer ".toList.isPrefixOf (authorization.toList.map Char.toLower) then
    some (String.ofList ((authorization.toList.dropWhile fun ch => ch ≠ ' ').drop 1))
  else none

/-- mirrors shared/gestalt_shared/security.py:27-31 -/
structure TokenClaims where
  userId : Json
  email : Json
  raw : Claims

/-- Without a `sub` there is a `KeyError`.
mirrors shared/gestalt_shared/security.py:77-80 -/
def readClaims : Except String Claims → Except AppError TokenClaims
  | .error exc => .error (verificationFailed exc)
  | .ok claims =>
    match Json.lookup claims "sub" with
    | some sub => .ok ⟨sub, (Json.lookup claims "email").getD (.str ""), claims⟩
    | none => .error internalError

/-- `kid`, if it is true; PyJWT has refused one that is no string.
mirrors shared/gestalt_shared/security.py:73-74 -/
def kidOf (header : List (String × Json)) : Option String :=
  match Json.lookup header "kid" with
  | some (.str kid) => if kid = "" then none else some kid
  | _ => none

/-- A request to a protected service; the last three as in `Jwks.Call`. -/
structure Request where
  authorization : Option String
  /-- the wall clock -/
  now : Nat
  wait : Nat := 0
  toServer : Nat := 0
  toEnd : Nat := 0

def Request.call (r : Request) (fetch : Jwks.Fetch) (kid : String) : Jwks.Call :=
  { kid, wait := r.wait, fetch, toServer := r.toServer, toEnd := r.toEnd }

section
variable (j : PyJwt) (ttlSeconds : Nat)

/-- The service, with its cache as `get_key` leaves it, and the answer.
mirrors shared/gestalt_shared/security.py:70-80 -/
def decodeToken (v : Jwks.Service PublicNumbers) (r : Request) (fetch : Jwks.Fetch) (token : String) :
    Jwks.Service PublicNumbers × Except AppError TokenClaims :=
  match j.getUnverifiedHeader token with
  | .error exc => (v, .error (verificationFailed exc))
  | .ok header =>
    match kidOf header with
    | none => (v, .error unknownKey)
    | some kid =>
      let call := r.call fetch kid
      ({ client := (v.getKey j.fromJwk ttlSeconds call).1, clock := v.finish ttlSeconds call },
        match v.answer j.fromJwk ttlSeconds call with
        | .raised => .error (match j.fetchError fetch with
          | some exc => verificationFailed exc
          | none => internalError)
        | .key none => .error unknownKey
        | .key (some key) => readClaims (j.decode token key issuer r.now))

/-- mirrors shared/gestalt_shared/security.py:86-90 -/
def getCurrentUser (v : Jwks.Service PublicNumbers) (r : Request) (fetch : Jwks.Fetch) :
    Jwks.Service PublicNumbers × Except AppError TokenClaims :=
  match bearer (r.authorization.getD "") with
  | none => (v, .error missingToken)
  | some token => decodeToken j ttlSeconds v r fetch token

/-- auth-service's own check.
mirrors services/auth-service/app/routers/auth.py:44-54 -/
def currentUserId {Priv : Type} (c : Crypto Priv) (cfg : TokenSettings) (km : KeyMaterial Priv)
    (authorization : Option String) (now : Nat) : Except AppError Json :=
  match bearer (authorization.getD "") with
  | none => .error missingToken
  | some token => (readClaims (j.decode token (km.publicNumbers c) cfg.jwtIssuer now)).map TokenClaims.userId

end

/-! ## A token as it is presented -/

theorem bearer_append {scheme : String} (h : scheme.toList.map Char.toLower = "bearer".toList)
    (token : String) : bearer (scheme ++ " " ++ token) = some token := by
  have hlist : (scheme ++ " " ++ token).toList = scheme.toList ++ ' ' :: token.toList := by
    simp [String.toList_append]
  have hpre : "bearer ".toList.isPrefixOf ((scheme ++ " " ++ token).toList.map Char.toLower) = true := by
    rw [hlist, List.map_append, h]
    simp [List.isPrefixOf]
  -- no character of the scheme is the blank
  have hscheme : ∀ ch ∈ scheme.toList, (decide (ch ≠ ' ')) = true := by
    intro ch hch
    have hmem : ch.toLower ∈ "bearer".toList := h ▸ List.mem_map_of_mem hch
    simp only [ne_eq, decide_eq_true_eq]
    rintro rfl
    revert hmem
    decide
  unfold bearer
  rw [if_pos hpre, hlist, List.dropWhile_append_of_pos hscheme]
  simp

theorem accessClaims_current {cfg : TokenSettings} {userId email jti : String} {issued now : Nat}
    (h : issued ≤ now)
    (hexp : now < (issued / microseconds + cfg.jwtAccessTokenTtlSeconds) * microseconds) :
    Current cfg.jwtIssuer now (accessClaims cfg userId email jti issued) where
  iss := rfl
  iat := ⟨issued / microseconds, rfl, Nat.le_trans (Nat.div_mul_le_self _ _) h⟩
  exp := ⟨_, rfl, hexp⟩
  aud := rfl
  nbf := rfl

section
variable {Priv : Type} {c : Crypto Priv} {j : PyJwt} {km : KeyMaterial Priv}

/-- What auth-service publishes is read back as its key, under its kid. -/
theorem jwks_keys (hj : j.Works c) :
    (Jwks.Fetch.response 200 (some (km.jwks c))).keys j.fromJwk =
      some [(.str km.kid, c.publicNumbers km.privateKey)] := by
  have huint : ∀ n, Base64.readUint (KeyMaterial.b64url (KeyMaterial.toBytes n)).toList = some n := by
    intro n
    rw [KeyMaterial.b64url, String.toList_ofList]
    exact Base64.readUint_uint n
  have hjwk := hj.from_jwk km.privateKey
    [("kty", .str "RSA"), ("use", .str "sig"), ("alg", .str "RS256"), ("kid", .str km.kid),
      ("n", .str (KeyMaterial.b64url (KeyMaterial.toBytes (km.publicNumbers c).n))),
      ("e", .str (KeyMaterial.b64url (KeyMaterial.toBytes (km.publicNumbers c).e)))]
    ⟨rfl, ⟨_, rfl, huint _⟩, ⟨_, rfl, huint _⟩, rfl⟩
  simp only [Jwks.Fetch.keys, KeyMaterial.jwks, Json.lookup, List.reverse_cons, List.reverse_nil,
    List.nil_append, List.find?_cons, decide_true, Option.map_some, Option.getD_some, Json.iter,
    Option.bind_some, List.mapM_cons, List.mapM_nil]
  have hentry := hjwk
  simp [Jwks.keyEntry, Json.lookup, hentry, Jwks.hashable]

end
end Gestalt.Auth
