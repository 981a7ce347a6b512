import Mathlib.Algebra.Group.Nat.Defs
import Mathlib.Data.Nat.Size

/-!
# Base64url, and integers as bytes

The URL-safe alphabet without padding: three bytes are four characters, and a last
group of one or two bytes two or three. `decode` refuses a character outside the
alphabet and a lone last character.

`toBytes` and `fromBytes` are the big-endian bytes of an unsigned integer, of a given
length; `uint` and `readUint` put the two together, an integer in the shortest length
that holds it.

* `decode_encode`: the bytes come back.
* `readUint_uint`: so does the integer.
-/
namespace Gestalt.Base64

abbrev Bytes := List UInt8

/-! ## Characters -/

/-- The character of six bits. -/
def symbol (n : Nat) : Char :=
  if n < 26 then Char.ofNat (65 + n)
  else if n < 52 then Char.ofNat (71 + n)
  else if n < 62 then Char.ofNat (n - 4)
  else if n = 62 then '-' else '_'

def value (c : Char) : Option Nat :=
  if 65 ≤ c.toNat ∧ c.toNat ≤ 90 then some (c.toNat - 65)
  else if 97 ≤ c.toNat ∧ c.toNat ≤ 122 then some (c.toNat - 71)
  else if 48 ≤ c.toNat ∧ c.toNat ≤ 57 then some (c.toNat + 4)
  else if c = '-' then some 62
  else if c = '_' then some 63
  else none

theorem value_symbol : ∀ n, n < 64 → value (symbol n) = some n := by decide

/-! ## Groups of three bytes -/

def encode : Bytes → List Char
  | [] => []
  | [a] => [symbol (a.toNat / 4), symbol (a.toNat % 4 * 16)]
  | [a, b] =>
    [symbol (a.toNat / 4), symbol (a.toNat % 4 * 16 + b.toNat / 16), symbol (b.toNat % 16 * 4)]
  | a :: b :: c :: rest =>
    symbol (a.toNat / 4) :: symbol (a.toNat % 4 * 16 + b.toNat / 16) ::
      symbol (b.toNat % 16 * 4 + c.toNat / 64) :: symbol (c.toNat % 64) :: encode rest

/-- The first byte of a group, from its first two values; then the second and the third. -/
def byte₁ (x y : Nat) : UInt8 := UInt8.ofNat (x * 4 + y / 16)
def byte₂ (y z : Nat) : UInt8 := UInt8.ofNat (y % 16 * 16 + z / 4)
def byte₃ (z w : Nat) : UInt8 := UInt8.ofNat (z % 4 * 64 + w)

def decode : List Char → Option Bytes
  | [] => some []
  | [_] => none
  | [p, q] => do
    let x ← value p
    let y ← value q
    some [byte₁ x y]
  | [p, q, r] => do
    let x ← value p
    let y ← value q
    let z ← value r
    some [byte₁ x y, byte₂ y z]
  | p :: q :: r :: s :: rest => do
    let x ← value p
    let y ← value q
    let z ← value r
    let w ← value s
    let bytes ← decode rest
    some (byte₁ x y :: byte₂ y z :: byte₃ z w :: bytes)

variable (a b c : UInt8)

theorem ofNat_eq {n : Nat} (h : n = a.toNat) : UInt8.ofNat n = a := by
  rw [h]
  exact UInt8.ofNat_toNat

theorem byte₁_eq {v : Nat} (h : v < 16) : byte₁ (a.toNat / 4) (a.toNat % 4 * 16 + v) = a :=
  ofNat_eq a (by omega)

theorem byte₂_eq {u v : Nat} (h : v < 4) : byte₂ (u * 16 + b.toNat / 16) (b.toNat % 16 * 4 + v) = b := by
  have := b.toNat_lt
  exact ofNat_eq b (by omega)

theorem byte₃_eq {u : Nat} : byte₃ (u * 4 + c.toNat / 64) (c.toNat % 64) = c := by
  have := c.toNat_lt
  exact ofNat_eq c (by omega)

theorem value_first : value (symbol (a.toNat / 4)) = some (a.toNat / 4) := by
  have := a.toNat_lt
  exact value_symbol _ (by omega)

theorem value_second {v : Nat} (h : v < 16) :
    value (symbol (a.toNat % 4 * 16 + v)) = some (a.toNat % 4 * 16 + v) :=
  value_symbol _ (by omega)

theorem value_third {v : Nat} (h : v < 4) :
    value (symbol (b.toNat % 16 * 4 + v)) = some (b.toNat % 16 * 4 + v) :=
  value_symbol _ (by omega)

theorem value_fourth : value (symbol (c.toNat % 64)) = some (c.toNat % 64) :=
  value_symbol _ (Nat.mod_lt _ (by decide))

theorem high_lt : b.toNat / 16 < 16 := by
  have := b.toNat_lt
  omega

theorem top_lt : c.toNat / 64 < 4 := by
  have := c.toNat_lt
  omega

theorem decode_one : decode (encode [a]) = some [a] := by
  have hq := value_second a (v := 0) (by decide)
  have hx := byte₁_eq a (v := 0) (by decide)
  rw [Nat.add_zero] at hq hx
  simp [encode, decode, value_first, hq, hx]

theorem decode_two : decode (encode [a, b]) = some [a, b] := by
  have hr := value_third b (v := 0) (by decide)
  have hy := byte₂_eq b (u := a.toNat % 4) (v := 0) (by decide)
  rw [Nat.add_zero] at hr hy
  simp [encode, decode, value_first, value_second a (high_lt b), hr, hy, byte₁_eq a (high_lt b)]

theorem decode_three {rest : Bytes} (h : decode (encode rest) = some rest) :
    decode (encode (a :: b :: c :: rest)) = some (a :: b :: c :: rest) := by
  simp [encode, decode, value_first, value_second a (high_lt b), value_third b (top_lt c), value_fourth,
    byte₁_eq a (high_lt b), byte₂_eq b (top_lt c), byte₃_eq, h]

theorem decode_encode (bytes : Bytes) : decode (encode bytes) = some bytes := by
  induction bytes using encode.induct with
  | case1 => rfl
  | case2 a => exact decode_one a
  | case3 a b => exact decode_two a b
  | case4 a b c rest ih => exact decode_three a b c ih

/-! ## Integers -/

/-- `n.to_bytes(length, "big")`; the length holds `n`. -/
def toBytes (n : Nat) : Nat → Bytes
  | 0 => []
  | length + 1 => toBytes (n / 256) length ++ [UInt8.ofNat (n % 256)]

/-- `int.from_bytes(bytes, "big")` -/
def fromBytes (bytes : Bytes) : Nat := bytes.foldl (fun n b => n * 256 + b.toNat) 0

theorem fromBytes_toBytes {n length : Nat} (h : n < 256 ^ length) : fromBytes (toBytes n length) = n := by
  induction length generalizing n with
  | zero =>
    have h0 : n = 0 := by simpa using h
    rw [h0]
    rfl
  | succ length ih =>
    have hdiv : n / 256 < 256 ^ length := Nat.div_lt_of_lt_mul (by rwa [Nat.mul_comm, ← Nat.pow_succ])
    have hlast : (UInt8.ofNat (n % 256)).toNat = n % 256 := by simp
    have hstep : fromBytes (toBytes n (length + 1)) = n / 256 * 256 + n % 256 := by
      have := ih hdiv
      simp only [fromBytes, toBytes, List.foldl_append, List.foldl_cons, List.foldl_nil] at this ⊢
      rw [this, hlast]
    rw [hstep]
    exact Nat.div_add_mod' n 256

/-- `(n.bit_length() + 7) // 8` -/
def byteLength (n : Nat) : Nat := (n.size + 7) / 8

theorem lt_byteLength (n : Nat) : n < 256 ^ byteLength n := by
  have hbits : n.size ≤ 8 * byteLength n := by
    unfold byteLength
    omega
  calc n < 2 ^ n.size := Nat.lt_size_self n
    _ ≤ 2 ^ (8 * byteLength n) := Nat.pow_le_pow_right (by decide) hbits
    _ = 256 ^ byteLength n := by rw [Nat.pow_mul]

/-- The shortest bytes of an integer, as text. -/
def uint (n : Nat) : List Char := encode (toBytes n (byteLength n))

def readUint (s : List Char) : Option Nat := (decode s).map fromBytes

theorem readUint_uint (n : Nat) : readUint (uint n) = some n := by
  rw [readUint, uint, decode_encode, Option.map_some, fromBytes_toBytes (lt_byteLength n)]

end Gestalt.Base64
