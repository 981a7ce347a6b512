import Mathlib.Data.List.Basic

/-!
# JSON

`dumps` and `loads` of Python's `json` module with their default arguments:
`dumps` escapes everything that is not printable ASCII, a character beyond the
basic plane as a surrogate pair, and separates by `, ` and `: `; `loads` reads
what RFC 8259 allows, with whitespace anywhere between tokens.

Left out of `loads`: fractions, exponents, `NaN` and the infinities, which it
refuses, and the escape of a lone surrogate, which no `Char` stands for. A name
may come twice in an object; the last one counts (`lookup`).

`loads_dumps`: what `dumps` writes, `loads` reads back.
-/
namespace Gestalt

abbrev Text := List Char

inductive Json
  | null
  | bool (b : Bool)
  | num (n : Int)
  | str (s : String)
  | arr (xs : List Json)
  | obj (ms : List (String × Json))
  deriving Repr

namespace Json

/-- Induction with the elements and the members at hand. -/
@[elab_as_elim]
theorem ind {P : Json → Prop} (null : P .null) (bool : ∀ b, P (.bool b)) (num : ∀ n, P (.num n))
    (str : ∀ s, P (.str s)) (arr : ∀ xs, (∀ x ∈ xs, P x) → P (.arr xs))
    (obj : ∀ ms, (∀ m ∈ ms, P m.2) → P (.obj ms)) (j : Json) : P j := by
  refine Json.rec (motive_1 := P) (motive_2 := fun xs => ∀ x ∈ xs, P x)
    (motive_3 := fun ms => ∀ m ∈ ms, P m.2) (motive_4 := fun m => P m.2)
    null bool num str (fun xs h => arr xs h) (fun ms h => obj ms h) ?_ ?_ ?_ ?_ ?_ j
  · simp
  · intro x xs hx hxs
    exact List.forall_mem_cons.mpr ⟨hx, hxs⟩
  · simp
  · intro m ms hm hms
    exact List.forall_mem_cons.mpr ⟨hm, hms⟩
  · intro _ j h
    exact h

/-- The last member of that name. -/
def lookup (ms : List (String × Json)) (k : String) : Option Json :=
  (ms.reverse.find? fun m => m.1 = k).map Prod.snd

/-- `d.get(k)` -/
def get (ms : List (String × Json)) (k : String) : Json := (lookup ms k).getD .null

/-- `x == t` for a string `t` -/
def isStr : Json → String → Bool
  | .str s, t => s = t
  | _, _ => false

/-- `f"{x}"`; `repr` is Python's text of a list or a dict. -/
def text (repr : Json → String) : Json → String
  | .null => "None"
  | .bool true => "True"
  | .bool false => "False"
  | .num n => toString n
  | .str s => s
  | x => repr x

/-- What a `for` loop over it goes through; `none`: it raises. -/
def iter : Json → Option (List Json)
  | .arr xs => some xs
  | .str s => some (s.toList.map fun c => .str (String.singleton c))
  | .obj ms => some ((ms.map Prod.fst).eraseDups.map .str)
  | _ => none

/-! ## Writing -/

def hex4 (n : Nat) : Text :=
  [(n / 4096 % 16).digitChar, (n / 256 % 16).digitChar, (n / 16 % 16).digitChar, (n % 16).digitChar]

/-- `\\uXXXX` -/
def codeUnit (n : Nat) : Text := '\\' :: 'u' :: hex4 n

/-- One character inside a string. -/
def escape (c : Char) : Text :=
  if c = '"' then ['\\', '"']
  else if c = '\\' then ['\\', '\\']
  else if c = '\x08' then ['\\', 'b']
  else if c = '\x0c' then ['\\', 'f']
  else if c = '\n' then ['\\', 'n']
  else if c = '\r' then ['\\', 'r']
  else if c = '\t' then ['\\', 't']
  else if 0x20 ≤ c.toNat ∧ c.toNat ≤ 0x7e then [c]
  else if c.toNat < 0x10000 then codeUnit c.toNat
  else codeUnit (0xd800 + (c.toNat - 0x10000) / 0x400) ++ codeUnit (0xdc00 + (c.toNat - 0x10000) % 0x400)

def quote (s : String) : Text := '"' :: (s.toList.flatMap escape ++ ['"'])

mutual

def dumps : Json → Text
  | .null => ['n', 'u', 'l', 'l']
  | .bool true => ['t', 'r', 'u', 'e']
  | .bool false => ['f', 'a', 'l', 's', 'e']
  | .num n => (toString n).toList
  | .str s => quote s
  | .arr [] => ['[', ']']
  | .arr (x :: xs) => '[' :: (x.dumps ++ dumpsElements xs)
  | .obj [] => ['{', '}']
  | .obj ((k, x) :: ms) => '{' :: (quote k ++ ':' :: ' ' :: (x.dumps ++ dumpsMembers ms))

/-- The elements after the first, and the bracket. -/
def dumpsElements : List Json → Text
  | [] => [']']
  | x :: xs => ',' :: ' ' :: (x.dumps ++ dumpsElements xs)

def dumpsMembers : List (String × Json) → Text
  | [] => ['}']
  | (k, x) :: ms => ',' :: ' ' :: (quote k ++ ':' :: ' ' :: (x.dumps ++ dumpsMembers ms))

end

/-! ## Reading -/

def isSpace (c : Char) : Bool := c = ' ' || c = '\t' || c = '\n' || c = '\r'

def skip (s : Text) : Text := s.dropWhile isSpace

def hexVal (c : Char) : Option Nat :=
  if c.isDigit then some (c.toNat - 48)
  else if 97 ≤ c.toNat ∧ c.toNat ≤ 102 then some (c.toNat - 87)
  else if 65 ≤ c.toNat ∧ c.toNat ≤ 70 then some (c.toNat - 55)
  else none

def readHex4 : Text → Option (Nat × Text)
  | a :: b :: c :: d :: s =>
    match hexVal a, hexVal b, hexVal c, hexVal d with
    | some a, some b, some c, some d => some (4096 * a + 256 * b + 16 * c + d, s)
    | _, _, _, _ => none
  | _ => none

/-- The second half of a surrogate pair. -/
def readLow : Text → Option (Nat × Text)
  | '\\' :: 'u' :: s =>
    match readHex4 s with
    | some (low, s) => if 0xdc00 ≤ low ∧ low < 0xe000 then some (low - 0xdc00, s) else none
    | none => none
  | _ => none

/-- After `\\u`. -/
def unescapeUnit (s : Text) : Option (Char × Text) :=
  match readHex4 s with
  | none => none
  | some (n, s) =>
    if n < 0xd800 ∨ 0xe000 ≤ n then some (Char.ofNat n, s)
    else if n < 0xdc00 then
      (readLow s).map fun r => (Char.ofNat (0x10000 + (n - 0xd800) * 0x400 + r.1), r.2)
    else none

/-- After a backslash. -/
def unescape : Text → Option (Char × Text)
  | '"' :: s => some ('"', s)
  | '\\' :: s => some ('\\', s)
  | '/' :: s => some ('/', s)
  | 'b' :: s => some ('\x08', s)
  | 'f' :: s => some ('\x0c', s)
  | 'n' :: s => some ('\n', s)
  | 'r' :: s => some ('\r', s)
  | 't' :: s => some ('\t', s)
  | 'u' :: s => unescapeUnit s
  | _ => none

/-- A string after its first quote; the first argument bounds the characters. -/
def readString : Nat → Text → Option (Text × Text)
  | 0, _ => none
  | _ + 1, [] => none
  | n + 1, c :: s =>
    if c = '"' then some ([], s)
    else if c = '\\' then
      match unescape s with
      | some (c, s) => (readString n s).map fun r => (c :: r.1, r.2)
      | none => none
    else if c.toNat < 0x20 then none
    else (readString n s).map fun r => (c :: r.1, r.2)

def readNat : Text → Option (Nat × Text)
  | [] => none
  | c :: s =>
    if c = '0' then some (0, s)
    else if c.isDigit then
      some (Nat.ofDigitChars 10 (c :: s.takeWhile Char.isDigit) 0, s.dropWhile Char.isDigit)
    else none

def readInt : Text → Option (Int × Text)
  | '-' :: s => (readNat s).map fun r => (-(r.1 : Int), r.2)
  | s => (readNat s).map fun r => ((r.1 : Int), r.2)

/-- `rest` after the word. -/
def readWord (word : Text) (s : Text) : Option Text :=
  if word.isPrefixOf s then some (s.drop word.length) else none

mutual

/-- A value; the first argument bounds the nesting of calls. -/
def readValue : Nat → Text → Option (Json × Text)
  | 0, _ => none
  | _ + 1, [] => none
  | n + 1, c :: s =>
    if c = '"' then (readString (s.length + 1) s).map fun r => (.str (String.ofList r.1), r.2)
    else if c = '[' then
      match skip s with
      | ']' :: s => some (.arr [], s)
      | s => (readElements n s).map fun r => (.arr r.1, r.2)
    else if c = '{' then
      match skip s with
      | '}' :: s => some (.obj [], s)
      | s => (readMembers n s).map fun r => (.obj r.1, r.2)
    else if c = 'n' then (readWord ['u', 'l', 'l'] s).map fun s => (.null, s)
    else if c = 't' then (readWord ['r', 'u', 'e'] s).map fun s => (.bool true, s)
    else if c = 'f' then (readWord ['a', 'l', 's', 'e'] s).map fun s => (.bool false, s)
    else (readInt (c :: s)).map fun r => (.num r.1, r.2)

/-- The elements of an array up to its bracket. -/
def readElements : Nat → Text → Option (List Json × Text)
  | 0, _ => none
  | n + 1, s =>
    match readValue n s with
    | none => none
    | some (x, s) =>
      match skip s with
      | ']' :: s => some ([x], s)
      | ',' :: s => (readElements n (skip s)).map fun r => (x :: r.1, r.2)
      | _ => none

/-- The members of an object up to its brace. -/
def readMembers : Nat → Text → Option (List (String × Json) × Text)
  | 0, _ => none
  | _ + 1, [] => none
  | n + 1, c :: s =>
    if c = '"' then
      match readString (s.length + 1) s with
      | none => none
      | some (k, s) =>
        match skip s with
        | ':' :: s =>
          match readValue n (skip s) with
          | none => none
          | some (x, s) =>
            match skip s with
            | '}' :: s => some ([(String.ofList k, x)], s)
            | ',' :: s => (readMembers n (skip s)).map fun r => ((String.ofList k, x) :: r.1, r.2)
            | _ => none
        | _ => none
    else none

end

/-- `none`: `JSONDecodeError`. -/
def loads (s : Text) : Option Json :=
  match readValue (2 * s.length) (skip s) with
  | some (x, rest) => if skip rest = [] then some x else none
  | none => none

/-! ## Strings round trip -/

theorem hexVal_digitChar : ∀ d, d < 16 → hexVal d.digitChar = some d := by decide

theorem readHex4_hex4 {n : Nat} (h : n < 0x10000) (s : Text) : readHex4 (hex4 n ++ s) = some (n, s) := by
  have hd : ∀ m, hexVal (m % 16).digitChar = some (m % 16) :=
    fun m => hexVal_digitChar _ (Nat.mod_lt m (by decide))
  simp only [hex4, List.cons_append, List.nil_append, readHex4, hd, Option.some.injEq, Prod.mk.injEq,
    and_true]
  omega

/-- A `Char` is not a surrogate. -/
theorem char_scalar (c : Char) : c.toNat < 0xd800 ∨ (0xe000 ≤ c.toNat ∧ c.toNat < 0x110000) := by
  rcases c.valid with h | ⟨h1, h2⟩
  · exact .inl h
  · exact .inr ⟨h1, h2⟩

theorem unescape_codeUnit {c : Char} (h : c.toNat < 0x10000) (s : Text) :
    unescapeUnit (hex4 c.toNat ++ s) = some (c, s) := by
  have hsc : c.toNat < 0xd800 ∨ 0xe000 ≤ c.toNat := (char_scalar c).imp id And.left
  simp only [unescapeUnit, readHex4_hex4 h, if_pos hsc, Char.ofNat_toNat]

theorem readLow_codeUnit {n : Nat} (h : 0xdc00 ≤ n ∧ n < 0xe000) (s : Text) :
    readLow (codeUnit n ++ s) = some (n - 0xdc00, s) := by
  have h4 : n < 0x10000 := by omega
  simp only [codeUnit, List.cons_append, readLow, readHex4_hex4 h4, if_pos h]

theorem unescape_halves {high low : Nat} (hh : 0xd800 ≤ high ∧ high < 0xdc00)
    (hl : 0xdc00 ≤ low ∧ low < 0xe000) (s : Text) :
    unescapeUnit (hex4 high ++ (codeUnit low ++ s)) =
      some (Char.ofNat (0x10000 + (high - 0xd800) * 0x400 + (low - 0xdc00)), s) := by
  have h4 : high < 0x10000 := by omega
  have hsur : ¬ (high < 0xd800 ∨ 0xe000 ≤ high) := by omega
  simp only [unescapeUnit, readHex4_hex4 h4, if_neg hsur, if_pos hh.2, readLow_codeUnit hl, Option.map_some]

/-- The two halves of a character beyond the basic plane. -/
theorem halves {n : Nat} (h : ¬ n < 0x10000) (hlt : n < 0x110000) :
    (0xd800 ≤ 0xd800 + (n - 0x10000) / 0x400 ∧ 0xd800 + (n - 0x10000) / 0x400 < 0xdc00) ∧
    (0xdc00 ≤ 0xdc00 + (n - 0x10000) % 0x400 ∧ 0xdc00 + (n - 0x10000) % 0x400 < 0xe000) ∧
      0x10000 + (0xd800 + (n - 0x10000) / 0x400 - 0xd800) * 0x400 +
        (0xdc00 + (n - 0x10000) % 0x400 - 0xdc00) = n := by
  omega

theorem unescape_pair {c : Char} (h : ¬ c.toNat < 0x10000) (s : Text) :
    unescapeUnit (hex4 (0xd800 + (c.toNat - 0x10000) / 0x400) ++
      (codeUnit (0xdc00 + (c.toNat - 0x10000) % 0x400) ++ s)) = some (c, s) := by
  have hlt : c.toNat < 0x110000 := by
    rcases char_scalar c with hs | ⟨-, hs⟩ <;> omega
  obtain ⟨hh, hl, hback⟩ := halves h hlt
  rw [unescape_halves hh hl, hback, Char.ofNat_toNat]

theorem readString_backslash {n : Nat} {c : Char} {s r : Text} (h : unescape s = some (c, r)) :
    readString (n + 1) ('\\' :: s) = (readString n r).map fun r => (c :: r.1, r.2) := by
  simp [readString, h]

theorem readString_codeUnit {n m : Nat} {c : Char} {s r : Text}
    (h : unescapeUnit (hex4 m ++ s) = some (c, r)) :
    readString (n + 1) (codeUnit m ++ s) = (readString n r).map fun r => (c :: r.1, r.2) :=
  readString_backslash h

/-- A character read from what `escape` wrote. -/
theorem readString_escape (n : Nat) (c : Char) (s : Text) :
    readString (n + 1) (escape c ++ s) = (readString n s).map fun r => (c :: r.1, r.2) := by
  unfold escape
  split
  · rename_i hc; subst hc; exact readString_backslash rfl
  split
  · rename_i hc; subst hc; exact readString_backslash rfl
  split
  · rename_i hc; subst hc; exact readString_backslash rfl
  split
  · rename_i hc; subst hc; exact readString_backslash rfl
  split
  · rename_i hc; subst hc; exact readString_backslash rfl
  split
  · rename_i hc; subst hc; exact readString_backslash rfl
  split
  · rename_i hc; subst hc; exact readString_backslash rfl
  rename_i hq hb _ _ _ _ _
  split
  · rename_i hp
    simp [readString, hq, hb, Nat.not_lt.mpr hp.1]
  split
  · rename_i hlt
    exact readString_codeUnit (unescape_codeUnit hlt s)
  · rename_i hge
    rw [List.append_assoc, readString_codeUnit (unescape_pair hge s)]

theorem readString_flatMap (cs s : Text) {n : Nat} (h : cs.length < n) :
    readString n (cs.flatMap escape ++ '"' :: s) = some (cs, s) := by
  induction cs generalizing n with
  | nil =>
    obtain ⟨k, rfl⟩ : ∃ k, n = k + 1 := ⟨n - 1, (Nat.sub_add_cancel h).symm⟩
    simp [readString]
  | cons c cs ih =>
    obtain ⟨k, rfl⟩ : ∃ k, n = k + 1 := ⟨n - 1, (Nat.sub_add_cancel (Nat.lt_of_le_of_lt (Nat.zero_le _) h)).symm⟩
    rw [List.flatMap_cons, List.append_assoc, readString_escape, ih (Nat.lt_of_succ_lt_succ h)]
    rfl

theorem escape_pos (c : Char) : 1 ≤ (escape c).length := by
  unfold escape
  repeat' split
  all_goals simp [codeUnit]

theorem length_le_flatMap (cs : Text) : cs.length ≤ (cs.flatMap escape).length := by
  induction cs with
  | nil => exact Nat.le_refl 0
  | cons c cs ih =>
    have := escape_pos c
    simp only [List.flatMap_cons, List.length_cons, List.length_append]
    omega

/-- The string after its first quote, with as many calls as there are characters. -/
theorem readString_quote (k : String) (s : Text) :
    readString ((k.toList.flatMap escape ++ '"' :: s).length + 1) (k.toList.flatMap escape ++ '"' :: s) =
      some (k.toList, s) := by
  refine readString_flatMap k.toList s ?_
  have := length_le_flatMap k.toList
  simp only [List.length_append, List.length_cons]
  omega

/-! ## Numbers round trip -/

/-- The text does not go on with a digit. -/
def NoDigit (s : Text) : Prop := ∀ c ∈ s.head?, c.isDigit = false

theorem noDigit_cons {c : Char} (h : c.isDigit = false) (s : Text) : NoDigit (c :: s) := by
  intro d hd
  cases hd
  exact h

theorem noDigit_nil : NoDigit [] := by
  intro d hd
  cases hd

theorem takeWhile_digits {ds s : Text} (hd : ∀ c ∈ ds, c.isDigit = true) (hs : NoDigit s) :
    (ds ++ s).takeWhile Char.isDigit = ds ∧ (ds ++ s).dropWhile Char.isDigit = s := by
  rw [List.takeWhile_append_of_pos hd, List.dropWhile_append_of_pos hd]
  cases s with
  | nil => simp
  | cons c s =>
    have hc : c.isDigit = false := hs c rfl
    simp [hc]

/-- A number other than zero does not begin with a zero. -/
theorem toDigits_head {n : Nat} (h : 0 < n) : ∃ c ds, Nat.toDigits 10 n = c :: ds ∧ c ≠ '0' := by
  induction n using Nat.strongRecOn with
  | ind n ih =>
    rcases Nat.lt_or_ge n 10 with hlt | hge
    · refine ⟨n.digitChar, [], Nat.toDigits_of_lt_base hlt, ?_⟩
      have hall : ∀ d, d < 10 → 0 < d → d.digitChar ≠ '0' := by decide
      exact hall n hlt h
    · obtain ⟨c, ds, hc, hne⟩ := ih (n / 10) (by omega) (by omega)
      refine ⟨c, ds ++ [(n % 10).digitChar], ?_, hne⟩
      rw [Nat.toDigits_of_base_le (by decide) hge, hc]
      rfl

theorem readNat_toDigits (n : Nat) {s : Text} (hs : NoDigit s) :
    readNat (Nat.toDigits 10 n ++ s) = some (n, s) := by
  have hdig : ∀ c ∈ Nat.toDigits 10 n, c.isDigit = true := fun c hc =>
    Nat.isDigit_of_mem_toDigits (by decide) (by decide) hc
  rcases Nat.eq_zero_or_pos n with rfl | hpos
  · simp [readNat]
  · obtain ⟨c, ds, hc, hne⟩ := toDigits_head hpos
    have hback : Nat.ofDigitChars 10 (Nat.toDigits 10 n) 0 = n := Nat.ofDigitChars_ten_toDigits
    rw [hc] at hdig hback
    have hcd : c.isDigit = true := hdig c List.mem_cons_self
    obtain ⟨htake, hdrop⟩ := takeWhile_digits (fun d hd => hdig d (List.mem_cons_of_mem c hd)) hs
    rw [hc, List.cons_append]
    simp only [readNat, if_neg hne, hcd, if_true, htake, hdrop, hback]

theorem readInt_digit {c : Char} (h : c.isDigit = true) (s : Text) :
    readInt (c :: s) = (readNat (c :: s)).map fun r => ((r.1 : Int), r.2) := by
  unfold readInt
  split
  · rename_i hc
    cases hc
    cases h
  · rfl

theorem toList_toString (n : Int) : (toString n).toList =
    if 0 ≤ n then Nat.toDigits 10 n.toNat else '-' :: Nat.toDigits 10 (-n).toNat := by
  rw [Int.toString_eq_repr, Int.repr_eq_if]
  split
  · exact Nat.toList_repr
  · rw [String.toList_append, Nat.toList_repr]
    rfl

theorem toDigits_cons (n : Nat) : ∃ c ds, Nat.toDigits 10 n = c :: ds ∧ c.isDigit = true := by
  cases hn : Nat.toDigits 10 n with
  | nil => exact absurd hn Nat.toDigits_ne_nil
  | cons c ds =>
    exact ⟨c, ds, rfl, Nat.isDigit_of_mem_toDigits (by decide) (by decide) (hn ▸ List.mem_cons_self)⟩

theorem readInt_toString (n : Int) {s : Text} (hs : NoDigit s) :
    readInt ((toString n).toList ++ s) = some (n, s) := by
  rw [toList_toString]
  split
  · rename_i hn
    obtain ⟨c, ds, hc, hcd⟩ := toDigits_cons n.toNat
    have hread := readNat_toDigits n.toNat hs
    rw [hc] at hread ⊢
    rw [List.cons_append, readInt_digit hcd, ← List.cons_append, hread]
    simp [Int.toNat_of_nonneg hn]
  · rename_i hn
    rw [List.cons_append, readInt, readNat_toDigits _ hs]
    simp only [Option.map_some, Option.some.injEq, Prod.mk.injEq, and_true]
    omega

/-! ## Values round trip -/

/-- What the text of a value begins with. -/
theorem dumps_head (x : Json) : ∃ c s, x.dumps = c :: s ∧ isSpace c = false ∧ c ≠ ']' ∧ c ≠ '}' := by
  cases x with
  | null => exact ⟨'n', _, rfl, rfl, by decide, by decide⟩
  | bool b => cases b with
    | true => exact ⟨'t', _, rfl, rfl, by decide, by decide⟩
    | false => exact ⟨'f', _, rfl, rfl, by decide, by decide⟩
  | num n =>
    simp only [dumps, toList_toString]
    split
    · obtain ⟨c, ds, hc, hcd⟩ := toDigits_cons n.toNat
      refine ⟨c, ds, hc, ?_, ?_, ?_⟩
      · simp only [isSpace, Bool.or_eq_false_iff, decide_eq_false_iff_not]
        refine ⟨⟨⟨?_, ?_⟩, ?_⟩, ?_⟩ <;> (rintro rfl; cases hcd)
      · rintro rfl; cases hcd
      · rintro rfl; cases hcd
    · exact ⟨'-', _, rfl, rfl, by decide, by decide⟩
  | str s => exact ⟨'"', _, rfl, rfl, by decide, by decide⟩
  | arr xs => cases xs with
    | nil => exact ⟨'[', _, rfl, rfl, by decide, by decide⟩
    | cons x xs => exact ⟨'[', _, rfl, rfl, by decide, by decide⟩
  | obj ms => cases ms with
    | nil => exact ⟨'{', _, rfl, rfl, by decide, by decide⟩
    | cons m ms => exact ⟨'{', _, rfl, rfl, by decide, by decide⟩

theorem skip_cons {c : Char} (h : isSpace c = false) (s : Text) : skip (c :: s) = c :: s := by
  simp [skip, h]

theorem skip_space (s : Text) : skip (' ' :: s) = skip s := by
  simp [skip, isSpace]

theorem skip_dumps (x : Json) (s : Text) : skip (x.dumps ++ s) = x.dumps ++ s := by
  obtain ⟨c, t, hx, hc, -, -⟩ := dumps_head x
  rw [hx, List.cons_append, skip_cons hc]

/-- `readValue` reads the value back whatever follows, given calls enough. -/
def Reads (x : Json) : Prop := ∀ n s, 2 * x.dumps.length ≤ n → NoDigit s →
  readValue n (x.dumps ++ s) = some (x, s)

theorem readInt_start {c : Char} (h : c.isDigit = true ∨ c = '-') (n : Nat) (s : Text) :
    readValue (n + 1) (c :: s) = (readInt (c :: s)).map fun r => (.num r.1, r.2) := by
  have hne : ∀ d : Char, d.isDigit = false → d ≠ '-' → c ≠ d := by
    rintro d hd hm rfl
    rcases h with h | h
    · rw [hd] at h; cases h
    · exact hm h
  rw [readValue, if_neg (hne '"' rfl (by decide)), if_neg (hne '[' rfl (by decide)),
    if_neg (hne '{' rfl (by decide)), if_neg (hne 'n' rfl (by decide)), if_neg (hne 't' rfl (by decide)),
    if_neg (hne 'f' rfl (by decide))]

theorem reads_num (n : Int) : Reads (.num n) := by
  intro k s hk hs
  have hread := readInt_toString n hs
  simp only [dumps] at hk ⊢
  obtain ⟨c, t, hc, hstart⟩ : ∃ c t, (toString n).toList = c :: t ∧ (c.isDigit = true ∨ c = '-') := by
    rw [toList_toString]
    split
    · obtain ⟨c, ds, hc, hcd⟩ := toDigits_cons n.toNat
      exact ⟨c, ds, hc, .inl hcd⟩
    · exact ⟨'-', _, rfl, .inr rfl⟩
  rw [hc] at hread hk ⊢
  obtain ⟨m, rfl⟩ : ∃ m, k = m + 1 := ⟨k - 1, by simp only [List.length_cons] at hk; omega⟩
  rw [List.cons_append] at hread ⊢
  rw [readInt_start hstart, hread]
  rfl

theorem reads_str (t : String) : Reads (.str t) := by
  intro k s hk hs
  obtain ⟨m, rfl⟩ : ∃ m, k = m + 1 := ⟨k - 1, by simp only [dumps, quote, List.length_cons] at hk; omega⟩
  have hq := readString_quote t s
  simp only [dumps, quote, List.cons_append, List.append_assoc, List.nil_append, readValue, if_true, hq,
    Option.map_some, String.ofList_toList]

theorem noDigit_elements (xs : List Json) (s : Text) : NoDigit (dumpsElements xs ++ s) := by
  cases xs with
  | nil => exact noDigit_cons rfl s
  | cons x xs => exact noDigit_cons rfl _

theorem readElements_dumps (xs : List Json) {x : Json} (hx : Reads x) (hxs : ∀ y ∈ xs, Reads y) {n : Nat}
    (s : Text) (hn : 2 * (x.dumps.length + (dumpsElements xs).length) ≤ n) :
    readElements n (x.dumps ++ (dumpsElements xs ++ s)) = some (x :: xs, s) := by
  induction xs generalizing x n with
  | nil =>
    obtain ⟨m, rfl⟩ : ∃ m, n = m + 1 := ⟨n - 1, by simp only [dumpsElements, List.length_singleton] at hn; omega⟩
    rw [readElements, hx m _ (by simp only [dumpsElements, List.length_singleton] at hn; omega)
      (noDigit_elements [] s)]
    simp only [dumpsElements, List.cons_append, List.nil_append, skip_cons (c := ']') rfl]
  | cons y ys ih =>
    have hlen : (dumpsElements (y :: ys)).length = y.dumps.length + (dumpsElements ys).length + 2 := by
      simp only [dumpsElements, List.length_cons, List.length_append]
    rw [hlen] at hn
    obtain ⟨m, rfl⟩ : ∃ m, n = m + 1 := ⟨n - 1, by omega⟩
    have hrest := ih (hxs y List.mem_cons_self) (fun z hz => hxs z (List.mem_cons_of_mem y hz)) (n := m)
      (by omega)
    rw [readElements, hx m _ (by omega) (noDigit_elements (y :: ys) s)]
    simp only [dumpsElements, List.cons_append, List.append_assoc, skip_cons (c := ',') rfl, skip_space,
      skip_dumps, hrest, Option.map_some]

theorem reads_arr {xs : List Json} (h : ∀ x ∈ xs, Reads x) : Reads (.arr xs) := by
  intro n s hn _
  cases xs with
  | nil =>
    obtain ⟨m, rfl⟩ : ∃ m, n = m + 1 := ⟨n - 1, by simp only [dumps, List.length_cons] at hn; omega⟩
    rfl
  | cons x xs =>
    simp only [dumps, List.length_cons, List.length_append] at hn
    obtain ⟨m, rfl⟩ : ∃ m, n = m + 1 := ⟨n - 1, by omega⟩
    have hread := readElements_dumps xs (h x List.mem_cons_self)
      (fun y hy => h y (List.mem_cons_of_mem x hy)) (n := m) s (by omega)
    -- the text of `x` is not the closing bracket
    obtain ⟨c, t, hx, hc, hne, -⟩ := dumps_head x
    rw [hx] at hread
    simp only [dumps, List.cons_append, List.append_assoc, readValue, Char.reduceEq, if_false, if_true, hx,
      skip_cons hc] at hread ⊢
    split
    · rename_i he
      cases he
      exact absurd rfl hne
    · rw [hread]
      rfl

/-- A member up to what follows its value. -/
theorem readMembers_one {m : Nat} {x : Json} (k : String) (s : Text) (hx : Reads x)
    (hm : 2 * x.dumps.length ≤ m) (hs : NoDigit s) :
    readMembers (m + 1) (quote k ++ ':' :: ' ' :: (x.dumps ++ s)) =
      match skip s with
      | '}' :: s => some ([(k, x)], s)
      | ',' :: s => (readMembers m (skip s)).map fun r => ((k, x) :: r.1, r.2)
      | _ => none := by
  have hq := readString_quote k (':' :: ' ' :: (x.dumps ++ s))
  simp only [quote, List.cons_append, List.append_assoc, List.nil_append, readMembers, if_true, hq,
    skip_cons (c := ':') rfl, skip_space, skip_dumps, hx m s hm hs, String.ofList_toList]

theorem noDigit_members (ms : List (String × Json)) (s : Text) : NoDigit (dumpsMembers ms ++ s) := by
  cases ms with
  | nil => exact noDigit_cons rfl s
  | cons m ms => exact noDigit_cons rfl _

theorem members_pos (ms : List (String × Json)) : 1 ≤ (dumpsMembers ms).length := by
  cases ms <;> simp [dumpsMembers]

theorem skip_quote (k : String) (s : Text) : skip (quote k ++ s) = quote k ++ s :=
  skip_cons (c := '"') rfl _

theorem readMembers_dumps (ms : List (String × Json)) {k : String} {x : Json} (hx : Reads x)
    (hms : ∀ m ∈ ms, Reads m.2) {n : Nat} (s : Text)
    (hn : 2 * (x.dumps.length + (dumpsMembers ms).length) ≤ n) :
    readMembers n (quote k ++ ':' :: ' ' :: (x.dumps ++ (dumpsMembers ms ++ s))) =
      some ((k, x) :: ms, s) := by
  have hpos := members_pos ms
  obtain ⟨m, rfl⟩ : ∃ m, n = m + 1 := ⟨n - 1, by omega⟩
  induction ms generalizing k x m with
  | nil =>
    rw [readMembers_one k _ hx (by omega) (noDigit_members [] s)]
    simp only [dumpsMembers, List.cons_append, List.nil_append, skip_cons (c := '}') rfl]
  | cons y ys ih =>
    obtain ⟨k', y⟩ := y
    have hlen : (dumpsMembers ((k', y) :: ys)).length =
        (quote k').length + y.dumps.length + (dumpsMembers ys).length + 4 := by
      simp only [dumpsMembers, List.length_cons, List.length_append]
      omega
    rw [hlen] at hn
    obtain ⟨j, rfl⟩ : ∃ j, m = j + 1 := ⟨m - 1, by omega⟩
    have hrest := ih (hms (k', y) List.mem_cons_self) (fun z hz => hms z (List.mem_cons_of_mem _ hz))
      (members_pos ys) (k := k') (x := y) (m := j) (by omega)
    rw [readMembers_one k _ hx (by omega) (noDigit_members _ s)]
    simp only [dumpsMembers, List.cons_append, List.append_assoc, skip_cons (c := ',') rfl, skip_space,
      skip_quote, hrest, Option.map_some]

theorem reads_obj {ms : List (String × Json)} (h : ∀ m ∈ ms, Reads m.2) : Reads (.obj ms) := by
  intro n s hn _
  cases ms with
  | nil =>
    obtain ⟨m, rfl⟩ : ∃ m, n = m + 1 := ⟨n - 1, by simp only [dumps, List.length_cons] at hn; omega⟩
    rfl
  | cons m ms =>
    obtain ⟨k, x⟩ := m
    simp only [dumps, List.length_cons, List.length_append] at hn
    obtain ⟨m, rfl⟩ : ∃ m, n = m + 1 := ⟨n - 1, by omega⟩
    have hread := readMembers_dumps ms (k := k) (x := x) (h (k, x) List.mem_cons_self)
      (fun y hy => h y (List.mem_cons_of_mem _ hy)) (n := m) s (by omega)
    simp only [dumps, List.cons_append, List.append_assoc, readValue, Char.reduceEq, if_false, if_true,
      skip_quote]
    split
    · rename_i he
      cases he
    · rw [hread]
      rfl

theorem reads (x : Json) : Reads x := by
  induction x using ind with
  | null =>
    intro n s hn _
    obtain ⟨m, rfl⟩ : ∃ m, n = m + 1 := ⟨n - 1, by simp only [dumps, List.length_cons] at hn; omega⟩
    rfl
  | bool b =>
    intro n s hn _
    cases b <;>
      (obtain ⟨m, rfl⟩ : ∃ m, n = m + 1 := ⟨n - 1, by simp only [dumps, List.length_cons] at hn; omega⟩
       rfl)
  | num n => exact reads_num n
  | str s => exact reads_str s
  | arr xs h => exact reads_arr h
  | obj ms h => exact reads_obj h

/-- **Round trip.** -/
theorem loads_dumps (x : Json) : loads x.dumps = some x := by
  have hskip : skip x.dumps = x.dumps := by simpa using skip_dumps x []
  have hread : readValue (2 * x.dumps.length) x.dumps = some (x, []) := by
    simpa using reads x _ [] (Nat.le_refl _) noDigit_nil
  rw [loads, hskip, hread]
  rfl

/-- `json.dumps(x).encode("utf-8")` -/
def encode (x : Json) : ByteArray := (String.ofList x.dumps).toUTF8

/-- `json.loads` of bytes, for UTF-8 without a byte order mark. -/
def decode (raw : ByteArray) : Option Json := (String.fromUTF8? raw).bind fun s => loads s.toList

theorem fromUTF8_toUTF8 (s : String) : String.fromUTF8? s.toUTF8 = some s := by
  rw [String.toUTF8_eq_toByteArray, String.fromUTF8?, dif_pos s.isValidUTF8]
  rfl

theorem decode_encode (x : Json) : decode x.encode = some x := by
  rw [decode, encode, fromUTF8_toUTF8, Option.bind_some, String.toList_ofList, loads_dumps]

/-- A letter of two bytes, and a character beyond the basic plane. -/
example : (obj [("id", str "é😀"), ("n", num (-40)), ("xs", arr [null, bool true])]).dumps =
    "\x7b\"id\": \"\\u00e9\\ud83d\\ude00\", \"n\": -40, \"xs\": [null, true]\x7d".toList := by
  decide +kernel

end Json
end Gestalt
