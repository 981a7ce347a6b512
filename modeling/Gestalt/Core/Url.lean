import Gestalt.Core.Json
import Mathlib.Data.List.Basic

/-!
# URLs

From the text of a URL `scheme://authority/path?query#fragment` to the segments
that a router matches. The client refuses a text that is too long or has a
control character (`accepts`). It ends the path at `?` or `#`, removes its `.` and
`..` segments, and percent-encodes what a path may not contain; an escape `%XX`
that is in the text already stays. The server decodes the path, as UTF-8 with
U+FFFD in place of what is not well formed, and splits it at `/`.

A character that is encoded is decoded again, so of encoding and decoding only
the escapes of the text itself are seen: `unquote` is both. `path_eq`: each
segment that is left is decoded on its own, and may be split once more. A segment
that comes out as it went in is `plain`.
-/
namespace Gestalt.Url

def split (t : Text) : List Text := t.splitOn '/'

def join (ls : List Text) : Text := ['/'].intercalate ls

/-! ## Client -/

/-- The characters that end the path. -/
def ends (c : Char) : Bool := c = '?' || c = '#'

/-- The characters that end the authority. -/
def delimits (c : Char) : Bool := c = '/' || ends c

/-- A URL without path, query and fragment. -/
structure Origin where
  scheme : Text
  authority : Text
  scheme_ok : ':' ∉ scheme
  authority_ok : authority.all (fun c => !delimits c) = true

def Origin.text (o : Origin) : Text := o.scheme ++ ':' :: '/' :: '/' :: o.authority

def maxLength : Nat := 65536

def accepts (url : Text) : Bool :=
  url.length ≤ maxLength && url.all fun c => 0x20 ≤ c.toNat && c.toNat ≠ 0x7f

def cut (t : Text) : Text := t.takeWhile fun c => !ends c

def rawPath (url : Text) : Text :=
  cut (((url.dropWhile (· ≠ ':')).drop 3).dropWhile fun c => !delimits c)

def pushSegment (output : List Text) (component : Text) : List Text :=
  if component = ['.'] then output
  else if component = ['.', '.'] then
    if output = [] ∨ output = [[]] then output else output.dropLast
  else output ++ [component]

/-- Without the `.` and `..` segments. -/
def removeDots (components : List Text) : List Text := components.foldl pushSegment []

/-! ## Escapes -/

/-- The byte whose escape the text starts with. -/
def byteAt : Text → Option Nat
  | '%' :: a :: b :: _ =>
    match Json.hexVal a, Json.hexVal b with
    | some x, some y => some (16 * x + y)
    | _, _ => none
  | _ => none

/-- No `%` is followed by two hexadecimal digits. -/
def unescaped : Text → Bool
  | [] => true
  | c :: t => (byteAt (c :: t)).isNone && unescaped t

/-- The bytes of the escapes, and the other characters; the first `n` characters
belong to an escape. -/
def units : Nat → Text → List (Nat ⊕ Char)
  | _, [] => []
  | n + 1, _ :: t => units n t
  | 0, c :: t =>
    match byteAt (c :: t) with
    | some b => .inl b :: units 2 t
    | none => .inr c :: units 0 t

/-- Inside a character: how many bytes follow the next, the bounds of the next,
the bits so far. -/
structure Pending where
  more : Nat
  lo : Nat
  hi : Nat
  bits : Nat

def replacement : Char := '\uFFFD'

/-- The first byte of a character. -/
def lead (b : Nat) : Text × Option Pending :=
  if b < 0x80 then ([Char.ofNat b], none)
  else if 0xc2 ≤ b ∧ b ≤ 0xdf then ([], some ⟨0, 0x80, 0xbf, b % 32⟩)
  else if 0xe0 ≤ b ∧ b ≤ 0xef then
    ([], some ⟨1, if b = 0xe0 then 0xa0 else 0x80, if b = 0xed then 0x9f else 0xbf, b % 16⟩)
  else if 0xf0 ≤ b ∧ b ≤ 0xf4 then
    ([], some ⟨2, if b = 0xf0 then 0x90 else 0x80, if b = 0xf4 then 0x8f else 0xbf, b % 8⟩)
  else ([replacement], none)

/-- One byte: what is decoded by it, and the character it leaves unfinished. -/
def feed : Option Pending → Nat → Text × Option Pending
  | none, b => lead b
  | some p, b =>
    if p.lo ≤ b ∧ b ≤ p.hi then
      match p.more with
      | 0 => ([Char.ofNat (64 * p.bits + b % 64)], none)
      | n + 1 => ([], some ⟨n, 0x80, 0xbf, 64 * p.bits + b % 64⟩)
    else (replacement :: (lead b).1, (lead b).2)

/-- An unfinished character is replaced. -/
def flush (p : Option Pending) : Text := if p.isSome then [replacement] else []

def utf8 (p : Option Pending) : List (Nat ⊕ Char) → Text
  | [] => flush p
  | .inr c :: us => flush p ++ c :: utf8 none us
  | .inl b :: us => (feed p b).1 ++ utf8 (feed p b).2 us

/-- The text after the client has encoded it and the server has decoded it. -/
def unquote (t : Text) : Text := utf8 none (units 0 t)

/-- The segments that the router matches. -/
def path (url : Text) : List Text := split (unquote (join (removeDots (split (rawPath url)))))

/-- None if the client refuses the URL. -/
def target (url : Text) : Option (List Text) := if accepts url then some (path url) else none

/-- A segment that the path can consist of. -/
def plain (s : Text) : Bool :=
  s ≠ [] && s ≠ ['.'] && s ≠ ['.', '.'] && s.all (fun c => !delimits c) && unescaped s

/-! ## Segments -/

theorem split_slash (a b : Text) : split (a ++ '/' :: b) = split a ++ split b :=
  List.splitOn_append_cons_self a b

theorem split_singleton {s : Text} (h : '/' ∉ s) : split s = [s] := List.splitOn_eq_singleton h

theorem join_split (t : Text) : join (split t) = t := List.intercalate_splitOn '/'

theorem join_cons (s : Text) {ls : List Text} (h : ls ≠ []) : join (s :: ls) = s ++ '/' :: join ls := by
  cases ls with
  | nil => exact absurd rfl h
  | cons l ls => simp [join, List.intercalate_cons_cons]

theorem split_join {ls : List Text} (h : ls ≠ []) : split (join ls) = ls.flatMap split := by
  induction ls with
  | nil => exact absurd rfl h
  | cons s ls ih =>
    by_cases hls : ls = []
    · subst hls
      simp [join]
    · rw [join_cons s hls, split_slash, ih hls, List.flatMap_cons]

/-- A segment has no slash in it. -/
theorem slash_not_mem {t s : Text} (h : s ∈ split t) : '/' ∉ s := by
  induction t generalizing s with
  | nil =>
    obtain rfl : s = [] := by simpa [split] using h
    exact List.not_mem_nil
  | cons c t ih =>
    obtain ⟨l, ls, hsplit⟩ := List.exists_cons_of_ne_nil (List.splitOn_ne_nil '/' t)
    unfold split at h ih
    rw [List.splitOn_cons_eq_if_modifyHead] at h
    split at h
    · rcases List.mem_cons.mp h with rfl | h
      · exact List.not_mem_nil
      · exact ih h
    · rename_i hc
      rw [hsplit, List.modifyHead_cons] at h
      rcases List.mem_cons.mp h with rfl | h
      · have hl := ih (hsplit ▸ List.mem_cons_self ..)
        simp only [List.mem_cons, not_or]
        exact ⟨fun he => hc (by simp [← he]), hl⟩
      · exact ih (hsplit ▸ List.mem_cons_of_mem _ h)

/-- Segments that are not dots are kept. -/
theorem pushSegment_keep {output : List Text} {s : Text} (h₁ : s ≠ ['.']) (h₂ : s ≠ ['.', '.']) :
    pushSegment output s = output ++ [s] := by
  unfold pushSegment
  rw [if_neg h₁, if_neg h₂]

/-! ## Decoding -/

theorem length_lead (b : Nat) : (lead b).1.length + (flush (lead b).2).length ≤ 1 := by
  unfold lead
  split
  · simp [flush]
  · split
    · simp [flush]
    · split
      · simp [flush]
      · split <;> simp [flush]

theorem length_feed (p : Option Pending) (b : Nat) :
    (feed p b).1.length + (flush (feed p b).2).length ≤ (flush p).length + 1 := by
  have hlead := length_lead b
  cases p with
  | none => exact Nat.le_trans hlead (Nat.le_add_left _ _)
  | some p =>
    simp only [feed]
    split
    · split <;> simp [flush]
    · simp only [List.length_cons, flush, Option.isSome_some, if_true, List.length_nil] at hlead ⊢
      omega

theorem length_utf8 (p : Option Pending) (us : List (Nat ⊕ Char)) :
    (utf8 p us).length ≤ us.length + (flush p).length := by
  induction us generalizing p with
  | nil => simp [utf8]
  | cons u us ih =>
    cases u with
    | inl b =>
      have hfeed := length_feed p b
      have hrest := ih (feed p b).2
      simp only [utf8, List.length_append, List.length_cons]
      omega
    | inr c =>
      have hrest := ih none
      simp only [flush, Option.isSome_none, Bool.false_eq_true, if_false, List.length_nil] at hrest
      simp only [utf8, List.length_append, List.length_cons]
      omega

/-- A character ends what the bytes before it began. -/
theorem utf8_append (p : Option Pending) (us : List (Nat ⊕ Char)) (c : Char) (vs : List (Nat ⊕ Char)) :
    utf8 p (us ++ .inr c :: vs) = utf8 p us ++ c :: utf8 none vs := by
  induction us generalizing p with
  | nil => rfl
  | cons u us ih =>
    cases u with
    | inl b => simp [utf8, ih]
    | inr d => simp [utf8, ih]

theorem utf8_chars (t : Text) : utf8 none (t.map .inr) = t := by
  induction t with
  | nil => rfl
  | cons c t ih => simp [utf8, flush, ih]

theorem byteAt_some {t : Text} {n : Nat} (h : byteAt t = some n) : ∃ a b s, t = '%' :: a :: b :: s := by
  unfold byteAt at h
  split at h
  · exact ⟨_, _, _, rfl⟩
  · cases h

/-- A character that is no digit takes no part in an escape before it. -/
theorem byteAt_append {c : Char} (hc : Json.hexVal c = none) (x : Char) (t s : Text) :
    byteAt (x :: (t ++ c :: s)) = byteAt (x :: t) := by
  match t with
  | [] =>
    cases s with
    | nil => simp [byteAt]
    | cons d s => by_cases hx : x = '%' <;> simp [byteAt, hc, hx]
  | [a] => by_cases hx : x = '%' <;> simp [byteAt, hc, hx]
  | a :: b :: t => by_cases hx : x = '%' <;> simp [byteAt, hx]

theorem units_append {c : Char} (hc : Json.hexVal c = none) (hp : c ≠ '%') {n : Nat} {t : Text}
    (hn : n ≤ t.length) (s : Text) : units n (t ++ c :: s) = units n t ++ .inr c :: units 0 s := by
  induction t generalizing n with
  | nil =>
    obtain rfl : n = 0 := by simpa using hn
    simp [units, byteAt, hp]
  | cons x t ih =>
    cases n with
    | succ n => exact ih (by simpa using hn)
    | zero =>
      simp only [List.cons_append, units, byteAt_append hc]
      cases hb : byteAt (x :: t) with
      | none => simp [ih]
      | some b =>
        obtain ⟨y, z, r, he⟩ := byteAt_some hb
        obtain ⟨-, rfl⟩ := List.cons.inj he
        rw [ih (by simp)]
        rfl

theorem length_units (n : Nat) (t : Text) : (units n t).length ≤ t.length := by
  induction t generalizing n with
  | nil => cases n <;> simp [units]
  | cons c t ih =>
    cases n with
    | succ n => exact Nat.le_trans (ih n) (by simp)
    | zero =>
      simp only [units]
      split <;> simpa using ih _

theorem units_unescaped {t : Text} (h : unescaped t = true) : units 0 t = t.map .inr := by
  induction t with
  | nil => rfl
  | cons c t ih =>
    obtain ⟨hb, ht⟩ := Bool.and_eq_true_iff.mp h
    rw [units, Option.isNone_iff_eq_none.mp hb]
    simp [ih ht]

/-- An escape takes three characters. -/
theorem units_escaped {t : Text} (h : unescaped t = false) : (units 0 t).length < t.length := by
  induction t with
  | nil => cases h
  | cons c t ih =>
    simp only [units]
    cases hb : byteAt (c :: t) with
    | none =>
      simp only [unescaped, hb, Option.isNone_none, Bool.true_and] at h
      simpa using ih h
    | some b =>
      obtain ⟨y, z, r, he⟩ := byteAt_some hb
      obtain ⟨-, rfl⟩ := List.cons.inj he
      have := length_units 0 r
      simp only [units, List.length_cons]
      omega

theorem unquote_slash (a b : Text) : unquote (a ++ '/' :: b) = unquote a ++ '/' :: unquote b := by
  unfold unquote
  rw [units_append rfl (by decide) (Nat.zero_le _), utf8_append]

theorem unquote_join (ls : List Text) : unquote (join ls) = join (ls.map unquote) := by
  induction ls with
  | nil => rfl
  | cons s ls ih =>
    by_cases hls : ls = []
    · subst hls
      simp [join]
    · rw [join_cons s hls, unquote_slash, ih, List.map_cons, join_cons _ (by simpa using hls)]

theorem length_unquote (t : Text) : (unquote t).length ≤ t.length :=
  Nat.le_trans (length_utf8 none _) (length_units 0 t)

/-- Decoding changes exactly the texts that have an escape. -/
theorem unquote_eq_iff {t : Text} : unquote t = t ↔ unescaped t = true := by
  constructor
  · intro h
    by_contra hesc
    have hlt : (unquote t).length < t.length :=
      Nat.lt_of_le_of_lt (length_utf8 none _) (units_escaped (Bool.eq_false_iff.mpr hesc))
    rw [h] at hlt
    exact Nat.lt_irrefl _ hlt
  · intro h
    unfold unquote
    rw [units_unescaped h, utf8_chars]

/-! ## Paths -/

theorem rawPath_origin (o : Origin) (r : Text) : rawPath (o.text ++ '/' :: r) = cut ('/' :: r) := by
  have hscheme : (o.text ++ '/' :: r).dropWhile (· ≠ ':') =
      ':' :: '/' :: '/' :: (o.authority ++ '/' :: r) := by
    simp only [Origin.text, List.append_assoc, List.cons_append]
    rw [List.dropWhile_append_of_pos]
    · rfl
    · intro c hc
      have hne : c ≠ ':' := fun he => o.scheme_ok (he ▸ hc)
      simpa using hne
  have hauthority : (o.authority ++ '/' :: r).dropWhile (fun c => !delimits c) = '/' :: r := by
    rw [List.dropWhile_append_of_pos]
    · rfl
    · intro c hc
      exact List.all_eq_true.mp o.authority_ok c hc
  unfold rawPath
  rw [hscheme]
  exact congrArg cut hauthority

/-- Segment by segment. -/
theorem path_eq {url : Text} (h : removeDots (split (rawPath url)) ≠ []) :
    path url = (removeDots (split (rawPath url))).flatMap fun s => split (unquote s) := by
  unfold path
  rw [unquote_join, split_join (by simpa using h), List.flatMap_map]

example : path "http://h/a/./b/../%C3%A9%ff?c#d".toList = ["".toList, "a".toList, "é\uFFFD".toList] := by
  decide +kernel

/-! ## Plain segments -/

theorem plain_iff {s : Text} : plain s = true ↔
    s ≠ [] ∧ s ≠ ['.'] ∧ s ≠ ['.', '.'] ∧ (∀ c ∈ s, delimits c = false) ∧ unescaped s = true := by
  simp [plain, and_assoc]

theorem slash_of_delimits {s : Text} (h : ∀ c ∈ s, delimits c = false) : '/' ∉ s := by
  intro hs
  have := h _ hs
  cases this

/-- A text without `?` and `#` is not cut. -/
theorem cut_append {s : Text} (h : s.all (fun c => !ends c) = true) (t : Text) :
    cut (s ++ t) = s ++ cut t :=
  List.takeWhile_append_of_pos (List.all_eq_true.mp h)

/-- Of a text that is cut, some is lost, and all that follows. -/
theorem length_cut {s : Text} (h : s.all (fun c => !ends c) = false) (t : Text) :
    cut (s ++ t) = cut s ∧ (cut s).length < s.length := by
  induction s with
  | nil => cases h
  | cons c s ih =>
    unfold cut at ih ⊢
    cases hc : ends c with
    | false =>
      obtain ⟨heq, hlt⟩ := ih (by simpa [hc] using h)
      simp only [List.cons_append, List.takeWhile_cons, hc, Bool.not_false, if_true, heq,
        List.length_cons, true_and]
      omega
    | true => simp [hc]

end Gestalt.Url
