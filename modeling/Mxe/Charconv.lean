import Mathlib.Order.Fin.Basic
import Mathlib.Data.ZMod.Defs
import Mathlib.Data.Nat.Digits

/-!
# Machine words, bytes, and `<charconv>`

The sources are C++, and everything they store is a fixed-width unsigned integer
or a `char`. A `std::uint32_t` is `Mxe.U32`, the integers modulo `2 ^ 32`, so
that `i += bin_size` wraps exactly as it does in the code; a `char` of a buffer
is `Mxe.Byte`.

Every text the programs read or write goes through one of two library calls:
`std::from_chars`, which parses the longest run of decimal digits at the front
of a range, and `std::to_chars` (or `std::format("{}")`), which writes the
decimal text of a value. This file models both and proves the one law the
request codec and the output writers rest on: reading back what was written
gives the value, and stops at the first character that is not a digit
(`Mxe.fromChars_digitRun_append`).
-/

namespace Mxe

/-- A `std::uint32_t`: addition wraps modulo `2 ^ 32`, as it does on `Fin`. -/
abbrev U32 := Fin (2 ^ 32)

/-- A `std::uint16_t`, the type of `methylome::m_count_t`. -/
abbrev U16 := Fin (2 ^ 16)

/-- A `char` of a buffer. -/
abbrev Byte := Fin 256

/-- The value of `std::min` on two words is the minimum of their values. -/
@[simp] theorem val_min (a b : U32) : (min a b).val = min a.val b.val := rfl

/-- The character `'\t'`, the field delimiter of every text format here. -/
def tab : Byte := 9

/-- The character `'\n'`, the line terminator. -/
def newline : Byte := 10

/-! ### Decimal digits -/

/-- Whether a character is one of `'0'` … `'9'`. -/
def isDigit (c : Byte) : Bool := 48 ≤ c.val && c.val ≤ 57

/-- The character of a decimal digit. -/
def digitChar (d : ℕ) : Byte := ⟨48 + d % 10, by omega⟩

/-- The value of a run of digit characters, most significant first. -/
def digitsValue (s : List Byte) : ℕ := s.foldl (fun v c => 10 * v + (c.val - 48)) 0

@[simp] theorem isDigit_digitChar (d : ℕ) : isDigit (digitChar d) = true := by
  simp only [isDigit, digitChar, Bool.and_eq_true, decide_eq_true_eq]
  omega

@[simp] theorem isDigit_tab : isDigit tab = false := rfl

@[simp] theorem isDigit_newline : isDigit newline = false := rfl

/-- Whether a character is in `[_[:alnum:]]` in the "C" locale: an ASCII letter
or digit, or `'_'`. -/
def isAlnumUnderscore (c : Byte) : Bool :=
  isDigit c || (65 ≤ c.val && c.val ≤ 90) || (97 ≤ c.val && c.val ≤ 122) || c.val == 95

theorem digitsValue_append_singleton (s : List Byte) (c : Byte) :
    digitsValue (s ++ [c]) = 10 * digitsValue s + (c.val - 48) := by
  simp [digitsValue, List.foldl_append]

/-- Leading zeros add nothing. -/
theorem digitsValue_replicate_zero (n : ℕ) : digitsValue (List.replicate n (digitChar 0)) = 0 := by
  induction n with
  | zero => rfl
  | succ n ih => rw [List.replicate_succ', digitsValue_append_singleton, ih]; rfl

/-! ### `std::to_chars` -/

/-- The decimal text of `n`, as `std::to_chars` and `std::format("{}")` write an
unsigned value: no sign, no leading zero, and `"0"` for zero. -/
def toChars (n : ℕ) : List Byte :=
  if n = 0 then [digitChar 0] else (Nat.digits 10 n).reverse.map digitChar

/-- Reading back little-endian digits written most significant first. -/
theorem digitsValue_reverse_map {L : List ℕ} (hL : ∀ d ∈ L, d < 10) :
    digitsValue (L.reverse.map digitChar) = Nat.ofDigits 10 L := by
  induction L with
  | nil => rfl
  | cons d L ih =>
    have hd := hL d (List.mem_cons_self d L)
    rw [List.reverse_cons, List.map_append, List.map_singleton, digitsValue_append_singleton,
      ih fun e he => hL e (List.mem_cons_of_mem d he), Nat.ofDigits_cons]
    simp only [digitChar, Nat.mod_eq_of_lt hd]
    omega

@[simp] theorem digitsValue_toChars (n : ℕ) : digitsValue (toChars n) = n := by
  unfold toChars
  split_ifs with h
  · subst h
    rfl
  · rw [digitsValue_reverse_map fun d hd => Nat.digits_lt_base (by norm_num) hd,
      Nat.ofDigits_digits]

theorem isDigit_of_mem_toChars {n : ℕ} {c : Byte} (h : c ∈ toChars n) : isDigit c = true := by
  unfold toChars at h
  split_ifs at h
  · simp_all
  · obtain ⟨d, -, rfl⟩ := List.mem_map.mp h
    exact isDigit_digitChar d

theorem toChars_ne_nil (n : ℕ) : toChars n ≠ [] := by
  unfold toChars
  split_ifs with h
  · simp
  · simpa using Nat.digits_ne_nil_iff_ne_zero.mpr h

/-- A word has at most ten decimal digits. -/
theorem length_toChars_le {n : ℕ} (h : n < 2 ^ 32) : (toChars n).length ≤ 10 := by
  unfold toChars
  split_ifs with h0
  · simp
  · rw [List.length_map, List.length_reverse, Nat.digits_len 10 n (by norm_num) h0]
    have := Nat.log_lt_of_lt_pow (b := 10) (x := 10) h0 (by omega)
    omega

/-! ### `std::from_chars` -/

/-- The errors of `<charconv>` (`std::errc`). -/
inductive Errc
  /-- No digit at the front of the range. -/
  | invalidArgument
  /-- The digits denote a value that does not fit the type. -/
  | resultOutOfRange
  /-- `std::to_chars`: the text does not fit the range. -/
  | valueTooLarge
  deriving DecidableEq, Repr

/-- `std::from_chars(first, last, value)` for a `std::uint32_t` in base ten, on
the characters of `[first, last)`: the longest run of digits at the front is the
number (no sign, no prefix, leading zeros allowed). On success it gives the value
and how many characters it consumed. -/
def fromChars (s : List Byte) : Except Errc (U32 × ℕ) :=
  let ds := s.takeWhile isDigit
  if ds = [] then .error .invalidArgument
  else if h : digitsValue ds < 2 ^ 32 then .ok (⟨digitsValue ds, h⟩, ds.length)
  else .error .resultOutOfRange

/-- **What `from_chars` accepts**: a non-empty run of digits, not followed by
another digit, whose value is a word. -/
theorem fromChars_eq_ok {s : List Byte} {v : U32} {k : ℕ} :
    fromChars s = .ok (v, k) ↔
      s.takeWhile isDigit ≠ [] ∧ k = (s.takeWhile isDigit).length ∧
        v.val = digitsValue (s.takeWhile isDigit) := by
  simp only [fromChars]
  split_ifs with h0 h1
  · simp [h0]
  · simp only [Except.ok.injEq, Prod.mk.injEq, ne_eq, h0, not_false_eq_true, true_and]
    constructor
    · rintro ⟨rfl, rfl⟩
      exact ⟨rfl, rfl⟩
    · rintro ⟨rfl, hv⟩
      exact ⟨Fin.ext hv.symm, rfl⟩
  · simp only [ne_eq, h0, not_false_eq_true, true_and, reduceCtorEq, false_iff, not_and]
    intro _ hv
    exact h1 (hv ▸ v.isLt)

/-- A non-empty run of digits denoting the word `v`: what `from_chars` takes
for `v`. -/
def DigitRun (D : List Byte) (v : U32) : Prop :=
  D ≠ [] ∧ (∀ c ∈ D, isDigit c = true) ∧ digitsValue D = v.val

theorem digitRun_toChars (v : U32) : DigitRun (toChars v.val) v :=
  ⟨toChars_ne_nil _, fun _ => isDigit_of_mem_toChars, digitsValue_toChars _⟩

theorem digitRun_zeros {n : ℕ} (hn : 0 < n) : DigitRun (List.replicate n (digitChar 0)) 0 :=
  ⟨by simpa using Nat.pos_iff_ne_zero.mp hn, fun c hc => by simp [List.eq_of_mem_replicate hc],
    digitsValue_replicate_zero n⟩

/-- **`from_chars` reads a digit run back**, up to the first character that is
not a digit. -/
theorem fromChars_digitRun_append {D : List Byte} {v : U32} (hD : DigitRun D v) {c : Byte}
    (rest : List Byte) (hc : isDigit c = false) :
    fromChars (D ++ c :: rest) = .ok (v, D.length) := by
  have hw : (D ++ c :: rest).takeWhile isDigit = D := by
    rw [List.takeWhile_append_of_pos hD.2.1, List.takeWhile_cons_of_neg (by simp [hc]),
      List.append_nil]
  rw [fromChars_eq_ok, hw]
  exact ⟨hD.1, rfl, hD.2.2.symm⟩

theorem take_length_takeWhile {α : Type} (p : α → Bool) (s : List α) :
    s.take (s.takeWhile p).length = s.takeWhile p := by
  induction s with
  | nil => rfl
  | cons a s ih => by_cases h : p a <;> simp [List.takeWhile_cons, h, ih]

theorem drop_length_takeWhile {α : Type} (p : α → Bool) (s : List α) :
    s.drop (s.takeWhile p).length = s.dropWhile p := by
  induction s with
  | nil => rfl
  | cons a s ih => by_cases h : p a <;> simp [List.takeWhile_cons, List.dropWhile_cons, h, ih]

/-- What a successful `from_chars` consumed: a digit run denoting the value,
followed by the end of the range or by a character that is not a digit. -/
theorem fromChars_eq_ok_split {s : List Byte} {v : U32} {k : ℕ}
    (h : fromChars s = .ok (v, k)) :
    DigitRun (s.take k) v ∧ ∀ c ∈ (s.drop k).head?, isDigit c = false := by
  obtain ⟨hne, rfl, hv⟩ := fromChars_eq_ok.mp h
  rw [take_length_takeWhile, drop_length_takeWhile]
  refine ⟨⟨hne, fun c hc => List.mem_takeWhile_imp hc, hv.symm⟩, fun c hc => ?_⟩
  cases hd : s.dropWhile isDigit with
  | nil => simp [hd] at hc
  | cons d t =>
    obtain rfl : d = c := by simpa [hd] using hc
    simpa [hd] using List.head_dropWhile_not isDigit s (by simp [hd])

/-! ### Bytes stored in a buffer -/

/-- The bytes of `chunk` stored in `bytes` from position `i` on. -/
def writeAt (bytes : List Byte) (i : ℕ) (chunk : List Byte) : List Byte :=
  bytes.take i ++ chunk ++ bytes.drop (i + chunk.length)

theorem length_writeAt {buf s : List Byte} {i : ℕ} (h : i + s.length ≤ buf.length) :
    (writeAt buf i s).length = buf.length := by
  simp only [writeAt, List.length_append, List.length_take, List.length_drop]
  omega

theorem writeAt_nil (bytes : List Byte) (i : ℕ) : writeAt bytes i [] = bytes := by
  rw [writeAt, List.append_nil, List.length_nil, Nat.add_zero, List.take_append_drop]

theorem writeAt_append_replicate (l chunk : List Byte) (m : ℕ) :
    writeAt (l ++ List.replicate m 0) l.length chunk =
      (l ++ chunk) ++ List.replicate (m - chunk.length) 0 := by
  rw [writeAt, List.take_left, List.drop_append, List.drop_replicate]

end Mxe
