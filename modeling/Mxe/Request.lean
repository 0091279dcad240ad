import Mxe.Charconv

/-!
# The request header codec

`request::to_buffer` formats the three scalar fields of a request as the text
`accession '\t' methylome_size '\t' n_intervals '\n'` and copies it into the
fixed 256-byte array `buf`; `request::from_buffer` parses `buf` back, with a
`std::find` for the first delimiter and two `std::from_chars` for the numbers.

Neither function checks the end of `buf` everywhere it should. `to_buffer`
copies its text with no length check and returns `status_code::ok` whatever the
length; `from_buffer` dereferences its cursor after each `from_chars`, and when
the digits run up to the last byte of `buf` that cursor is one past the end.
The model makes both visible: `Mxe.toBuffer` gives no buffer when the copy runs
past the end, and `Mxe.fromBuffer`, where that read is undefined, is `none`
exactly when it reads the byte one past the end: when a digit run ends the
buffer (`Mxe.fromBuffer_eq_none_iff`).

Everywhere else the codec is what it is meant to be. A buffer is accepted
exactly when it begins with the grammar `A '\t' D₁ '\t' D₂ '\n'`
(`Mxe.fromBuffer_eq_ok_iff`), and a request whose text fits in `buf` is read
back as it was written (`Mxe.fromBuffer_toBuffer`).

What the read past the end returns is fixed by the layout of `struct request`:
`buf` is followed by `accession`, whose first byte is the low byte of an
aligned pointer, never `'\t'` nor `'\n'`. `Mxe.fromBufferPast` takes that byte
as a parameter. Given such a byte, `from_buffer` returns a status on every
buffer: `ok` exactly on the grammar, and a `malformed_*` status on every other
buffer (`Mxe.fromBuffer_laidOut`).
-/

namespace Mxe

/-- `request::buf_size`: the size of the fixed request header. -/
def bufSize : ℕ := 256

/-- `std::array<char, request::buf_size>`: exactly `buf_size` bytes. -/
structure RequestBuf where
  /-- The bytes of the array, in order. -/
  bytes : List Byte
  length_eq : bytes.length = bufSize

/-- The fields of a `request` that its codec writes and reads. -/
structure Request where
  /-- The methylome accession, as the bytes of its `std::string`. -/
  accession : List Byte
  /-- `methylome_size`. -/
  methylomeSize : U32
  /-- `n_intervals`. -/
  nIntervals : U32
  deriving DecidableEq, Repr

/-- The enumerators of `status_code::value` that the codec returns. -/
inductive StatusCode
  | ok
  | malformedAccession
  | malformedMethylomeSize
  | malformedNIntervals
  deriving DecidableEq, Repr

/-! ### Encoding -/

/-- `format("{}\t{}\t{}\n", accession, methylome_size, n_intervals)`. -/
def formatRequest (r : Request) : List Byte :=
  r.accession ++ tab :: (toChars r.methylomeSize.val ++ tab :: (toChars r.nIntervals.val ++
    [newline]))

/-- `fill_n(begin(buf), buf_size, 0)` followed by `copy(s, begin(buf))`, for a
text that fits. -/
def RequestBuf.ofText (s : List Byte) (h : s.length ≤ bufSize) : RequestBuf :=
  ⟨s ++ List.replicate (bufSize - s.length) 0, by
    rw [List.length_append, List.length_replicate]
    omega⟩

/-- `request::to_buffer`: zero `buf`, copy the text to its front, return `ok`.
The copy is not checked against `buf_size`; the buffer is `none` when it runs
past the end of `buf`, and the status is `ok` either way. -/
def toBuffer (r : Request) : StatusCode × Option RequestBuf :=
  let s := formatRequest r
  (.ok, if h : s.length ≤ bufSize then some (RequestBuf.ofText s h) else none)

/-! ### Decoding -/

/-- `*cursor`, for a cursor that is an index into the bytes `s` of `buf`: the
byte it points to inside `buf`, and one past the end `past`, the byte that
follows `buf` in memory when one is given (`none` leaves that read undefined, as
the language does). -/
def deref (s : List Byte) (past : Option Byte) (cursor : ℕ) : Option Byte :=
  if cursor = s.length then past else s[cursor]?

/-- One field of `request::from_buffer`:
`if (*cursor++ != delim) return …; from_chars(cursor, data_end, v); if (ec) return …; cursor = ptr;`.
The cursor is an index into the buffer's bytes `s`. The result is `none` on
undefined behaviour: a read that `Mxe.deref` leaves undefined, or a
`from_chars` whose range would start past `data_end`. It is `some none` when the
field is malformed, and otherwise the value with the new cursor. -/
def readField (s : List Byte) (past : Option Byte) (cursor : ℕ) : Option (Option (U32 × ℕ)) :=
  (deref s past cursor).bind fun c =>
    if c ≠ tab then some none
    else if cursor < s.length then
      match fromChars (s.drop (cursor + 1)) with
      | .error _ => some none
      | .ok (v, n) => some (some (v, cursor + 1 + n))
    else none

/-- `request::from_buffer`, with `past` the byte a read one past the end of `buf`
returns. It is `none` on undefined behaviour; otherwise it returns the status
with the fields it has set by then. -/
def fromBufferPast (past : Option Byte) (buf : RequestBuf) : Option (StatusCode × Request) :=
  let s := buf.bytes
  let p := s.findIdx (· == tab)
  if p = bufSize then some (.malformedAccession, ⟨[], 0, 0⟩)
  else
    let acc := s.take p
    (readField s past p).bind fun
      | none => some (.malformedMethylomeSize, ⟨acc, 0, 0⟩)
      | some (ms, q) => (readField s past q).bind fun
        | none => some (.malformedNIntervals, ⟨acc, ms, 0⟩)
        | some (ni, r) => (deref s past r).map fun c =>
          if c ≠ newline then (.malformedNIntervals, ⟨acc, ms, ni⟩) else (.ok, ⟨acc, ms, ni⟩)

/-- `request::from_buffer` as the language defines it, where a read one past the
end of `buf` is undefined: it is `none` exactly when it reads that byte. -/
def fromBuffer (buf : RequestBuf) : Option (StatusCode × Request) := fromBufferPast none buf

/-! ### Positions in a buffer -/

section Positions

variable {A : List Byte} {c : Byte}

theorem findIdx_tab_append (hA : tab ∉ A) (t : List Byte) :
    (A ++ tab :: t).findIdx (· == tab) = A.length := by
  rw [List.findIdx_append, if_neg, List.findIdx_cons]
  · simp
  · rw [not_lt, ← List.findIdx_eq_length.mpr]
    intro x hx
    simp only [beq_eq_false_iff_ne, ne_eq]
    rintro rfl
    exact hA hx

@[simp] theorem getElem?_append_cons_length (A : List Byte) (c : Byte) (t : List Byte) :
    (A ++ c :: t)[A.length]? = some c := by
  rw [List.getElem?_append_right (le_refl _), Nat.sub_self, List.getElem?_cons_zero]

theorem getElem?_append_cons_add (A : List Byte) (c : Byte) (t : List Byte) (k : ℕ) :
    (A ++ c :: t)[A.length + 1 + k]? = t[k]? := by
  rw [List.getElem?_append_right (by omega)]
  simp [show A.length + 1 + k - A.length = k + 1 by omega]

theorem drop_append_cons_add (A : List Byte) (c : Byte) (t : List Byte) (k : ℕ) :
    (A ++ c :: t).drop (A.length + 1 + k) = t.drop k := by
  rw [List.drop_append_eq_append_drop, List.drop_eq_nil_of_le (by omega)]
  simp [show A.length + 1 + k - A.length = k + 1 by omega]

theorem drop_eq_cons_of_getElem? {s : List Byte} {i : ℕ} {x : Byte} (h : s[i]? = some x) :
    s.drop i = x :: s.drop (i + 1) := by
  obtain ⟨hi, rfl⟩ := List.getElem?_eq_some_iff.mp h
  exact List.drop_eq_getElem_cons hi

theorem drop_eq_take_append_drop (s : List Byte) (i n : ℕ) :
    s.drop i = (s.drop i).take n ++ s.drop (i + n) := by
  conv_lhs => rw [← List.take_append_drop n (s.drop i)]
  rw [List.drop_drop, Nat.add_comm]

/-- The bytes before the first `'\t'` hold no `'\t'`. -/
theorem tab_not_mem_take_findIdx (s : List Byte) : tab ∉ s.take (s.findIdx (· == tab)) := by
  intro hm
  obtain ⟨i, hi, hti⟩ := List.getElem_of_mem hm
  have := List.not_of_lt_findIdx (hi.trans_le (List.length_take_le _ _))
  rw [List.getElem_take] at hti
  simp [hti] at this

end Positions

/-! ### Reads -/

section Reads

variable {s : List Byte} {cursor : ℕ}

theorem deref_of_lt (h : cursor < s.length) (past : Option Byte) : deref s past cursor = s[cursor]? :=
  if_neg (Nat.ne_of_lt h)

@[simp] theorem deref_none (s : List Byte) (cursor : ℕ) : deref s none cursor = s[cursor]? := by
  unfold deref
  split
  · rw [List.getElem?_eq_none (by omega)]
  · rfl

@[simp] theorem deref_length (s : List Byte) (past : Option Byte) : deref s past s.length = past :=
  if_pos rfl

/-- Up to one past the end, a read is defined once the byte past `buf` is
given. -/
theorem isSome_deref {past : Byte} (h : cursor ≤ s.length) : (deref s (some past) cursor).isSome := by
  rcases h.lt_or_eq with h | rfl
  · rw [deref_of_lt h, List.getElem?_eq_getElem h]; rfl
  · rw [deref_length]; rfl

/-- A field inside `buf` is read, malformed or not. -/
theorem isSome_readField_of_lt (h : cursor < s.length) (past : Option Byte) :
    (readField s past cursor).isSome := by
  simp only [readField, deref_of_lt h, List.getElem?_eq_getElem h, Option.some_bind, h, if_true]
  split_ifs
  · rfl
  · split <;> rfl

/-- A field one past the end of `buf` reads the byte there: anything but a
`'\t'` makes it malformed. -/
theorem readField_length (s : List Byte) (past : Option Byte) :
    readField s past s.length = past.bind fun c => if c ≠ tab then some none else none := by
  simp [readField]

end Reads

/-! ### One field -/

section Field

variable (pre : List Byte) {D : List Byte} {v : U32} (past : Option Byte)

/-- A field followed by a character that is not a digit is read, and the cursor
is left on that character. -/
theorem readField_digitRun (hD : DigitRun D v) {c : Byte} (hc : isDigit c = false)
    (rest : List Byte) :
    readField (pre ++ tab :: (D ++ c :: rest)) past pre.length =
      some (some (v, pre.length + 1 + D.length)) := by
  have hd := drop_append_cons_add pre tab (D ++ c :: rest) 0
  rw [Nat.add_zero, List.drop_zero] at hd
  rw [readField, deref_of_lt (by simp)]
  simp [hd, fromChars_digitRun_append hD rest hc, List.getElem_append_right]

/-- A field whose digits run to the end of the buffer leaves the cursor one past
the end. -/
theorem readField_digitRun_end (hD : DigitRun D v) :
    readField (pre ++ tab :: D) past pre.length = some (some (v, pre.length + 1 + D.length)) := by
  have hd := drop_append_cons_add pre tab D 0
  rw [Nat.add_zero, List.drop_zero] at hd
  have hf : fromChars D = .ok (v, D.length) := by
    rw [fromChars_eq_ok, List.takeWhile_eq_self_iff.mpr hD.2.1]
    exact ⟨hD.1, rfl, hD.2.2.symm⟩
  rw [readField, deref_of_lt (by simp)]
  simp [hd, hf, List.getElem_append_right]

variable {past}

/-- What a read field consumed. -/
theorem readField_eq_some_some {s : List Byte} {cursor q : ℕ}
    (h : readField s past cursor = some (some (v, q))) :
    ∃ n, q = cursor + 1 + n ∧ s[cursor]? = some tab ∧ fromChars (s.drop (cursor + 1)) = .ok (v, n) := by
  obtain ⟨c, hc, h⟩ := Option.bind_eq_some.mp h
  split_ifs at h with ht hlt
  · cases h
  split at h
  · cases h
  · rename_i v' n hf
    simp only [Option.some.injEq, Prod.mk.injEq] at h
    obtain ⟨rfl, rfl⟩ := h
    simp only [ne_eq, not_not] at ht
    rw [deref_of_lt hlt] at hc
    exact ⟨n, rfl, ht ▸ hc, hf⟩

/-- A read field leaves the cursor at most one past the end. -/
theorem le_length_of_readField {s : List Byte} {cursor q : ℕ}
    (h : readField s past cursor = some (some (v, q))) : q ≤ s.length := by
  obtain ⟨n, rfl, ht, hf⟩ := readField_eq_some_some h
  have hn : n ≤ (s.drop (cursor + 1)).length := by
    rw [(fromChars_eq_ok.mp hf).2.1]
    exact (List.takeWhile_prefix _).length_le
  have := (List.getElem?_eq_some_iff.mp ht).1
  rw [List.length_drop] at hn
  omega

/-- A field that leaves the cursor past the end: the delimiter, then digits up
to the end of the buffer. -/
theorem readField_past_end {s : List Byte} {cursor q : ℕ}
    (h : readField s past cursor = some (some (v, q))) (hq : s.length ≤ q) :
    s = s.take cursor ++ tab :: s.drop (cursor + 1) ∧ DigitRun (s.drop (cursor + 1)) v := by
  obtain ⟨n, rfl, ht, hf⟩ := readField_eq_some_some h
  have hD := (fromChars_eq_ok_split hf).1
  rw [List.take_of_length_le (by rw [List.length_drop]; omega)] at hD
  exact ⟨by rw [← drop_eq_cons_of_getElem? ht, List.take_append_drop], hD⟩

end Field

/-! ### What the decoder accepts -/

/-- The text `A '\t' D₁ '\t' D₂ '\n'` at the front of the bytes `s`, where the
accession `A` holds no delimiter and `D₁`, `D₂` are digit runs denoting the two
words of `r`; the bytes after the terminator are free. -/
def HeaderText (s : List Byte) (r : Request) : Prop :=
  tab ∉ r.accession ∧ ∃ D₁ D₂ rest, DigitRun D₁ r.methylomeSize ∧ DigitRun D₂ r.nIntervals ∧
    s = r.accession ++ tab :: (D₁ ++ tab :: (D₂ ++ newline :: rest))

/-- A buffer that begins with the grammar is accepted, whatever byte follows
`buf`: every read stays inside it. -/
theorem fromBufferPast_of_headerText {buf : RequestBuf} {r : Request} (h : HeaderText buf.bytes r)
    (past : Option Byte) : fromBufferPast past buf = some (.ok, r) := by
  obtain ⟨hA, D₁, D₂, rest, h₁, h₂, hs⟩ := h
  have hlen := buf.length_eq
  rw [hs] at hlen
  simp only [List.length_append, List.length_cons] at hlen
  have hf₁ := readField_digitRun r.accession past h₁ isDigit_tab (D₂ ++ newline :: rest)
  have hf₂ := readField_digitRun (r.accession ++ tab :: D₁) past h₂ isDigit_newline rest
  simp only [List.append_assoc, List.cons_append, List.length_append, List.length_cons] at hf₂
  have hn := getElem?_append_cons_add (r.accession ++ tab :: D₁) tab (D₂ ++ newline :: rest)
    D₂.length
  simp only [List.append_assoc, List.cons_append, List.length_append, List.length_cons,
    List.getElem?_append_right (le_refl _), Nat.sub_self, List.getElem?_cons_zero] at hn
  have e : r.accession.length + (D₁.length + 1) = r.accession.length + 1 + D₁.length := by omega
  rw [e] at hf₂ hn
  rw [← deref_of_lt (List.getElem?_eq_some_iff.mp hn).1 past] at hn
  simp [fromBufferPast, hs, findIdx_tab_append hA, hf₁, hf₂, hn, List.take_left' rfl,
    if_neg (show r.accession.length ≠ bufSize by omega)]

/-- An accepted buffer begins with the grammar, unless the byte past `buf` was
read as its terminator. -/
theorem headerText_of_fromBufferPast {past : Option Byte} (hpast : past ≠ some newline)
    {buf : RequestBuf} {r : Request} (h : fromBufferPast past buf = some (.ok, r)) :
    HeaderText buf.bytes r := by
  simp only [fromBufferPast] at h
  split_ifs at h with hp
  · simp at h
  obtain ⟨_ | ⟨ms, q⟩, h₁, h⟩ := Option.bind_eq_some.mp h
  · cases h
  obtain ⟨_ | ⟨ni, e⟩, h₂, h⟩ := Option.bind_eq_some.mp h
  · cases h
  obtain ⟨c, hc, h⟩ := Option.map_eq_some'.mp h
  split_ifs at h with hn
  · simp at h
  simp only [Option.some.injEq, Prod.mk.injEq, true_and] at h
  subst h
  obtain ⟨n₁, rfl, ht₁, hf₁⟩ := readField_eq_some_some h₁
  obtain ⟨n₂, rfl, ht₂, hf₂⟩ := readField_eq_some_some h₂
  simp only [ne_eq, not_not] at hn
  subst hn
  have hA := tab_not_mem_take_findIdx buf.bytes
  generalize buf.bytes = s at *
  generalize List.findIdx (fun x => x == tab) s = p at *
  have hc' : s[p + 1 + n₁ + 1 + n₂]? = some newline := by
    unfold deref at hc
    split_ifs at hc
    · exact absurd hc hpast
    · exact hc
  refine ⟨hA, _, _, s.drop (p + 1 + n₁ + 1 + n₂ + 1), (fromChars_eq_ok_split hf₁).1,
    (fromChars_eq_ok_split hf₂).1, ?_⟩
  conv_lhs => rw [← List.take_append_drop p s, drop_eq_cons_of_getElem? ht₁,
    drop_eq_take_append_drop s (p + 1) n₁, drop_eq_cons_of_getElem? ht₂,
    drop_eq_take_append_drop s (p + 1 + n₁ + 1) n₂, drop_eq_cons_of_getElem? hc']

/-- **What `from_buffer` accepts**: it returns `ok` exactly on a buffer that
begins with `A '\t' D₁ '\t' D₂ '\n'`, and then it sets the three fields to `A`
and the values of `D₁` and `D₂`. -/
theorem fromBuffer_eq_ok_iff {buf : RequestBuf} {r : Request} :
    fromBuffer buf = some (.ok, r) ↔ HeaderText buf.bytes r :=
  ⟨fun h => headerText_of_fromBufferPast (by simp) h, fun h => fromBufferPast_of_headerText h none⟩


/-! ### Round trip -/

/-- **Decoding undoes encoding** on every request whose accession holds no
delimiter and whose text fits in `buf`. -/
theorem fromBuffer_toBuffer {r : Request} (hA : tab ∉ r.accession)
    (hfit : (formatRequest r).length ≤ bufSize) :
    ∃ buf, toBuffer r = (.ok, some buf) ∧ fromBuffer buf = some (.ok, r) := by
  refine ⟨RequestBuf.ofText _ hfit, by simp [toBuffer, hfit], fromBufferPast_of_headerText ?_ none⟩
  exact ⟨hA, _, _, List.replicate (bufSize - (formatRequest r).length) 0, digitRun_toChars _,
    digitRun_toChars _, by simp [RequestBuf.ofText, formatRequest]⟩

/-- The text of every request with an accession of at most 233 bytes fits:
each word has at most ten digits. -/
theorem length_formatRequest_le {r : Request} (h : r.accession.length ≤ 233) :
    (formatRequest r).length ≤ bufSize := by
  have h₁ := length_toChars_le r.methylomeSize.isLt
  have h₂ := length_toChars_le r.nIntervals.isLt
  simp only [formatRequest, List.length_append, List.length_cons, List.length_nil, bufSize]
  omega

/-- The request for one interval of an `hg38` methylome of five CpGs reads
back. -/
theorem fromBuffer_toBuffer_hg38 :
    ∃ buf, toBuffer ⟨[104, 103, 51, 56], 5, 1⟩ = (.ok, some buf) ∧
      fromBuffer buf = some (.ok, ⟨[104, 103, 51, 56], 5, 1⟩) :=
  fromBuffer_toBuffer (by decide) (length_formatRequest_le (by decide))

/-- An accession of 256 bytes: `to_buffer` returns `ok`, and its copy runs past
the end of `buf`. -/
theorem toBuffer_long_accession :
    toBuffer ⟨List.replicate 256 65, 0, 0⟩ = (.ok, none) := by
  have h : ¬ (formatRequest ⟨List.replicate 256 65, 0, 0⟩).length ≤ bufSize := by
    simp only [formatRequest, List.length_append, List.length_cons, List.length_replicate, bufSize]
    omega
  simp only [toBuffer, dif_neg h]

/-! ### Reading past the end -/

section PastEnd

variable {buf : RequestBuf} {A D₁ D₂ : List Byte} {v₁ v₂ : U32}

/-- When the digits of `methylome_size` run to the last byte of `buf`, the
delimiter check after them reads the byte past `buf`. -/
theorem fromBufferPast_of_first_run (hA : tab ∉ A) (h₁ : DigitRun D₁ v₁)
    (hs : buf.bytes = A ++ tab :: D₁) (past : Option Byte) :
    fromBufferPast past buf =
      past.bind fun c => if c ≠ tab then some (.malformedNIntervals, ⟨A, v₁, 0⟩) else none := by
  have hlen := buf.length_eq
  rw [hs] at hlen
  simp only [List.length_append, List.length_cons] at hlen
  have hend := readField_length (A ++ tab :: D₁) past
  simp only [List.length_append, List.length_cons] at hend
  rw [show A.length + (D₁.length + 1) = A.length + 1 + D₁.length by omega] at hend
  simp only [fromBufferPast, hs, findIdx_tab_append hA, readField_digitRun_end A past h₁, hend,
    if_neg (show A.length ≠ bufSize by omega), Option.some_bind, List.take_left' rfl]
  cases past <;> simp only [Option.none_bind, Option.some_bind]
  split_ifs <;> rfl

/-- When the digits of `n_intervals` run to the last byte of `buf`, the
terminator check after them reads the byte past `buf`. -/
theorem fromBufferPast_of_second_run (hA : tab ∉ A) (h₁ : DigitRun D₁ v₁)
    (h₂ : DigitRun D₂ v₂) (hs : buf.bytes = A ++ tab :: (D₁ ++ tab :: D₂)) (past : Option Byte) :
    fromBufferPast past buf = past.map fun c =>
      if c ≠ newline then (.malformedNIntervals, ⟨A, v₁, v₂⟩) else (.ok, ⟨A, v₁, v₂⟩) := by
  have hlen := buf.length_eq
  rw [hs] at hlen
  simp only [List.length_append, List.length_cons] at hlen
  have hf₂ := readField_digitRun_end (A ++ tab :: D₁) past h₂
  simp only [List.append_assoc, List.cons_append, List.length_append, List.length_cons] at hf₂
  have e : A.length + (D₁.length + 1) = A.length + 1 + D₁.length := by omega
  rw [e] at hf₂
  have hend : deref (A ++ tab :: (D₁ ++ tab :: D₂)) past (A.length + 1 + D₁.length + 1 + D₂.length) =
      past := by
    rw [show A.length + 1 + D₁.length + 1 + D₂.length = (A ++ tab :: (D₁ ++ tab :: D₂)).length by
      simp; omega, deref_length]
  simp only [fromBufferPast, hs, findIdx_tab_append hA, readField_digitRun A past h₁ isDigit_tab, hf₂,
    hend, if_neg (show A.length ≠ bufSize by omega), Option.some_bind, List.take_left' rfl]

/-- When the digits of `methylome_size` run to the last byte of `buf`, the
delimiter check after them reads one past the end. -/
theorem fromBuffer_eq_none_of_first_run (hA : tab ∉ A) (h₁ : DigitRun D₁ v₁)
    (hs : buf.bytes = A ++ tab :: D₁) : fromBuffer buf = none :=
  fromBufferPast_of_first_run hA h₁ hs none

/-- When the digits of `n_intervals` run to the last byte of `buf`, the
terminator check after them reads one past the end. -/
theorem fromBuffer_eq_none_of_second_run (hA : tab ∉ A) (h₁ : DigitRun D₁ v₁)
    (h₂ : DigitRun D₂ v₂) (hs : buf.bytes = A ++ tab :: (D₁ ++ tab :: D₂)) :
    fromBuffer buf = none :=
  fromBufferPast_of_second_run hA h₁ h₂ hs none

end PastEnd

/-- **Where `from_buffer` reads past the end**: exactly on a buffer that is an
accession, `'\t'` and a digit run up to its last byte, or that followed by a
second `'\t'` and digit run up to the last byte. A run `from_chars` accepts and
that ends the buffer leaves the cursor one past the end, and the next check
dereferences it. On every other buffer `from_buffer` returns a status. -/
theorem fromBuffer_eq_none_iff {buf : RequestBuf} :
    fromBuffer buf = none ↔ ∃ A D₁ v₁, tab ∉ A ∧ DigitRun D₁ v₁ ∧
      (buf.bytes = A ++ tab :: D₁ ∨
        ∃ D₂ v₂, DigitRun D₂ v₂ ∧ buf.bytes = A ++ tab :: (D₁ ++ tab :: D₂)) := by
  constructor
  · intro h
    simp only [fromBuffer, fromBufferPast] at h
    split_ifs at h with hp
    have hA := tab_not_mem_take_findIdx buf.bytes
    have hle : buf.bytes.findIdx (· == tab) ≤ buf.bytes.length := List.findIdx_le_length _
    have hlen := buf.length_eq
    generalize buf.bytes = s at *
    generalize List.findIdx (fun x => x == tab) s = p at *
    obtain ⟨_ | ⟨ms, q⟩, h₁⟩ := Option.isSome_iff_exists.mp
      (isSome_readField_of_lt (show p < s.length by rw [hlen]; omega) none)
    · simp [h₁] at h
    rw [h₁, Option.some_bind] at h
    rcases (le_length_of_readField h₁).lt_or_eq with hq | rfl
    · obtain ⟨_ | ⟨ni, r⟩, h₂⟩ := Option.isSome_iff_exists.mp (isSome_readField_of_lt hq none)
      · simp [h₂] at h
      -- the terminator check after `n_intervals`
      simp only [h₂, Option.some_bind, deref_none, Option.map_eq_none', List.getElem?_eq_none_iff] at h
      obtain ⟨-, hD₂⟩ := readField_past_end h₂ h
      obtain ⟨n₁, rfl, ht₁, hf₁⟩ := readField_eq_some_some h₁
      obtain ⟨-, -, ht₂, -⟩ := readField_eq_some_some h₂
      refine ⟨_, _, _, hA, (fromChars_eq_ok_split hf₁).1, .inr ⟨_, _, hD₂, ?_⟩⟩
      conv_lhs => rw [← List.take_append_drop p s, drop_eq_cons_of_getElem? ht₁,
        drop_eq_take_append_drop s (p + 1) n₁, drop_eq_cons_of_getElem? ht₂]
    · -- the delimiter check after `methylome_size`
      obtain ⟨hs, hD⟩ := readField_past_end h₁ le_rfl
      exact ⟨_, _, _, hA, hD, .inl hs⟩
  · rintro ⟨A, D₁, v₁, hA, h₁, hs | ⟨D₂, v₂, h₂, hs⟩⟩
    · exact fromBuffer_eq_none_of_first_run hA h₁ hs
    · exact fromBuffer_eq_none_of_second_run hA h₁ h₂ hs

/-- A tab followed by 255 zeros: `from_chars` takes all 255 digits, and the
check for the second delimiter dereferences `buf[256]`. -/
theorem fromBuffer_reads_past_end :
    fromBuffer ⟨tab :: List.replicate 255 (digitChar 0), by
      rw [List.length_cons, List.length_replicate]; rfl⟩ = none :=
  fromBuffer_eq_none_of_first_run (A := []) (List.not_mem_nil _) (digitRun_zeros (by norm_num)) rfl

/-! ### On the layout of `struct request` -/

/-- The byte one past `buf` on the layout of `struct request`. `buf` is followed
by `std::string accession`, which `from_buffer` has assigned before any read
past `buf`, and whose first member in libstdc++ is the pointer to its
characters. On a little-endian machine that byte is the pointer's low byte.
The characters sit inside the string or in memory from `operator new`, at an
address aligned to 8 either way, so the byte is a multiple of 8: neither
`'\t'` (9) nor `'\n'` (10). -/
theorem ne_tab_newline_of_aligned {past : Byte} (h : past.val % 8 = 0) :
    past ≠ tab ∧ past ≠ newline := by
  exact ⟨fun e => absurd (e ▸ h) (by decide), fun e => absurd (e ▸ h) (by decide)⟩

/-- With a byte past `buf` that is neither a delimiter nor a terminator, every
read `from_buffer` makes is defined: it returns a status on every buffer. -/
theorem isSome_fromBufferPast {past : Byte} (ht : past ≠ tab) (buf : RequestBuf) :
    (fromBufferPast (some past) buf).isSome := by
  simp only [fromBufferPast]
  split_ifs with hp
  · rfl
  have hlt : buf.bytes.findIdx (· == tab) < buf.bytes.length := by
    have hle : buf.bytes.findIdx (· == tab) ≤ buf.bytes.length := List.findIdx_le_length _
    rw [buf.length_eq] at hle ⊢
    omega
  obtain ⟨_ | ⟨ms, q⟩, h₁⟩ := Option.isSome_iff_exists.mp (isSome_readField_of_lt hlt (some past))
  · simp only [h₁, Option.some_bind, Option.isSome_some]
  have hf : ∀ {q}, q ≤ buf.bytes.length → (readField buf.bytes (some past) q).isSome := fun hq =>
    hq.lt_or_eq.elim (isSome_readField_of_lt · _) fun e => by
      rw [e, readField_length, Option.some_bind, if_pos ht]; rfl
  obtain ⟨_ | ⟨ni, r⟩, h₂⟩ := Option.isSome_iff_exists.mp (hf (le_length_of_readField h₁))
  · simp only [h₁, h₂, Option.some_bind, Option.isSome_some]
  obtain ⟨c, hc⟩ : ∃ c, deref buf.bytes (some past) r = some c :=
    Option.isSome_iff_exists.mp (isSome_deref (le_length_of_readField h₂))
  simp only [h₁, h₂, hc, Option.some_bind, Option.map_some', Option.isSome_some]

/-- **On the layout of `struct request`, `from_buffer` returns `ok` exactly on
the grammar.** Take the byte that a read one past `buf` returns to be neither
`'\t'` nor `'\n'`, as it is for the first byte of the `accession` that follows
`buf` (`Mxe.ne_tab_newline_of_aligned`). Then `from_buffer` returns `ok` with
the fields `r` exactly when the buffer begins with `A '\t' D₁ '\t' D₂ '\n'`
spelling `r`, and on every buffer that does not, it returns a `malformed_*`
status. The read past `buf` is still made, on the buffers where a digit run
ends it. -/
theorem fromBuffer_laidOut {past : Byte} (ht : past ≠ tab) (hn : past ≠ newline) (buf : RequestBuf) :
    (∀ r, fromBufferPast (some past) buf = some (.ok, r) ↔ HeaderText buf.bytes r) ∧
      ((∀ r, ¬ HeaderText buf.bytes r) →
        ∃ st r, fromBufferPast (some past) buf = some (st, r) ∧ st ≠ .ok) := by
  have hpast : some past ≠ some newline := fun e => hn (Option.some.inj e)
  refine ⟨fun r => ⟨headerText_of_fromBufferPast hpast, fun h => fromBufferPast_of_headerText h _⟩,
    fun hno => ?_⟩
  obtain ⟨⟨st, r⟩, h⟩ := Option.isSome_iff_exists.mp (isSome_fromBufferPast ht buf)
  exact ⟨st, r, h, by rintro rfl; exact hno r (headerText_of_fromBufferPast hpast h)⟩

/-- `"\t0\t"` followed by 253 zeros, with the low byte `0` of an aligned
pointer past `buf`: the terminator check reads that byte, and `from_buffer`
returns `malformed_n_intervals`. -/
theorem fromBuffer_laidOut_no_terminator :
    ((0 : Byte) ≠ tab ∧ (0 : Byte) ≠ newline) ∧
      fromBufferPast (some 0) ⟨tab :: digitChar 0 :: tab :: List.replicate 253 (digitChar 0), by
        rw [List.length_cons, List.length_cons, List.length_cons, List.length_replicate]; rfl⟩ =
        some (.malformedNIntervals, ⟨[], 0, 0⟩) ∧
      ((∀ r, fromBufferPast (some 0) ⟨tab :: digitChar 0 :: tab :: List.replicate 253 (digitChar 0), by
          rw [List.length_cons, List.length_cons, List.length_cons, List.length_replicate]; rfl⟩ =
          some (.ok, r) ↔ HeaderText (tab :: digitChar 0 :: tab :: List.replicate 253 (digitChar 0)) r) ∧
        ((∀ r, ¬ HeaderText (tab :: digitChar 0 :: tab :: List.replicate 253 (digitChar 0)) r) →
          ∃ st r, fromBufferPast (some 0) ⟨tab :: digitChar 0 :: tab :: List.replicate 253 (digitChar 0), by
            rw [List.length_cons, List.length_cons, List.length_cons, List.length_replicate]; rfl⟩ =
            some (st, r) ∧ st ≠ .ok)) :=
  ⟨@ne_tab_newline_of_aligned 0 rfl,
    (fromBufferPast_of_second_run (A := []) (List.not_mem_nil _) (digitRun_zeros (n := 1) (by norm_num))
      (digitRun_zeros (by norm_num)) rfl (some 0)).trans rfl,
    fromBuffer_laidOut (@ne_tab_newline_of_aligned 0 rfl).1 (@ne_tab_newline_of_aligned 0 rfl).2 _⟩

end Mxe
