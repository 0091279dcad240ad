import Mxe.BinLoop
import Mathlib.Data.List.SplitBy

/-!
# The buffered writers

`write_intervals` and `write_bins` print one line per interval or per bin: the
chromosome's name, then the interval's bounds and its counts in decimal, each
followed by `'\t'` and the last by `'\n'` (`Mxe.lineText`). They do not format
each line afresh. Once per run of lines on one chromosome they copy its name
and a `'\t'` to the front of a 512-byte stack buffer; each line then writes its
numbers over the rest of the buffer with `std::to_chars`, storing every
delimiter through `*tcr.ptr++`, and hands the buffer up to `tcr.ptr` to `out`.
No copy and no store is checked against the end of the buffer.

When every line fits in the buffer the writers print exactly the plain format
(`Mxe.writeIntervals_eq_intervalsText`, `Mxe.writeBins_eq_binsText`): the name
stays in front of every later line, because a line stores only after it
(`Mxe.writeLine_spec`). When a line does not fit, a store falls past the end
(`Mxe.writeFields_eq_none`). Chromosome names are read from the metadata, and
nothing bounds their length: a name of `512` bytes already overflows at its own
delimiter (`Mxe.writers_long_name`).

`std::ostream::write` is modelled as always succeeding, so the writers' early
return on a failed stream does not occur here.
-/

namespace Mxe

/-! ### Stores into the line buffer -/

/-- `buf_size` of the writers. -/
def lineBufSize : ℕ := 512

/-- `std::ranges::copy(s, buf.data() + i)`, and a store `buf[i] = c` as the copy
of `[c]`: `none` (undefined behaviour) when it runs past the end. -/
def copyAt (buf : List Byte) (i : ℕ) (s : List Byte) : Option (List Byte) :=
  if i + s.length ≤ buf.length then some (writeAt buf i s) else none

/-- `std::to_chars(buf.data() + i, buf_end, v)`: the buffer and the pointer it
returns. When the digits do not fit it returns `buf_end` with
`errc::value_too_large` and leaves the range's contents unspecified; here they
are left as they were. -/
def toCharsAt (buf : List Byte) (i v : ℕ) : List Byte × ℕ :=
  if i + (toChars v).length ≤ buf.length then (writeAt buf i (toChars v), i + (toChars v).length)
  else (buf, buf.length)

/-- The delimiter stored after a value: `'\t'`, or `'\n'` after the last one. -/
def sepAfter (vs : List ℕ) : Byte := if vs = [] then newline else tab

/-- The numbers of a line from position `p`: for each value
`tcr = std::to_chars(tcr.ptr, buf_end, v)` and then `*tcr.ptr++ = delim`. The
buffer and the final `tcr.ptr`. -/
def writeFields (buf : List Byte) (p : ℕ) : List ℕ → Option (List Byte × ℕ)
  | [] => some (buf, p)
  | v :: vs =>
    (copyAt (toCharsAt buf p v).1 (toCharsAt buf p v).2 [sepAfter vs]).bind fun buf' =>
      writeFields buf' ((toCharsAt buf p v).2 + 1) vs

/-- The plain text of a line's numbers. -/
def fieldsText : List ℕ → List Byte
  | [] => []
  | v :: vs => toChars v ++ sepAfter vs :: fieldsText vs

/-- The plain text of a line: the chromosome's name, `'\t'`, the numbers. -/
def lineText (name : List Byte) (vs : List ℕ) : List Byte := name ++ tab :: fieldsText vs

/-- The chromosome's name and a `'\t'` copied to the front of the buffer. -/
def writeName (name buf : List Byte) : Option (List Byte) :=
  (copyAt buf 0 name).bind fun buf => copyAt buf name.length [tab]

/-- One line after a name of `nameLen` bytes: its numbers, then
`out.write(buf.data(), tcr.ptr - buf.data())`. The state is the buffer and
what `out` holds. -/
def writeLine (nameLen : ℕ) (vs : List ℕ) (st : List Byte × List Byte) :
    Option (List Byte × List Byte) :=
  (writeFields st.1 (nameLen + 1) vs).map fun r => (r.1, st.2 ++ r.1.take r.2)

/-! ### Buffer lemmas -/

theorem take_writeAt {buf s : List Byte} {i : ℕ} (h : i + s.length ≤ buf.length) :
    (writeAt buf i s).take (i + s.length) = buf.take i ++ s := by
  rw [writeAt, List.take_left' (by simp only [List.length_append, List.length_take]; omega)]

@[simp] theorem fieldsText_nil : fieldsText [] = [] := rfl

theorem fieldsText_cons (v : ℕ) (vs : List ℕ) :
    fieldsText (v :: vs) = toChars v ++ sepAfter vs :: fieldsText vs := rfl

/-- One value and its delimiter that fit are stored after position `p`, and
the buffer before `p` is kept. -/
theorem writeFields_cons_of_le {buf : List Byte} {p v : ℕ} (vs : List ℕ)
    (h : p + (toChars v).length + 1 ≤ buf.length) :
    ∃ buf', writeFields buf p (v :: vs) = writeFields buf' (p + (toChars v).length + 1) vs ∧
      buf'.length = buf.length ∧
      buf'.take (p + (toChars v).length + 1) = buf.take p ++ (toChars v ++ [sepAfter vs]) := by
  have h₁ : p + (toChars v).length ≤ buf.length := by omega
  have h₂ : p + (toChars v).length + [sepAfter vs].length ≤ (writeAt buf p (toChars v)).length := by
    rw [length_writeAt h₁, List.length_singleton]; exact h
  refine ⟨writeAt (writeAt buf p (toChars v)) (p + (toChars v).length) [sepAfter vs], ?_,
    (length_writeAt h₂).trans (length_writeAt h₁), ?_⟩
  · rw [writeFields, show toCharsAt buf p v = _ from if_pos h₁]
    dsimp only
    rw [copyAt, if_pos h₂, Option.some_bind]
  · have := take_writeAt h₂
    rwa [take_writeAt h₁, List.length_singleton, List.append_assoc] at this

/-- A value and its delimiter that do not fit: the delimiter is stored past the
end, after a `to_chars` that failed or one that filled the buffer. -/
theorem writeFields_cons_of_lt {buf : List Byte} {p v : ℕ} (vs : List ℕ)
    (h : ¬p + (toChars v).length + 1 ≤ buf.length) : writeFields buf p (v :: vs) = none := by
  rw [writeFields, toCharsAt]
  split <;> dsimp only
  · rw [copyAt, if_neg (by rw [length_writeAt ‹_›, List.length_singleton]; exact h), Option.none_bind]
  · rw [copyAt, if_neg (by simp), Option.none_bind]

/-- **The numbers of a line that fits** are stored after position `p`, and the
buffer before `p` is kept. -/
theorem writeFields_eq_some {vs : List ℕ} : ∀ {buf : List Byte} {p : ℕ},
    p + (fieldsText vs).length ≤ buf.length →
    ∃ buf', writeFields buf p vs = some (buf', p + (fieldsText vs).length) ∧
      buf'.length = buf.length ∧ buf'.take (p + (fieldsText vs).length) = buf.take p ++ fieldsText vs := by
  induction vs with
  | nil => intro buf p _; exact ⟨buf, rfl, rfl, by simp⟩
  | cons v vs ih =>
    intro buf p h
    have e : p + (fieldsText (v :: vs)).length = p + (toChars v).length + 1 + (fieldsText vs).length := by
      rw [fieldsText_cons, List.length_append, List.length_cons]; omega
    rw [e] at h ⊢
    obtain ⟨buf₁, hw₁, hl₁, ht₁⟩ := writeFields_cons_of_le vs (show p + (toChars v).length + 1 ≤ buf.length by omega)
    obtain ⟨buf', hw, hlen, htake⟩ := @ih buf₁ (p + (toChars v).length + 1) (by omega)
    refine ⟨buf', hw₁.trans hw, hlen.trans hl₁, ?_⟩
    rw [htake, ht₁, fieldsText_cons]
    simp

/-- **A line that does not fit stores past the end**: some `*tcr.ptr++` lands on
`buf_end`, after a `to_chars` that failed or one that filled the buffer. -/
theorem writeFields_eq_none {vs : List ℕ} : ∀ {buf : List Byte} {p : ℕ}, p ≤ buf.length →
    buf.length < p + (fieldsText vs).length → writeFields buf p vs = none := by
  induction vs with
  | nil => intro buf p hp h; simp at h; omega
  | cons v vs ih =>
    intro buf p hp h
    rw [fieldsText_cons, List.length_append, List.length_cons] at h
    by_cases hv : p + (toChars v).length + 1 ≤ buf.length
    · obtain ⟨buf₁, hw₁, hl₁, -⟩ := writeFields_cons_of_le vs hv
      rw [hw₁]
      exact ih (by omega) (by omega)
    · exact writeFields_cons_of_lt vs hv

/-- The buffer's `512` bytes start with `name` and `'\t'`. -/
def HoldsName (name buf : List Byte) : Prop :=
  buf.length = lineBufSize ∧ buf.take (name.length + 1) = name ++ [tab]

theorem writeName_eq_some {name buf : List Byte} (hlen : buf.length = lineBufSize)
    (h : name.length + 1 ≤ lineBufSize) : ∃ buf', writeName name buf = some buf' ∧ HoldsName name buf' := by
  have h₁ : 0 + name.length ≤ buf.length := by omega
  have hl₁ := length_writeAt h₁
  have h₂ : name.length + [tab].length ≤ (writeAt buf 0 name).length := by
    rw [hl₁, List.length_singleton]; omega
  refine ⟨_, by rw [writeName, copyAt, if_pos h₁, Option.some_bind, copyAt, if_pos h₂], ?_, ?_⟩
  · rw [length_writeAt h₂, hl₁, hlen]
  · have h₁' := take_writeAt h₁
    have h₂' := take_writeAt h₂
    rw [Nat.zero_add, List.take_zero, List.nil_append] at h₁'
    rwa [List.length_singleton, h₁'] at h₂'

theorem writeName_eq_none {name buf : List Byte} (h : buf.length < name.length + 1) :
    writeName name buf = none := by
  rw [writeName, copyAt]
  split
  · rw [Option.some_bind, copyAt, if_neg]
    rw [length_writeAt ‹_›, List.length_singleton]
    omega
  · rfl

/-- **A line keeps the name in front**: when it fits, `out` gets the plain line
and the buffer still starts with the name. -/
theorem writeLine_spec {name buf : List Byte} (hb : HoldsName name buf) {vs : List ℕ}
    (hfit : (lineText name vs).length ≤ lineBufSize) (out : List Byte) :
    ∃ buf', writeLine name.length vs (buf, out) = some (buf', out ++ lineText name vs) ∧
      HoldsName name buf' := by
  simp only [lineText, List.length_append, List.length_cons] at hfit
  have hroom : name.length + 1 + (fieldsText vs).length ≤ buf.length := by rw [hb.1]; omega
  obtain ⟨buf', hw, hlen, htake⟩ := writeFields_eq_some hroom
  refine ⟨buf', by rw [writeLine, hw, Option.map_some', htake, hb.2, lineText]; simp,
    hlen.trans hb.1, ?_⟩
  have := congrArg (List.take (name.length + 1)) htake
  rwa [List.take_take, min_eq_left (by omega), hb.2, List.take_left' (by simp)] at this

/-- A loop whose every step appends its item's text to `out` and keeps an
invariant of the buffer appends the texts of all its items. -/
theorem foldlM_appends {α : Type} (Inv : List Byte → Prop)
    {f : List Byte × List Byte → α → Option (List Byte × List Byte)} {g : α → List Byte} :
    ∀ {l : List α}, (∀ x ∈ l, ∀ buf out, Inv buf →
      ∃ buf', f (buf, out) x = some (buf', out ++ g x) ∧ Inv buf') →
    ∀ {buf : List Byte}, Inv buf → ∀ out,
      ∃ buf', l.foldlM f (buf, out) = some (buf', out ++ l.flatMap g) ∧ Inv buf'
  | [], _, buf, hb, out => ⟨buf, by simp, hb⟩
  | x :: l, hf, _, hb, out => by
    obtain ⟨buf₁, h₁, hb₁⟩ := hf x (List.mem_cons_self _ _) _ out hb
    obtain ⟨buf₂, h₂, hb₂⟩ := foldlM_appends Inv (fun y hy => hf y (List.mem_cons_of_mem _ hy)) hb₁
      (out ++ g x)
    refine ⟨buf₂, ?_, hb₂⟩
    rw [List.foldlM_cons, h₁]
    exact h₂.trans (by rw [List.flatMap_cons, List.append_assoc])

/-! ### `write_intervals` -/

/-- `cpg_index_meta`, as far as the writers read it. -/
structure CpgIndexMeta where
  /-- `chrom_order`: the chromosomes' names. -/
  chromOrder : List (List Byte)
  /-- `chrom_size`. -/
  chromSize : List U32
  deriving DecidableEq, Repr

/-- A `genomic_interval`. -/
structure GenomicInterval where
  /-- `ch_id`: the chromosome's index in `chrom_order`. -/
  chId : ℕ
  /-- `start`. -/
  start : U32
  /-- `stop`. -/
  stop : U32
  deriving DecidableEq, Repr

/-- A result of the counting kernels: a `counts_res` (`n_meth`, `n_unmeth`), or
a `counts_res_cov`, which adds `n_covered`. -/
structure CountsRes where
  /-- `n_meth`. -/
  nMeth : U32
  /-- `n_unmeth`. -/
  nUnmeth : U32
  /-- `n_covered`, for a `counts_res_cov`. -/
  nCovered : Option U32
  deriving DecidableEq, Repr

/-- The counts a line prints: `n_unmeth` after `n_meth`, and `n_covered` after
them when the results are `counts_res_cov` (the `if constexpr`). -/
def CountsRes.values (r : CountsRes) : List ℕ :=
  r.nMeth.val :: r.nUnmeth.val :: r.nCovered.toList.map Fin.val

/-- The numbers of an interval's line. -/
def intervalValues (gi : GenomicInterval) (r : CountsRes) : List ℕ :=
  gi.start.val :: gi.stop.val :: r.values

/-- `same_chrom` of `write_intervals`. -/
def sameChrom (a b : GenomicInterval × CountsRes) : Bool := a.1.chId == b.1.chId

/-- One `chunk_by` run of `write_intervals`: the name of the chromosome of its
first interval, `cim.chrom_order[ch_id]`, then the run's lines. -/
def writeChunk (cim : CpgIndexMeta) (st : List Byte × List Byte)
    (chunk : List (GenomicInterval × CountsRes)) : Option (List Byte × List Byte) :=
  match chunk.head? with
  | none => some st
  | some x =>
    (cim.chromOrder[x.1.chId]?).bind fun name =>
      (writeName name st.1).bind fun buf =>
        chunk.foldlM (fun st y => writeLine name.length (intervalValues y.1 y.2) st) (buf, st.2)

/-- `write_intervals`: what it writes to `out`, or `none` on undefined
behaviour. -/
def writeIntervals (cim : CpgIndexMeta) (gis : List GenomicInterval) (results : List CountsRes) :
    Option (List Byte) :=
  (((gis.zip results).splitBy sameChrom).foldlM (writeChunk cim)
    (List.replicate lineBufSize 0, [])).map Prod.snd

/-- What `write_intervals` is meant to write: one plain line per interval. -/
def intervalsText (cim : CpgIndexMeta) (gis : List GenomicInterval) (results : List CountsRes) :
    List Byte :=
  (gis.zip results).flatMap fun x => lineText (cim.chromOrder.getD x.1.chId []) (intervalValues x.1 x.2)

/-- The intervals of a `chunk_by` run are all on the chromosome of the first. -/
theorem chId_eq_of_chain' : ∀ {x : GenomicInterval × CountsRes} {xs : List (GenomicInterval × CountsRes)},
    (x :: xs).Chain' (fun a b => sameChrom a b) → ∀ y ∈ x :: xs, y.1.chId = x.1.chId
  | x, [], _, y, hy => by rw [List.mem_singleton.mp hy]
  | x, z :: zs, h, y, hy => by
    obtain ⟨hxz, hzs⟩ := List.chain'_cons.mp h
    have hxz : z.1.chId = x.1.chId := (beq_iff_eq.mp hxz).symm
    rcases List.mem_cons.mp hy with rfl | hy
    · rfl
    · exact (chId_eq_of_chain' hzs y hy).trans hxz

/-- A run of intervals on one chromosome whose lines all fit writes them. -/
theorem writeChunk_spec {cim : CpgIndexMeta} {chunk : List (GenomicInterval × CountsRes)}
    (hchain : chunk.Chain' fun a b => sameChrom a b) (hne : chunk ≠ [])
    (hfit : ∀ x ∈ chunk, x.1.chId < cim.chromOrder.length ∧
      (lineText (cim.chromOrder.getD x.1.chId []) (intervalValues x.1 x.2)).length ≤ lineBufSize)
    {buf : List Byte} (hbuf : buf.length = lineBufSize) (out : List Byte) :
    ∃ buf', writeChunk cim (buf, out) chunk = some (buf', out ++ chunk.flatMap fun x =>
      lineText (cim.chromOrder.getD x.1.chId []) (intervalValues x.1 x.2)) ∧ buf'.length = lineBufSize := by
  obtain ⟨x, xs, rfl⟩ := List.exists_cons_of_ne_nil hne
  have hid := chId_eq_of_chain' hchain
  obtain ⟨hlt, hx⟩ := hfit x (List.mem_cons_self _ _)
  have hname : cim.chromOrder[x.1.chId]? = some (cim.chromOrder.getD x.1.chId []) := by
    rw [List.getD_eq_getElem?_getD, List.getElem?_eq_getElem hlt, Option.getD_some]
  have hroom : (cim.chromOrder.getD x.1.chId []).length + 1 ≤ lineBufSize := by
    simp only [lineText, List.length_append, List.length_cons] at hx
    omega
  obtain ⟨buf₁, hw, hb₁⟩ := writeName_eq_some hbuf hroom
  obtain ⟨buf₂, hl, hb₂⟩ := foldlM_appends (HoldsName (cim.chromOrder.getD x.1.chId []))
    (f := fun st y => writeLine (cim.chromOrder.getD x.1.chId []).length (intervalValues y.1 y.2) st)
    (l := x :: xs) (g := fun y => lineText (cim.chromOrder.getD x.1.chId []) (intervalValues y.1 y.2))
    (fun y hy buf out hb => @writeLine_spec _ buf hb (intervalValues y.1 y.2)
      (hid y hy ▸ (hfit y hy).2) out) hb₁ out
  refine ⟨buf₂, ?_, hb₂.1⟩
  rw [writeChunk, List.head?_cons]
  simp only [hname, Option.some_bind, hw, hl]
  exact congrArg (fun t => some (buf₂, out ++ t)) (List.flatMap_congr fun y hy => by rw [hid y hy])

/-- **`write_intervals` writes the plain format** when every interval's
chromosome is in `chrom_order` and every line fits in the buffer. -/
theorem writeIntervals_eq_intervalsText {cim : CpgIndexMeta} {gis : List GenomicInterval}
    {results : List CountsRes}
    (hfit : ∀ x ∈ gis.zip results, x.1.chId < cim.chromOrder.length ∧
      (lineText (cim.chromOrder.getD x.1.chId []) (intervalValues x.1 x.2)).length ≤ lineBufSize) :
    writeIntervals cim gis results = some (intervalsText cim gis results) := by
  have hmem : ∀ c ∈ (gis.zip results).splitBy sameChrom, ∀ x ∈ c, x ∈ gis.zip results :=
    fun c hc x hx => List.flatten_splitBy sameChrom (gis.zip results) ▸ List.mem_flatten.mpr ⟨c, hc, hx⟩
  obtain ⟨buf, h, -⟩ := foldlM_appends (fun buf => buf.length = lineBufSize)
    (fun c hc buf out hb => writeChunk_spec (List.chain'_of_mem_splitBy hc)
      (List.ne_nil_of_mem_splitBy _ hc) (fun x hx => hfit x (hmem c hc x hx)) hb out)
    (List.length_replicate _ _) []
  rw [writeIntervals, h, Option.map_some', List.nil_append, intervalsText]
  conv_rhs => rw [← List.flatten_splitBy sameChrom (gis.zip results)]
  rw [← List.flatMap_id, List.flatMap_assoc]
  rfl

/-! ### `write_bins` -/

/-- The line of a bin `b` of chromosome `name` with its result `r`. -/
def binText (name : List Byte) (b : U32 × U32) (r : CountsRes) : List Byte :=
  lineText name (b.1.val :: b.2.val :: r.values)

/-- The body of `write_bins`' bin loop: the bin's line with the result at
`results_itr`, then `++results_itr`; `none` when `results_itr` is at the end.
The state is the buffer, what `out` holds, and the results not yet printed. -/
def binLine (nameLen : ℕ) (binBeg binEnd : U32) (st : List Byte × List Byte × List CountsRes) :
    Option (List Byte × List Byte × List CountsRes) :=
  match st.2.2 with
  | [] => none
  | r :: rs =>
    (writeLine nameLen (binBeg.val :: binEnd.val :: r.values) (st.1, st.2.1)).map fun s => (s.1, s.2, rs)

/-- One chromosome `(chrom_size, chrom_name)` of `write_bins`: the name, then the
bin loop, given `fuel` iterations. -/
def writeChromBins (binSize : U32) (fuel : ℕ) (st : List Byte × List Byte × List CountsRes)
    (chrom : U32 × List Byte) : Option (List Byte × List Byte × List CountsRes) :=
  (writeName chrom.2 st.1).bind fun buf =>
    forBins chrom.1 binSize (binLine chrom.2.length) fuel 0 (buf, st.2)

/-- `write_bins`: what it writes to `out`, or `none` on undefined behaviour or
when a bin loop runs out of fuel. -/
def writeBins (cim : CpgIndexMeta) (binSize : U32) (results : List CountsRes) (fuel : ℕ) :
    Option (List Byte) :=
  ((cim.chromSize.zip cim.chromOrder).foldlM (writeChromBins binSize fuel)
    (List.replicate lineBufSize 0, [], results)).map fun st => st.2.1

/-- The bins of every chromosome in order, each with its chromosome's name. -/
def binLines (cim : CpgIndexMeta) (binSize : U32) : List (List Byte × U32 × U32) :=
  (cim.chromSize.zip cim.chromOrder).flatMap fun c => (binBounds c.1 binSize).map fun b => (c.2, b)

/-- What `write_bins` is meant to write: one plain line per bin, with the
results in order. -/
def binsText (cim : CpgIndexMeta) (binSize : U32) (results : List CountsRes) : List Byte :=
  ((binLines cim binSize).zip results).flatMap fun x => binText x.1.1 x.1.2 x.2

theorem zip_append_left {α β : Type} {A : List α} (B : List α) :
    ∀ {rs : List β}, A.length ≤ rs.length → (A ++ B).zip rs = A.zip rs ++ B.zip (rs.drop A.length) := by
  induction A with
  | nil => intro rs _; rfl
  | cons a A ih =>
    intro rs h
    obtain ⟨r, rs, rfl⟩ := List.exists_cons_of_length_pos (by simp at h; omega : 0 < rs.length)
    simp only [List.cons_append, List.zip_cons_cons, List.length_cons, List.drop_succ_cons,
      ih (by simpa using h)]

/-- The bin loop of one chromosome, when every line fits, prints its bins with
the next results. -/
theorem foldlM_binLine {name : List Byte} :
    ∀ (bs : List (U32 × U32)) {buf : List Byte} (out : List Byte) (rs : List CountsRes), HoldsName name buf →
    bs.length ≤ rs.length →
    (∀ x ∈ (bs.map fun b => (name, b)).zip rs, (binText x.1.1 x.1.2 x.2).length ≤ lineBufSize) →
    ∃ buf', bs.foldlM (fun st b => binLine name.length b.1 b.2 st) (buf, out, rs) =
      some (buf', out ++ ((bs.map fun b => (name, b)).zip rs).flatMap (fun x => binText x.1.1 x.1.2 x.2),
        rs.drop bs.length) ∧ HoldsName name buf'
  | [], buf, out, rs, hb, _, _ => ⟨buf, by simp, hb⟩
  | b :: bs, buf, out, rs, hb, hlen, hfit => by
    obtain ⟨r, rs, rfl⟩ := List.exists_cons_of_length_pos (by simp at hlen; omega : 0 < rs.length)
    simp only [List.map_cons, List.zip_cons_cons, List.mem_cons, forall_eq_or_imp] at hfit
    obtain ⟨buf₁, h₁, hb₁⟩ := writeLine_spec hb hfit.1 out
    obtain ⟨buf₂, h₂, hb₂⟩ := foldlM_binLine bs (out ++ binText name b r) rs hb₁ (by simpa using hlen)
      hfit.2
    refine ⟨buf₂, ?_, hb₂⟩
    rw [List.foldlM_cons]
    simp only [binLine, h₁, Option.map_some']
    exact h₂.trans (by simp [binText])

/-- `write_bins` over a list of chromosomes. -/
theorem foldlM_writeChromBins {binSize : U32} {fuel : ℕ} (hB : 0 < binSize.val) :
    ∀ (cs : List (U32 × List Byte)) {buf : List Byte} (out : List Byte) (rs : List CountsRes),
    buf.length = lineBufSize →
    (∀ c ∈ cs, c.1.val + binSize.val ≤ 2 ^ 32 ∧ ceilDiv c.1.val binSize.val ≤ fuel ∧
      c.2.length < lineBufSize) →
    (cs.flatMap fun c => (binBounds c.1 binSize).map fun b => (c.2, b)).length ≤ rs.length →
    (∀ x ∈ (cs.flatMap fun c => (binBounds c.1 binSize).map fun b => (c.2, b)).zip rs,
      (binText x.1.1 x.1.2 x.2).length ≤ lineBufSize) →
    ∃ buf' rs', cs.foldlM (writeChromBins binSize fuel) (buf, out, rs) =
      some (buf', out ++ ((cs.flatMap fun c => (binBounds c.1 binSize).map fun b => (c.2, b)).zip rs).flatMap
        (fun x => binText x.1.1 x.1.2 x.2), rs') ∧ buf'.length = lineBufSize
  | [], buf, out, rs, hb, _, _, _ => ⟨buf, rs, by simp, hb⟩
  | c :: cs, buf, out, rs, hb, hc, hlen, hfit => by
    obtain ⟨hwrap, hfuel, hname⟩ := hc c (List.mem_cons_self _ _)
    rw [List.flatMap_cons] at hlen hfit ⊢
    rw [List.length_append] at hlen
    rw [zip_append_left _ (by omega)] at hfit ⊢
    simp only [List.mem_append, or_imp, forall_and] at hfit
    obtain ⟨buf₁, hw, hb₁⟩ := writeName_eq_some hb (by omega : c.2.length + 1 ≤ lineBufSize)
    obtain ⟨buf₂, hl, hb₂⟩ := foldlM_binLine (binBounds c.1 binSize) out rs hb₁
      (by simp only [List.length_map] at hlen ⊢; omega) hfit.1
    obtain ⟨buf₃, rs₃, h₃, hb₃⟩ := foldlM_writeChromBins hB cs (out ++
      ((((binBounds c.1 binSize).map fun b => (c.2, b)).zip rs).flatMap fun x => binText x.1.1 x.1.2 x.2))
      (rs.drop ((binBounds c.1 binSize).map fun b => (c.2, b)).length) hb₂.1
      (fun c hc' => hc c (List.mem_cons_of_mem _ hc')) (by simp only [List.length_drop]; omega) hfit.2
    refine ⟨buf₃, rs₃, ?_, hb₃⟩
    rw [List.foldlM_cons, writeChromBins, hw, Option.some_bind, forBins_eq_foldlM _ hB hwrap hfuel, hl]
    rw [List.length_map] at h₃
    exact h₃.trans (by simp only [List.append_assoc, List.length_map, List.flatMap_append])

/-- **`write_bins` writes the plain format** when no chromosome's `i + bin_size`
wraps, each bin loop has fuel for its `⌈chrom_size / bin_size⌉` bins, there is a
result for every bin, and every name and every line fits in the buffer. -/
theorem writeBins_eq_binsText {cim : CpgIndexMeta} {binSize : U32} {results : List CountsRes}
    {fuel : ℕ} (hB : 0 < binSize.val)
    (hchrom : ∀ c ∈ cim.chromSize.zip cim.chromOrder, c.1.val + binSize.val ≤ 2 ^ 32 ∧
      ceilDiv c.1.val binSize.val ≤ fuel ∧ c.2.length < lineBufSize)
    (hres : (binLines cim binSize).length ≤ results.length)
    (hfit : ∀ x ∈ (binLines cim binSize).zip results, (binText x.1.1 x.1.2 x.2).length ≤ lineBufSize) :
    writeBins cim binSize results fuel = some (binsText cim binSize results) := by
  obtain ⟨buf, rs, h, -⟩ := foldlM_writeChromBins hB _ [] results (List.length_replicate _ _) hchrom
    hres hfit
  rw [writeBins, h, Option.map_some', List.nil_append]
  rfl

/-- **A name of `512` bytes overflows the buffer.** Copying it fills the whole
buffer, and the store of its delimiter, `buf[512] = '\t'`, is past the end: in
`write_intervals` for its one interval, and in `write_bins` for its one bin. -/
theorem writers_long_name :
    writeIntervals ⟨[List.replicate 512 65], [1]⟩ [⟨0, 0, 1⟩] [⟨0, 0, none⟩] = none ∧
      writeBins ⟨[List.replicate 512 65], [1]⟩ 1 [⟨0, 0, none⟩] 1 = none := by
  have hn : writeName (List.replicate 512 65) (List.replicate lineBufSize 0) = none :=
    writeName_eq_none (by rw [List.length_replicate, List.length_replicate]; decide)
  constructor
  · rw [writeIntervals, show List.splitBy sameChrom (([⟨0, 0, 1⟩] : List GenomicInterval).zip
      [(⟨0, 0, none⟩ : CountsRes)]) = [[(⟨0, 0, 1⟩, ⟨0, 0, none⟩)]] from rfl]
    simp only [List.foldlM_cons, List.foldlM_nil, writeChunk, List.head?_cons, bind_pure,
      List.getElem?_cons_zero, Option.some_bind, hn, Option.none_bind, Option.map_none']
  · rw [writeBins]
    simp only [List.zip_cons_cons, List.zip_nil_left, List.foldlM_cons, List.foldlM_nil, bind_pure,
      writeChromBins, hn, Option.none_bind, Option.map_none']

/-! ### Names that always fit -/

/-- Each number of a line takes at most eleven bytes with its separator: a
`uint32_t` has at most ten digits. -/
theorem length_fieldsText_le {vs : List ℕ} (hvs : ∀ v ∈ vs, v < 2 ^ 32) :
    (fieldsText vs).length ≤ 11 * vs.length := by
  induction vs with
  | nil => simp [fieldsText]
  | cons v vs ih =>
    have h₁ := length_toChars_le (hvs v (List.mem_cons_self _ _))
    have h₂ := ih fun w hw => hvs w (List.mem_cons_of_mem _ hw)
    rw [fieldsText_cons, List.length_append, List.length_cons, List.length_cons]
    omega

/-- A line of two coordinates and the counts after a name of at most `456` bytes
fits in the buffer: at most five numbers of at most ten digits each. -/
theorem length_lineText_coords_le {name : List Byte} (hname : name.length ≤ 456) (x y : U32)
    (r : CountsRes) : (lineText name (x.val :: y.val :: r.values)).length ≤ lineBufSize := by
  have hvs : ∀ v ∈ x.val :: y.val :: r.values, v < 2 ^ 32 := by
    simp only [CountsRes.values, List.mem_cons, List.mem_map, Option.mem_toList]
    rintro v (rfl | rfl | rfl | rfl | ⟨w, -, rfl⟩) <;> exact Fin.isLt _
  have hlen : (x.val :: y.val :: r.values).length ≤ 5 := by
    cases h : r.nCovered <;> simp [CountsRes.values, h]
  have := length_fieldsText_le hvs
  rw [lineText, List.length_append, List.length_cons, lineBufSize]
  omega

/-- **`write_intervals` writes the plain format for every name of at most `456`
bytes**, whatever the coordinates and the counts, as long as each interval's
chromosome is in `chrom_order`. -/
theorem writeIntervals_of_short_names {cim : CpgIndexMeta} {gis : List GenomicInterval}
    {results : List CountsRes} (hch : ∀ gi ∈ gis, gi.chId < cim.chromOrder.length)
    (hname : ∀ name ∈ cim.chromOrder, name.length ≤ 456) :
    writeIntervals cim gis results = some (intervalsText cim gis results) :=
  writeIntervals_eq_intervalsText fun x hx =>
    have hc := hch x.1 (List.of_mem_zip hx).1
    ⟨hc, length_lineText_coords_le (hname _ (by
      rw [List.getD_eq_getElem?_getD, List.getElem?_eq_getElem hc, Option.getD_some]
      exact List.getElem_mem hc)) _ _ _⟩

/-- Two intervals on one chromosome `c1`. -/
theorem writeIntervals_of_short_names_c1 :
    writeIntervals ⟨[[99, 49]], [100]⟩ [⟨0, 10, 20⟩, ⟨0, 30, 40⟩] [⟨3, 4, none⟩, ⟨5, 6, none⟩] =
      some (intervalsText ⟨[[99, 49]], [100]⟩ [⟨0, 10, 20⟩, ⟨0, 30, 40⟩]
        [⟨3, 4, none⟩, ⟨5, 6, none⟩]) :=
  writeIntervals_of_short_names (by decide) (by decide)

/-- **`write_bins` writes the plain format for every name of at most `456`
bytes**, when no chromosome's `i + bin_size` wraps, each bin loop has fuel for
its `⌈chrom_size / bin_size⌉` bins and there is a result for every bin. -/
theorem writeBins_of_short_names {cim : CpgIndexMeta} {binSize : U32} {results : List CountsRes}
    {fuel : ℕ} (hB : 0 < binSize.val)
    (hchrom : ∀ c ∈ cim.chromSize.zip cim.chromOrder,
      c.1.val + binSize.val ≤ 2 ^ 32 ∧ ceilDiv c.1.val binSize.val ≤ fuel)
    (hname : ∀ name ∈ cim.chromOrder, name.length ≤ 456)
    (hres : (binLines cim binSize).length ≤ results.length) :
    writeBins cim binSize results fuel = some (binsText cim binSize results) := by
  refine writeBins_eq_binsText hB (fun c hc => ⟨(hchrom c hc).1, (hchrom c hc).2, ?_⟩) hres
    fun x hx => length_lineText_coords_le ?_ _ _ _
  · have := hname c.2 (List.of_mem_zip hc).2
    rw [lineBufSize]
    omega
  · obtain ⟨c, hc, hb⟩ := List.mem_flatMap.mp (List.of_mem_zip hx).1
    obtain ⟨b, -, hb⟩ := List.mem_map.mp hb
    rw [← hb]
    exact hname c.2 (List.of_mem_zip hc).2

/-- One chromosome `c1` of five bases in bins of two. -/
theorem writeBins_of_short_names_c1 :
    writeBins ⟨[[99, 49]], [5]⟩ 2 [⟨1, 0, none⟩, ⟨0, 1, none⟩, ⟨2, 2, none⟩] 3 =
      some (binsText ⟨[[99, 49]], [5]⟩ 2 [⟨1, 0, none⟩, ⟨0, 1, none⟩, ⟨2, 2, none⟩]) :=
  writeBins_of_short_names (by decide) (by decide) (by decide) (by decide)

end Mxe
