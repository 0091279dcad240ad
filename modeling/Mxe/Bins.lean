import Mxe.BinLoop
import Mathlib.Data.List.GetD

/-!
# The bins kernel

`bins_main` walks every chromosome of a CpG index in bins of `bin_size` bases,
and for each bin `bin_counts` sums the methylome records of the CpGs whose
position falls in the bin. Two cursors move in lockstep: one over the
chromosome's sorted CpG positions, one over the methylome's records, started at
the chromosome's offset. Neither is ever reset within a chromosome, so each bin
picks up where the previous one stopped.

This file states what that computes, in the words of the specification –
`Mxe.binsSpec`: for each chromosome in index order and each bin
`[k · B, min((k + 1) · B, chrom_size))`, the sums of the values of `m` and `u`
and the number of covered records over exactly the records
`cpgs[chrom_offset + j]` whose position `positions[j]` lies in the bin, each
modulo `2 ^ 32` – and proves
that `bins_main` computes it on every well-formed index and methylome, whenever
no `i + bin_size` wraps (`Mxe.binsMain_eq_binsSpec`).

The proof has three layers. Sortedness turns "the positions below `x`" into a
prefix of the position list (`Mxe.getElem_lt_iff_lt_below`), so that the
records of a bin are a contiguous slice (`Mxe.binRecords_eq_slice`).
`Mxe.binCounts_eq` says what one call of `bin_counts` does to the cursors.
And the state before bin `k` is named (`Mxe.chromState`), so that the loop over
the bins is a fold whose every step moves one named state to the next
(`Mxe.foldlM_of_step`).
-/

namespace Mxe

/-! ### Data -/

/-- The fields of a `cpg_index` that `bins_main` reads. -/
structure CpgIndex where
  /-- `positions`: the CpG positions of each chromosome. -/
  positions : List (List U32)
  /-- `chrom_size`. -/
  chromSize : List U32
  /-- `chrom_offset`: where each chromosome's records start in a methylome. -/
  chromOffset : List U32
  /-- `n_cpgs_total`. -/
  nCpgsTotal : U32
  deriving DecidableEq, Repr

/-- The representation invariant of a CpG index: one entry per chromosome in
each list; the positions of a chromosome strictly ascending and below its size;
each offset the number of CpGs on the chromosomes before it; and the total the
number of all CpGs. -/
structure CpgIndex.Valid (index : CpgIndex) : Prop where
  length_chromSize : index.chromSize.length = index.positions.length
  length_chromOffset : index.chromOffset.length = index.positions.length
  sorted : ∀ ps ∈ index.positions, ps.Pairwise (· < ·)
  lt_chromSize : ∀ i < index.positions.length, ∀ p ∈ index.positions.getD i [],
    p.val < (index.chromSize.getD i 0).val
  chromOffset_eq : ∀ i < index.positions.length,
    (index.chromOffset.getD i 0).val = ((index.positions.take i).map List.length).sum
  nCpgsTotal_eq : index.nCpgsTotal.val = (index.positions.map List.length).sum

/-- A `methylome`: its records `cpgs`, one `(n_meth, n_unmeth)` pair per CpG. -/
structure Methylome where
  /-- `cpgs`. -/
  cpgs : List (U16 × U16)
  deriving DecidableEq, Repr

/-- A `uint16_t` count promoted for addition to a `uint32_t` accumulator. -/
def widen (x : U16) : U32 := ⟨x.val, by omega⟩

/-- One iteration of `bin_counts`:
`n_meth += first; n_unmeth += second; n_covered += (first + second > 0)`. -/
def addRecord (acc : U32 × U32 × U32) (r : U16 × U16) : U32 × U32 × U32 :=
  (acc.1 + widen r.1, acc.2.1 + widen r.2, acc.2.2 + if 0 < r.1.val + r.2.val then 1 else 0)

/-! ### The code -/

/-- `bin_counts`: while the position cursor is not at the end and points below
`bin_end`, add the record under the CpG cursor and advance both. The position
cursor is the list of positions left; the CpG cursor is an index into `cpgs`,
and reading outside `cpgs` is `none`. It returns the counts and both cursors. -/
def binCounts (cpgs : List (U16 × U16)) (binEnd : U32) (acc : U32 × U32 × U32) :
    List U32 → ℕ → Option ((U32 × U32 × U32) × List U32 × ℕ)
  | [], c => some (acc, [], c)
  | p :: ps, c =>
    if p < binEnd then
      match cpgs[c]? with
      | none => none
      | some r => binCounts cpgs binEnd (addRecord acc r) ps (c + 1)
    else some (acc, p :: ps, c)

/-- The body of the bin loop of `bins_main`:
`results.emplace_back(bin_counts(posn_itr, posn_end, bin_end, cpg_itr))`, with
the two cursors and `results` as the loop state. -/
def binStep (cpgs : List (U16 × U16)) (binEnd : U32) (st : List U32 × ℕ × List (U32 × U32 × U32)) :
    Option (List U32 × ℕ × List (U32 × U32 × U32)) :=
  (binCounts cpgs binEnd (0, 0, 0) st.1 st.2.1).map fun (counts, ps, c) => (ps, c, st.2.2 ++ [counts])

/-- The loop over one chromosome in `bins_main`: the position cursor starts at
`cbegin(positions)`, the CpG cursor at `cbegin(meth.cpgs) + offset`. -/
def chromBins (cpgs : List (U16 × U16)) (binSize : U32) (fuel : ℕ) (positions : List U32)
    (chromSize offset : U32) (results : List (U32 × U32 × U32)) :
    Option (List (U32 × U32 × U32)) :=
  (forBins chromSize binSize (fun _ binEnd st => binStep cpgs binEnd st) fuel 0
    (positions, offset.val, results)).map (·.2.2)

/-- `bins_main` after it has read the index and the methylome: the results for
every chromosome of `zip(positions, chrom_size, chrom_offset)`, in order. Each
bin loop is given `fuel` iterations. -/
def binsMain (index : CpgIndex) (meth : Methylome) (binSize : U32) (fuel : ℕ) :
    Option (List (U32 × U32 × U32)) :=
  (index.positions.zip (index.chromSize.zip index.chromOffset)).foldlM
    (fun results chrom => chromBins meth.cpgs binSize fuel chrom.1 chrom.2.1 chrom.2.2 results) []

/-! ### The specification -/

/-- The records of the bin `[lo, hi)` of a chromosome, in the words of the
specification: `cpgs[offset + j]` for each `j` with `lo ≤ positions[j] < hi`. -/
def binRecords (positions : List U32) (offset : ℕ) (cpgs : List (U16 × U16)) (lo hi : ℕ) :
    List (U16 × U16) :=
  ((List.range positions.length).filter fun j =>
      lo ≤ (positions.getD j 0).val ∧ (positions.getD j 0).val < hi).map
    fun j => cpgs.getD (offset + j) (0, 0)

/-- The sum of the values `m`, the sum of the values `u`, and the number of
records with `m + u > 0`, each taken modulo `2 ^ 32` as a `uint32_t` holds it. -/
def binTotals (recs : List (U16 × U16)) : U32 × U32 × U32 :=
  ((((recs.map fun r => r.1.val).sum : ℕ) : U32), (((recs.map fun r => r.2.val).sum : ℕ) : U32),
    ((recs.countP fun r => 0 < r.1.val + r.2.val : ℕ) : U32))

/-- **What `bins_main` is meant to compute**: for each chromosome `i` in index
order and each of its `⌈chrom_size[i] / B⌉` bins `k`, the totals of the records
whose position lies in `[k · B, min((k + 1) · B, chrom_size[i]))`. -/
def binsSpec (index : CpgIndex) (meth : Methylome) (binSize : U32) : List (U32 × U32 × U32) :=
  (List.range index.positions.length).flatMap fun i =>
    let S := (index.chromSize.getD i 0).val
    (List.range (ceilDiv S binSize.val)).map fun k =>
      binTotals (binRecords (index.positions.getD i []) (index.chromOffset.getD i 0).val meth.cpgs
        (k * binSize.val) (min ((k + 1) * binSize.val) S))

/-! ### Sorted positions -/

/-- The number of positions at the front of `ps` that are below `x`. -/
def below (ps : List U32) (x : ℕ) : ℕ := (ps.takeWhile fun p => p.val < x).length

theorem below_le_length (ps : List U32) (x : ℕ) : below ps x ≤ ps.length :=
  (List.takeWhile_prefix _).length_le

/-- **In a strictly ascending list the positions below `x` are a prefix**: the
`j`-th position is below `x` exactly when `j` is among the first `below ps x`. -/
theorem getElem_lt_iff_lt_below {ps : List U32} (hs : ps.Pairwise (· < ·)) (x : ℕ) :
    ∀ {j : ℕ} (hj : j < ps.length), ps[j].val < x ↔ j < below ps x := by
  induction ps with
  | nil => intro j hj; simp at hj
  | cons p ps ih =>
    rw [List.pairwise_cons] at hs
    intro j hj
    by_cases hp : p.val < x
    · have hb : below (p :: ps) x = below ps x + 1 := by simp [below, List.takeWhile_cons, hp]
      rw [hb]
      cases j with
      | zero => simpa using hp
      | succ j => simpa using ih hs.2 (j := j) (by simpa using hj)
    · have hb : below (p :: ps) x = 0 := by simp [below, List.takeWhile_cons, hp]
      rw [hb]
      cases j with
      | zero => simpa using hp
      | succ j =>
        have := hs.1 _ (List.getElem_mem (by simpa using hj))
        simp only [List.getElem_cons_succ, Nat.not_lt_zero, iff_false, not_lt]
        exact le_of_lt (lt_of_le_of_lt (not_lt.mp hp) (Fin.lt_def.mp this))

theorem below_le_below {ps : List U32} (hs : ps.Pairwise (· < ·)) {lo hi : ℕ} (hlh : lo ≤ hi) :
    below ps lo ≤ below ps hi := by
  by_contra hc
  have hj : below ps hi < ps.length := by have := below_le_length ps lo; omega
  have h1 := (getElem_lt_iff_lt_below hs lo hj).mpr (by omega)
  have h2 := (getElem_lt_iff_lt_below hs hi hj).mp (by omega)
  omega

/-- A `takeWhile` that stops after exactly `m` elements is `take m`. -/
theorem takeWhile_eq_take_of_iff {α : Type} {p : α → Bool} {l : List α} {m : ℕ}
    (h : ∀ i (hi : i < l.length), p l[i] = true ↔ i < m) :
    l.takeWhile p = l.take m ∧ l.dropWhile p = l.drop m := by
  induction l generalizing m with
  | nil => exact ⟨List.take_nil.symm, List.drop_nil.symm⟩
  | cons a l ih =>
    cases m with
    | zero =>
      have ha : ¬p a = true := fun ha => Nat.not_lt_zero 0 ((h 0 (Nat.zero_lt_succ _)).mp ha)
      rw [List.takeWhile_cons_of_neg ha, List.dropWhile_cons_of_neg ha]
      exact ⟨rfl, rfl⟩
    | succ m =>
      have ha : p a = true := (h 0 (Nat.zero_lt_succ _)).mpr (Nat.zero_lt_succ _)
      have := ih (m := m) fun i hi => by simpa using h (i + 1) (by simpa using hi)
      rw [List.takeWhile_cons_of_pos ha, List.dropWhile_cons_of_pos ha, this.1, this.2]
      exact ⟨rfl, rfl⟩

/-- From the first position at or above `lo`, the positions below `hi` are the
next `below ps hi - below ps lo`. -/
theorem takeWhile_drop_below {ps : List U32} (hs : ps.Pairwise (· < ·)) {lo hi : ℕ}
    (hlh : lo ≤ hi) :
    (ps.drop (below ps lo)).takeWhile (fun p => p.val < hi) =
        (ps.drop (below ps lo)).take (below ps hi - below ps lo) ∧
      (ps.drop (below ps lo)).dropWhile (fun p => p.val < hi) = ps.drop (below ps hi) := by
  have hle := below_le_below hs hlh
  have := takeWhile_eq_take_of_iff (p := fun p : U32 => decide (p.val < hi))
    (l := ps.drop (below ps lo)) (m := below ps hi - below ps lo) fun i hi' => by
      rw [List.getElem_drop, decide_eq_true_iff,
        getElem_lt_iff_lt_below hs hi (by simp at hi'; omega)]
      omega
  rw [this.2, List.drop_drop, Nat.add_comm, Nat.sub_add_cancel hle]
  exact ⟨this.1, rfl⟩

/-! ### One call of `bin_counts` -/

/-- **What `bin_counts` does**: it takes the positions below `bin_end` at the
front of the position cursor, advances the CpG cursor by as many, and adds up
the records it passes, provided they are all in `cpgs`. -/
theorem binCounts_eq (cpgs : List (U16 × U16)) (binEnd : U32) :
    ∀ (qs : List U32) (c : ℕ) (acc : U32 × U32 × U32),
      c + (qs.takeWhile fun p => p.val < binEnd.val).length ≤ cpgs.length →
      binCounts cpgs binEnd acc qs c =
        some (((cpgs.drop c).take (qs.takeWhile fun p => p.val < binEnd.val).length).foldl
            addRecord acc,
          qs.dropWhile (fun p => p.val < binEnd.val),
          c + (qs.takeWhile fun p => p.val < binEnd.val).length) := by
  intro qs
  induction qs with
  | nil => intro c acc _; simp [binCounts]
  | cons p ps ih =>
    intro c acc hc
    by_cases hp : p.val < binEnd.val
    · have hlen : ((p :: ps).takeWhile fun p => p.val < binEnd.val).length =
          (ps.takeWhile fun p => p.val < binEnd.val).length + 1 := by
        simp [List.takeWhile_cons, show p < binEnd from hp]
      rw [hlen] at hc ⊢
      have hb : binCounts cpgs binEnd acc (p :: ps) c =
          binCounts cpgs binEnd (addRecord acc cpgs[c]) ps (c + 1) := by
        simp [binCounts, Fin.lt_def.mpr hp, List.getElem?_eq_getElem (show c < cpgs.length by omega)]
      rw [hb, ih (c + 1) (addRecord acc cpgs[c]) (by omega)]
      simp only [List.dropWhile_cons_of_pos (p := fun q : U32 => decide (q.val < binEnd.val)) (by simpa using hp),
        List.drop_eq_getElem_cons (show c < cpgs.length by omega), List.take_succ_cons,
        List.foldl_cons, Nat.add_right_comm c 1, Nat.add_assoc]
    · have hlen : ((p :: ps).takeWhile fun p => p.val < binEnd.val).length = 0 := by
        simp [List.takeWhile_cons, show ¬p < binEnd from hp]
      rw [hlen, binCounts, if_neg (fun h => hp (Fin.lt_def.mp h)),
        List.dropWhile_cons_of_neg (by simpa using hp)]
      rfl

/-- The promotion keeps the count's value. -/
theorem widen_eq_natCast (x : U16) : widen x = (x.val : U32) :=
  Fin.ext (by rw [Fin.val_natCast, Nat.mod_eq_of_lt (by omega)]; rfl)

/-- Accumulating records one at a time adds their totals. -/
theorem foldl_addRecord (recs : List (U16 × U16)) :
    ∀ acc : U32 × U32 × U32, recs.foldl addRecord acc =
      (acc.1 + (binTotals recs).1, acc.2.1 + (binTotals recs).2.1, acc.2.2 + (binTotals recs).2.2) := by
  induction recs with
  | nil =>
    intro acc
    simp only [List.foldl_nil, binTotals, List.map_nil, List.sum_nil, List.countP_nil, Nat.cast_zero,
      add_zero]
  | cons r recs ih =>
    intro acc
    rw [List.foldl_cons, ih]
    simp only [addRecord, binTotals, List.map_cons, List.sum_cons, List.countP_cons,
      Nat.cast_add, Nat.cast_ite, Nat.cast_one, Nat.cast_zero, decide_eq_true_eq, add_assoc,
      widen_eq_natCast]
    split_ifs
    · rw [add_comm (1 : U32)]
    · rw [zero_add, add_zero]

theorem foldl_addRecord_zero (recs : List (U16 × U16)) : recs.foldl addRecord (0, 0, 0) = binTotals recs := by
  simp [foldl_addRecord]

/-! ### The records of a bin are a slice -/

theorem filter_range_interval (a b : ℕ) :
    ∀ n, (List.range n).filter (fun j => a ≤ j ∧ j < b) = List.range' a (min b n - a) := by
  intro n
  induction n with
  | zero => rw [List.range_zero, List.filter_nil, Nat.min_zero, Nat.zero_sub, List.range'_zero]
  | succ n ih =>
    rw [List.range_succ, List.filter_append, ih, List.filter_singleton]
    by_cases h : a ≤ n ∧ n < b
    · rw [decide_eq_true h, cond_true, show min b (n + 1) - a = min b n - a + 1 by omega,
        List.range'_concat, Nat.one_mul, show a + (min b n - a) = n by omega]
    · rw [decide_eq_false h, cond_false, List.append_nil, show min b (n + 1) - a = min b n - a by omega]

theorem map_range'_getD (l : List (U16 × U16)) (o a n : ℕ) (h : o + a + n ≤ l.length) :
    (List.range' a n).map (fun j => l.getD (o + j) (0, 0)) = (l.drop (o + a)).take n := by
  apply List.ext_getElem
  · rw [List.length_map, List.length_range', List.length_take, List.length_drop]; omega
  · intro i h₁ h₂
    have hi : i < n := by simpa using h₁
    simp only [List.getElem_map, List.getElem_range', List.getElem_take, List.getElem_drop]
    rw [List.getD_eq_getElem _ _ (by omega)]
    congr 1
    omega

/-- The positions of a bin are the indices from the first position at or above
`lo` to the last below `hi`. -/
theorem filter_bin_eq_range' {ps : List U32} (hs : ps.Pairwise (· < ·)) (lo hi : ℕ) :
    ((List.range ps.length).filter fun j => lo ≤ (ps.getD j 0).val ∧ (ps.getD j 0).val < hi) =
      List.range' (below ps lo) (below ps hi - below ps lo) := by
  have hf : ((List.range ps.length).filter fun j =>
      lo ≤ (ps.getD j 0).val ∧ (ps.getD j 0).val < hi) =
      (List.range ps.length).filter (fun j => below ps lo ≤ j ∧ j < below ps hi) := by
    apply List.filter_congr
    intro j hj
    have hj := List.mem_range.mp hj
    rw [List.getD_eq_getElem _ _ hj, decide_eq_decide]
    have h₁ := getElem_lt_iff_lt_below hs lo hj
    have h₂ := getElem_lt_iff_lt_below hs hi hj
    omega
  rw [hf, filter_range_interval, min_eq_left (below_le_length ps hi)]

/-- **The records of a bin are a slice of the methylome**: those of the CpGs
from the first at or above `lo` to the last below `hi`. -/
theorem binRecords_eq_slice {ps : List U32} (hs : ps.Pairwise (· < ·)) {offset : ℕ}
    {cpgs : List (U16 × U16)} (hcpgs : offset + ps.length ≤ cpgs.length) {lo hi : ℕ}
    (hlh : lo ≤ hi) :
    binRecords ps offset cpgs lo hi =
      (cpgs.drop (offset + below ps lo)).take (below ps hi - below ps lo) := by
  rw [binRecords, filter_bin_eq_range' hs lo hi, map_range'_getD]
  have := below_le_length ps hi
  have := below_le_below hs hlh
  omega

/-! ### The loop over the bins of one chromosome -/

/-- **A fold that moves each named state to the next** ends in the last one. -/
theorem foldlM_of_step {α σ : Type} (f : σ → α → Option σ) :
    ∀ (L : List α) (S : ℕ → σ), (∀ k (hk : k < L.length), f (S k) L[k] = some (S (k + 1))) →
      L.foldlM f (S 0) = some (S L.length)
  | [], _, _ => rfl
  | a :: L, S, h => by
    have h0 : f (S 0) a = some (S 1) := h 0 (by simp)
    rw [List.foldlM_cons, h0]
    exact foldlM_of_step f L (fun k => S (k + 1)) fun k hk => h (k + 1) (by simpa using hk)

@[simp] theorem below_zero (ps : List U32) : below ps 0 = 0 := by
  cases ps <;> simp [below, List.takeWhile_cons]

/-- The totals of bin `k` of a chromosome, as the specification has them. -/
def specBin (cpgs : List (U16 × U16)) (binSize chromSize : U32) (ps : List U32) (offset : ℕ)
    (k : ℕ) : U32 × U32 × U32 :=
  binTotals (binRecords ps offset cpgs (k * binSize.val) (min ((k + 1) * binSize.val) chromSize.val))

/-- The state of the bin loop of a chromosome before bin `k`: both cursors on the
first CpG at or above `min(k · B, chrom_size)`, and one result for each earlier
bin after the results of the earlier chromosomes. -/
def chromState (cpgs : List (U16 × U16)) (binSize chromSize : U32) (ps : List U32) (offset : ℕ)
    (results : List (U32 × U32 × U32)) (k : ℕ) : List U32 × ℕ × List (U32 × U32 × U32) :=
  (ps.drop (below ps (min (k * binSize.val) chromSize.val)),
    offset + below ps (min (k * binSize.val) chromSize.val),
    results ++ (List.range k).map (specBin cpgs binSize chromSize ps offset))

section Chromosome

variable {cpgs : List (U16 × U16)} {binSize chromSize : U32} {ps : List U32} {offset : ℕ}
  (hs : ps.Pairwise (· < ·)) (hcpgs : offset + ps.length ≤ cpgs.length)
  (hB : 0 < binSize.val) (hwrap : chromSize.val + binSize.val ≤ 2 ^ 32)
include hs hcpgs hB hwrap

/-- **One bin moves the loop state on to the next bin.** -/
theorem binStep_chromState (results : List (U32 × U32 × U32)) {k : ℕ}
    (hk : k < (binBounds chromSize binSize).length) :
    binStep cpgs (binBounds chromSize binSize)[k].2
        (chromState cpgs binSize chromSize ps offset results k) =
      some (chromState cpgs binSize chromSize ps offset results (k + 1)) := by
  rw [length_binBounds] at hk
  have hlt := lt_of_lt_ceilDiv hk
  obtain ⟨-, hend⟩ := val_binBounds hB hwrap hk
  have hlh : k * binSize.val ≤ min ((k + 1) * binSize.val) chromSize.val := by
    have := Nat.mul_le_mul_right binSize.val (Nat.le_add_right k 1)
    omega
  have hbk : (binBounds chromSize binSize)[k].2 = min (binStart binSize (k + 1)) chromSize := by
    simp only [binBounds, List.getElem_map, List.getElem_range]
  obtain ⟨htake, hdrop⟩ := takeWhile_drop_below hs hlh
  have hle := below_le_below hs hlh
  have hlen := below_le_length ps (min ((k + 1) * binSize.val) chromSize.val)
  simp only [chromState, binStep, hbk, min_eq_left hlt.le]
  rw [binCounts_eq _ _ _ _ _ (by rw [hend, htake, List.length_take, List.length_drop]; omega), hend, htake, hdrop]
  simp only [List.length_take, List.length_drop, Option.map_some', List.range_succ, List.map_append,
    List.map_singleton, List.append_assoc, specBin, foldl_addRecord_zero,
    binRecords_eq_slice hs hcpgs hlh, Option.some.injEq, Prod.mk.injEq, true_and]
  rw [min_eq_left (Nat.sub_le_sub_right hlen _)]
  exact ⟨by omega, rfl⟩

end Chromosome

/-- **The loop over the bins of a chromosome** appends, given enough fuel, the
specified totals of each of its bins. -/
theorem chromBins_eq {cpgs : List (U16 × U16)} {binSize chromSize offset : U32} {ps : List U32}
    (hs : ps.Pairwise (· < ·)) (hcpgs : offset.val + ps.length ≤ cpgs.length)
    (hB : 0 < binSize.val) (hwrap : chromSize.val + binSize.val ≤ 2 ^ 32) {fuel : ℕ}
    (hfuel : ceilDiv chromSize.val binSize.val ≤ fuel) (results : List (U32 × U32 × U32)) :
    chromBins cpgs binSize fuel ps chromSize offset results =
      some (results ++ (List.range (ceilDiv chromSize.val binSize.val)).map
        (specBin cpgs binSize chromSize ps offset.val)) := by
  have h0 : (ps, offset.val, results) = chromState cpgs binSize chromSize ps offset.val results 0 := by
    simp [chromState]
  rw [chromBins, forBins_eq_foldlM _ hB hwrap hfuel, h0,
    foldlM_of_step _ _ _ fun k hk => binStep_chromState hs hcpgs hB hwrap results hk,
    length_binBounds]
  rfl

/-! ### All chromosomes -/

/-- The records of a chromosome end within the methylome: its offset plus its
number of CpGs is at most the total. -/
theorem chromOffset_add_length_le {index : CpgIndex} (hindex : index.Valid) {i : ℕ}
    (hi : i < index.positions.length) :
    (index.chromOffset.getD i 0).val + index.positions[i].length ≤ index.nCpgsTotal.val := by
  rw [hindex.chromOffset_eq i hi, hindex.nCpgsTotal_eq]
  conv_rhs => rw [← List.take_append_drop i index.positions, List.drop_eq_getElem_cons hi]
  simp only [List.map_append, List.map_cons, List.sum_append, List.sum_cons]
  omega

/-- The specified results of the chromosomes before `i`. -/
def specPrefix (index : CpgIndex) (meth : Methylome) (binSize : U32) (i : ℕ) :
    List (U32 × U32 × U32) :=
  (List.range i).flatMap fun i =>
    (List.range (ceilDiv (index.chromSize.getD i 0).val binSize.val)).map
      (specBin meth.cpgs binSize (index.chromSize.getD i 0) (index.positions.getD i [])
        (index.chromOffset.getD i 0).val)

/-- The hypotheses under which `bins_main` computes its specification: a
well-formed index, one methylome record per CpG, `B ≥ 1` with no `i + B`
wrapping, and fuel for the longest bin loop. -/
structure BinsPre (index : CpgIndex) (meth : Methylome) (binSize : U32) (fuel : ℕ) : Prop where
  valid : index.Valid
  length_cpgs : meth.cpgs.length = index.nCpgsTotal.val
  pos : 0 < binSize.val
  no_wrap : ∀ S ∈ index.chromSize, S.val + binSize.val ≤ 2 ^ 32
  fuel_le : ∀ S ∈ index.chromSize, ceilDiv S.val binSize.val ≤ fuel

/-- `bins_main` runs through the chromosomes, each one appending its specified
bins. -/
theorem binsMain_eq_specPrefix {index : CpgIndex} {meth : Methylome} {binSize : U32} {fuel : ℕ}
    (h : BinsPre index meth binSize fuel) :
    binsMain index meth binSize fuel =
      some (specPrefix index meth binSize index.positions.length) := by
  have hindex := h.valid
  have hlen : (index.positions.zip (index.chromSize.zip index.chromOffset)).length =
      index.positions.length := by
    simp [hindex.length_chromSize, hindex.length_chromOffset]
  have hstep : ∀ i (hi : i < (index.positions.zip (index.chromSize.zip index.chromOffset)).length),
      chromBins meth.cpgs binSize fuel
          (index.positions.zip (index.chromSize.zip index.chromOffset))[i].1
          (index.positions.zip (index.chromSize.zip index.chromOffset))[i].2.1
          (index.positions.zip (index.chromSize.zip index.chromOffset))[i].2.2
          (specPrefix index meth binSize i) =
        some (specPrefix index meth binSize (i + 1)) := by
    intro i hi
    rw [hlen] at hi
    have hS : i < index.chromSize.length := by rw [hindex.length_chromSize]; exact hi
    have hO : i < index.chromOffset.length := by rw [hindex.length_chromOffset]; exact hi
    have hmem := List.getElem_mem hS
    simp only [List.getElem_zip]
    rw [chromBins_eq (hindex.sorted _ (List.getElem_mem hi))
      (by rw [h.length_cpgs, ← List.getD_eq_getElem _ 0 hO]; exact chromOffset_add_length_le hindex hi)
      h.pos (h.no_wrap _ hmem) (h.fuel_le _ hmem)]
    simp [specPrefix, List.range_succ, List.getElem?_eq_getElem hi, List.getElem?_eq_getElem hS,
      List.getElem?_eq_getElem hO]
  have := foldlM_of_step (fun results (chrom : List U32 × U32 × U32) =>
    chromBins meth.cpgs binSize fuel chrom.1 chrom.2.1 chrom.2.2 results) _
    (specPrefix index meth binSize) hstep
  rw [hlen] at this
  exact this

/-- **`bins_main` computes its specification.** On every well-formed CpG index,
every methylome with one record per CpG of the index and every bin size
`B ≥ 1` with which no `i + B` wraps, the results are, chromosome after
chromosome and bin after bin, the `uint32` totals of exactly the records whose
position lies in the bin – given fuel for the longest chromosome's bin loop. -/
theorem binsMain_eq_binsSpec {index : CpgIndex} (hindex : index.Valid) {meth : Methylome}
    (hmeth : meth.cpgs.length = index.nCpgsTotal.val) {binSize : U32} (hB : 0 < binSize.val)
    (hwrap : ∀ S ∈ index.chromSize, S.val + binSize.val ≤ 2 ^ 32) {fuel : ℕ}
    (hfuel : ∀ S ∈ index.chromSize, ceilDiv S.val binSize.val ≤ fuel) :
    binsMain index meth binSize fuel = some (binsSpec index meth binSize) :=
  binsMain_eq_specPrefix ⟨hindex, hmeth, hB, hwrap, hfuel⟩

/-- The two chromosomes of the specification's scenario, in bins of 4. -/
theorem binsMain_eq_binsSpec_scenario :
    CpgIndex.Valid ⟨[[2, 4, 6], [0]], [8, 2], [0, 3], 4⟩ ∧
      binsMain ⟨[[2, 4, 6], [0]], [8, 2], [0, 3], 4⟩ ⟨[(10, 0), (5, 5), (0, 20), (7, 3)]⟩ 4 2 =
        some (binsSpec ⟨[[2, 4, 6], [0]], [8, 2], [0, 3], 4⟩
          ⟨[(10, 0), (5, 5), (0, 20), (7, 3)]⟩ 4) := by
  have hv : CpgIndex.Valid ⟨[[2, 4, 6], [0]], [8, 2], [0, 3], 4⟩ :=
    ⟨rfl, rfl, by decide, by simp [Nat.forall_lt_succ], by decide, by decide⟩
  exact ⟨hv, binsMain_eq_binsSpec hv (by rfl) (by decide)
    (by simp only [List.forall_mem_cons, List.not_mem_nil, IsEmpty.forall_iff, implies_true, and_true]; decide)
    (by simp only [List.forall_mem_cons, List.not_mem_nil, IsEmpty.forall_iff, implies_true, and_true]; decide)⟩

example : binsSpec ⟨[[2, 4, 6], [0]], [8, 2], [0, 3], 4⟩ ⟨[(10, 0), (5, 5), (0, 20), (7, 3)]⟩ 4 =
    [(10, 0, 1), (5, 25, 2), (7, 3, 1)] := by
  decide

end Mxe
