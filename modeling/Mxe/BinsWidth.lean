import Mxe.Bins

/-!
# The width of the bin accumulators

`bin_counts` sums `uint16_t` counts into `uint32_t` accumulators. A record
contributes at most `65535`, and `65535 · 65537 = 2 ^ 32 - 1`, so a bin of at most
`65537` records never wraps; a bin of more can. The number of records in a bin
is the number of CpG positions in it, and positions are strictly ascending, so a
bin of `B` bases holds at most `B` records (`Mxe.length_binRecords_le`). Bins
span whole chromosomes when `B` is large, and nothing in `bins_main` bounds `B`.

So what the kernel computes is the sum modulo `2 ^ 32`, exact for every bin of
at most `65537` records, in particular for every bin size up to `65537`
(`Mxe.binsMain_sums`); a chromosome with `65538` CpGs each counted `65535` times,
in a single bin, wraps (`Mxe.binsMain_sum_wraps`).
-/

namespace Mxe

/-! ### Sums of counts -/

theorem sum_val_le {α : Type} (f : α → U16) (l : List α) :
    (l.map fun r => (f r).val).sum ≤ 65535 * l.length := by
  induction l with
  | nil => simp
  | cons r l ih =>
    rw [List.map_cons, List.sum_cons, List.length_cons]
    have := (f r).isLt
    omega

/-- **The totals of a bin are the sums modulo `2 ^ 32`.** -/
theorem binTotals_val (recs : List (U16 × U16)) :
    (binTotals recs).1.val = (recs.map fun r => r.1.val).sum % 2 ^ 32 ∧
      (binTotals recs).2.1.val = (recs.map fun r => r.2.val).sum % 2 ^ 32 :=
  ⟨Fin.val_natCast _ _, Fin.val_natCast _ _⟩

/-- At most `65537` records of at most `65535` each sum below `2 ^ 32`. -/
theorem sum_val_lt_of_length_le {α : Type} (f : α → U16) {l : List α} (h : l.length ≤ 65537) :
    (l.map fun r => (f r).val).sum < 2 ^ 32 := by
  have := sum_val_le f l
  omega

/-! ### How many records a bin holds -/

/-- Strictly ascending positions at least `d` apart are at least `d` apart in
value. -/
theorem getElem_add_le {ps : List U32} (hs : ps.Pairwise (· < ·)) {i : ℕ} :
    ∀ d (h : i + d < ps.length), ps[i].val + d ≤ ps[i + d].val := by
  intro d
  induction d with
  | zero => intro h; simp
  | succ d ih =>
    intro h
    have h₁ := ih (by omega)
    have h₂ := List.pairwise_iff_getElem.mp hs (i + d) (i + (d + 1)) (by omega) h (by omega)
    rw [Fin.lt_def] at h₂
    omega

/-- **A bin of `hi - lo` bases holds at most `hi - lo` records**, because the
positions are strictly ascending. -/
theorem length_binRecords_le {ps : List U32} (hs : ps.Pairwise (· < ·)) (offset : ℕ)
    (cpgs : List (U16 × U16)) (lo hi : ℕ) :
    (binRecords ps offset cpgs lo hi).length ≤ hi - lo := by
  rw [binRecords, List.length_map, filter_bin_eq_range' hs lo hi, List.length_range']
  by_cases hab : below ps hi ≤ below ps lo
  · omega
  · have hlen := below_le_length ps hi
    have hlo := (getElem_lt_iff_lt_below hs lo (j := below ps lo) (by omega)).not.mpr (by omega)
    have hhi := (getElem_lt_iff_lt_below hs hi (j := below ps hi - 1) (by omega)).mpr (by omega)
    have hgap := getElem_add_le hs (i := below ps lo) (below ps hi - 1 - below ps lo) (by omega)
    simp only [show below ps lo + (below ps hi - 1 - below ps lo) = below ps hi - 1 by omega]
      at hgap
    omega

/-! ### What the kernel emits -/

/-- The records of every bin, chromosome after chromosome and bin after bin, as
the specification has them. -/
def binsRecords (index : CpgIndex) (meth : Methylome) (binSize : U32) : List (List (U16 × U16)) :=
  (List.range index.positions.length).flatMap fun i =>
    let S := (index.chromSize.getD i 0).val
    (List.range (ceilDiv S binSize.val)).map fun k =>
      binRecords (index.positions.getD i []) (index.chromOffset.getD i 0).val meth.cpgs
        (k * binSize.val) (min ((k + 1) * binSize.val) S)

theorem binsSpec_eq_map (index : CpgIndex) (meth : Methylome) (binSize : U32) :
    binsSpec index meth binSize = (binsRecords index meth binSize).map binTotals := by
  simp only [binsSpec, binsRecords, List.map_flatMap, List.map_map]
  rfl

/-- Every bin of a well-formed index holds at most `B` records. -/
theorem length_le_of_mem_binsRecords {index : CpgIndex} (hindex : index.Valid) {meth : Methylome}
    {binSize : U32} {recs : List (U16 × U16)} (h : recs ∈ binsRecords index meth binSize) :
    recs.length ≤ binSize.val := by
  simp only [binsRecords, List.mem_flatMap, List.mem_range, List.mem_map] at h
  obtain ⟨i, hi, k, -, rfl⟩ := h
  have hs : (index.positions.getD i []).Pairwise (· < ·) := by
    rw [List.getD_eq_getElem _ _ hi]
    exact hindex.sorted _ (List.getElem_mem hi)
  have hlen := length_binRecords_le hs (index.chromOffset.getD i 0).val meth.cpgs (k * binSize.val)
    (min ((k + 1) * binSize.val) (index.chromSize.getD i 0).val)
  have hwidth : min ((k + 1) * binSize.val) (index.chromSize.getD i 0).val - k * binSize.val ≤
      binSize.val := by
    rw [Nat.succ_mul]; omega
  omega

/-- **What the accumulators of `bin_counts` hold.** Under the hypotheses of
`Mxe.binsMain_eq_binsSpec`, each emitted `n_meth` and `n_unmeth` is the sum over
the bin's records modulo `2 ^ 32`, and the exact sum when the bin holds at most
`65537` records; and every bin holds at most `B` records. -/
theorem binsMain_sums {index : CpgIndex} (hindex : index.Valid) {meth : Methylome}
    (hmeth : meth.cpgs.length = index.nCpgsTotal.val) {binSize : U32} (hB : 0 < binSize.val)
    (hwrap : ∀ S ∈ index.chromSize, S.val + binSize.val ≤ 2 ^ 32) {fuel : ℕ}
    (hfuel : ∀ S ∈ index.chromSize, ceilDiv S.val binSize.val ≤ fuel) :
    ∃ results, binsMain index meth binSize fuel = some results ∧
      List.Forall₂ (fun r recs =>
          r.1.val = (recs.map fun x => x.1.val).sum % 2 ^ 32 ∧
          r.2.1.val = (recs.map fun x => x.2.val).sum % 2 ^ 32 ∧
          (recs.length ≤ 65537 →
            r.1.val = (recs.map fun x => x.1.val).sum ∧ r.2.1.val = (recs.map fun x => x.2.val).sum))
        results (binsRecords index meth binSize) ∧
      ∀ recs ∈ binsRecords index meth binSize, recs.length ≤ binSize.val := by
  refine ⟨_, binsMain_eq_specPrefix ⟨hindex, hmeth, hB, hwrap, hfuel⟩, ?_,
    fun _ h => length_le_of_mem_binsRecords hindex h⟩
  rw [show specPrefix index meth binSize index.positions.length = binsSpec index meth binSize from rfl,
    binsSpec_eq_map, List.forall₂_map_left_iff]
  refine List.forall₂_same.mpr fun recs _ => ?_
  obtain ⟨h₁, h₂⟩ := binTotals_val recs
  refine ⟨h₁, h₂, fun hl => ?_⟩
  rw [h₁, h₂, Nat.mod_eq_of_lt (sum_val_lt_of_length_le Prod.fst hl),
    Nat.mod_eq_of_lt (sum_val_lt_of_length_le Prod.snd hl)]
  exact ⟨rfl, rfl⟩

theorem binsMain_sums_scenario :
    CpgIndex.Valid ⟨[[2, 4, 6], [0]], [8, 2], [0, 3], 4⟩ ∧
      ∃ results, binsMain ⟨[[2, 4, 6], [0]], [8, 2], [0, 3], 4⟩
          ⟨[(10, 0), (5, 5), (0, 20), (7, 3)]⟩ 4 2 = some results ∧
        List.Forall₂ (fun r recs =>
            r.1.val = (recs.map fun x => x.1.val).sum % 2 ^ 32 ∧
            r.2.1.val = (recs.map fun x => x.2.val).sum % 2 ^ 32 ∧
            (recs.length ≤ 65537 →
              r.1.val = (recs.map fun x => x.1.val).sum ∧
                r.2.1.val = (recs.map fun x => x.2.val).sum))
          results (binsRecords ⟨[[2, 4, 6], [0]], [8, 2], [0, 3], 4⟩
            ⟨[(10, 0), (5, 5), (0, 20), (7, 3)]⟩ 4) ∧
        ∀ recs ∈ binsRecords ⟨[[2, 4, 6], [0]], [8, 2], [0, 3], 4⟩
          ⟨[(10, 0), (5, 5), (0, 20), (7, 3)]⟩ 4, recs.length ≤ (4 : U32).val := by
  have hv : CpgIndex.Valid ⟨[[2, 4, 6], [0]], [8, 2], [0, 3], 4⟩ :=
    ⟨rfl, rfl, by decide, by simp [Nat.forall_lt_succ], by decide, by decide⟩
  exact ⟨hv, binsMain_sums hv (by rfl) (by decide)
    (by simp only [List.forall_mem_cons, List.not_mem_nil, IsEmpty.forall_iff, implies_true, and_true]; decide)
    (by simp only [List.forall_mem_cons, List.not_mem_nil, IsEmpty.forall_iff, implies_true, and_true]; decide)⟩

/-! ### A bin that wraps -/

/-- The positions `0, 1, …, n - 1` of a chromosome with a CpG at every base. -/
def everyBase (n : ℕ) : List U32 := (List.range n).map fun k : ℕ => (k : U32)

theorem val_of_mem_everyBase {n : ℕ} (hn : n ≤ 2 ^ 32) {p : U32} (hp : p ∈ everyBase n) :
    p.val < n := by
  obtain ⟨k, hk, rfl⟩ := List.mem_map.mp hp
  rw [List.mem_range] at hk
  rw [Fin.val_natCast, Nat.mod_eq_of_lt (by omega)]
  exact hk

theorem everyBase_sorted {n : ℕ} (hn : n ≤ 2 ^ 32) : (everyBase n).Pairwise (· < ·) := by
  rw [everyBase, List.pairwise_map]
  refine (List.pairwise_lt_range n).imp_of_mem fun ha hb hab => ?_
  rw [List.mem_range] at ha hb
  rw [Fin.lt_def, Fin.val_natCast, Fin.val_natCast, Nat.mod_eq_of_lt (by omega),
    Nat.mod_eq_of_lt (by omega)]
  exact hab

/-- A bin covering a whole chromosome with a CpG at every base holds every record
of the chromosome. -/
theorem binRecords_everyBase {n : ℕ} (hn : n ≤ 2 ^ 32) {cpgs : List (U16 × U16)}
    (hcpgs : cpgs.length = n) : binRecords (everyBase n) 0 cpgs 0 n = cpgs := by
  have hlen : (everyBase n).length = n := by rw [everyBase, List.length_map, List.length_range]
  have hbelow : below (everyBase n) n = n := by
    rw [below, List.takeWhile_eq_self_iff.mpr fun p hp => decide_eq_true (val_of_mem_everyBase hn hp),
      hlen]
  rw [binRecords_eq_slice (everyBase_sorted hn) (by omega) (Nat.zero_le n), below_zero, hbelow,
    Nat.zero_add, List.drop_zero, Nat.sub_zero, ← hcpgs, List.take_length]

/-- The index of a single chromosome of `n` bases with a CpG at every base. -/
def everyBaseIndex (n : ℕ) : CpgIndex := ⟨[everyBase n], [(n : U32)], [0], (n : U32)⟩

section EveryBase

theorem ceilDiv_self {n : ℕ} (hpos : 0 < n) : ceilDiv n n = 1 :=
  Nat.div_eq_of_lt_le (by omega) (by omega)

variable {n : ℕ} (hn : n < 2 ^ 32)
include hn

theorem val_natCast_of_lt : ((n : U32) : ℕ) = n := by
  rw [Fin.val_natCast, Nat.mod_eq_of_lt hn]

theorem everyBaseIndex_valid : (everyBaseIndex n).Valid where
  length_chromSize := rfl
  length_chromOffset := rfl
  sorted := by simpa [everyBaseIndex] using everyBase_sorted hn.le
  lt_chromSize := by
    intro i hi p hp
    obtain rfl : i = 0 := by simpa [everyBaseIndex] using hi
    show p.val < ((n : U32) : ℕ)
    rw [val_natCast_of_lt hn]
    exact val_of_mem_everyBase hn.le hp
  chromOffset_eq := by simp [everyBaseIndex]
  nCpgsTotal_eq := by simp [everyBaseIndex, everyBase, val_natCast_of_lt hn]

variable {binSize : U32} (hB : binSize.val = n) (hpos : 0 < n)
include hB hpos

/-- A bin as wide as the chromosome holds all of its records. -/
theorem binsRecords_everyBaseIndex (meth : Methylome) (hmeth : meth.cpgs.length = n) :
    binsRecords (everyBaseIndex n) meth binSize = [meth.cpgs] := by
  have hone : List.range 1 = [0] := rfl
  simp only [binsRecords, everyBaseIndex, List.length_singleton, hone, List.flatMap_singleton,
    List.getD_cons_zero, val_natCast_of_lt hn, hB, ceilDiv_self hpos, List.map_singleton, Nat.zero_mul,
    Nat.zero_add, Nat.one_mul, min_self, Fin.val_zero, binRecords_everyBase hn.le hmeth]

/-- With fuel for its single bin, `bins_main` emits the totals of all the
records. -/
theorem binsMain_everyBaseIndex (hnn : n + n ≤ 2 ^ 32) (meth : Methylome)
    (hmeth : meth.cpgs.length = n) :
    binsMain (everyBaseIndex n) meth binSize 1 = some [binTotals meth.cpgs] := by
  have hpre : BinsPre (everyBaseIndex n) meth binSize 1 :=
    ⟨everyBaseIndex_valid hn, by rw [hmeth]; exact (val_natCast_of_lt hn).symm, by omega,
      by simp [everyBaseIndex, val_natCast_of_lt hn, hB]; omega,
      by simp [everyBaseIndex, val_natCast_of_lt hn, hB, ceilDiv_self hpos]⟩
  rw [binsMain_eq_specPrefix hpre]
  show some (binsSpec (everyBaseIndex n) meth binSize) = _
  rw [binsSpec_eq_map, binsRecords_everyBaseIndex hn hB hpos meth hmeth, List.map_singleton]

end EveryBase

/-- **The accumulators wrap.** One chromosome of `65538` bases with a CpG at each,
every record counted `65535` times methylated, and `B = 65538`: the index is
well formed, the single bin holds every record, and the kernel emits
`n_meth = 65534` where the records sum to `65538 · 65535 = 4295032830`. -/
theorem binsMain_sum_wraps :
    (everyBaseIndex 65538).Valid ∧
      binsRecords (everyBaseIndex 65538) ⟨List.replicate 65538 (65535, 0)⟩ 65538 =
        [List.replicate 65538 (65535, 0)] ∧
      binsMain (everyBaseIndex 65538) ⟨List.replicate 65538 (65535, 0)⟩ 65538 1 =
        some [(65534, 0, 65538)] ∧
      ((List.replicate 65538 ((65535, 0) : U16 × U16)).map fun r => r.1.val).sum = 4295032830 := by
  have htot : binTotals (List.replicate 65538 ((65535, 0) : U16 × U16)) = (65534, 0, 65538) := by
    obtain ⟨h₁, h₂⟩ := binTotals_val (List.replicate 65538 ((65535, 0) : U16 × U16))
    simp only [List.map_replicate, List.sum_replicate, smul_eq_mul] at h₁ h₂
    refine Prod.ext (Fin.ext h₁) (Prod.ext (Fin.ext h₂) ?_)
    rw [binTotals, List.countP_replicate]
    rfl
  have hmeth : (List.replicate 65538 ((65535, 0) : U16 × U16)).length = 65538 :=
    List.length_replicate _ _
  have hB : (65538 : U32).val = 65538 := rfl
  refine ⟨everyBaseIndex_valid (by norm_num),
    binsRecords_everyBaseIndex (by norm_num) hB (by norm_num) ⟨List.replicate 65538 (65535, 0)⟩ hmeth,
    ?_, ?_⟩
  · rw [binsMain_everyBaseIndex (by norm_num) hB (by norm_num) (by norm_num)
      ⟨List.replicate 65538 (65535, 0)⟩ hmeth, htot]
  · simp only [List.map_replicate, List.sum_replicate, smul_eq_mul]
    rfl

end Mxe
