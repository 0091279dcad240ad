import Mxe.Charconv

/-!
# The bin loop

Three functions walk a chromosome in bins with the same loop:

```
for (std::uint32_t i = 0; i < chrom_size; i += bin_size) {
  const auto bin_end = std::min(i + bin_size, chrom_size);
  …
}
```

`bins_main` computes one result per bin, and `write_bins` and
`write_bins_bedgraph` consume one result per bin while printing the bin's
bounds. `Mxe.forBins` is that loop, once, with its body and the state it threads
left as parameters; every user instantiates it.

Whether the loop does what it is for depends on whether `i + bin_size` wraps.
When `chrom_size + bin_size ≤ 2 ^ 32` it never does, and the loop is a fold over
the list `Mxe.binBounds` of the `⌈chrom_size / bin_size⌉` bins
`[k · bin_size, min((k + 1) · bin_size, chrom_size))`, which partition
`[0, chrom_size)` (`Mxe.forBins_eq_foldlM`, `Mxe.forBins_covers_chrom`). When it
does wrap the counter falls back below `chrom_size`: for a chromosome of
`2 ^ 32 - 1` bases and bins of `2 ^ 31 + 2`, the counter stays even, so below the
odd size, and the loop never ends (`Mxe.forBins_never_ends`).
-/

namespace Mxe

/-- `⌈a / b⌉`. -/
def ceilDiv (a b : ℕ) : ℕ := (a + b - 1) / b

theorem ceilDiv_mul_lt {a b : ℕ} (hb : 0 < b) : ceilDiv a b * b < a + b := by
  have := Nat.div_mul_le_self (a + b - 1) b
  simp only [ceilDiv]
  omega

theorem lt_of_lt_ceilDiv {a b k : ℕ} (hk : k < ceilDiv a b) : k * b < a := by
  have hb : 0 < b := by
    rcases Nat.eq_zero_or_pos b with rfl | hb
    · simp [ceilDiv] at hk
    · exact hb
  have : (k + 1) * b ≤ a + b - 1 := (Nat.le_div_iff_mul_le hb).mp hk
  rw [Nat.succ_mul] at this
  omega

theorem le_of_ceilDiv_le {a b k : ℕ} (hb : 0 < b) (hk : ceilDiv a b ≤ k) : a ≤ k * b := by
  have := (Nat.div_lt_iff_lt_mul hb).mp (Nat.lt_succ_of_le hk)
  rw [Nat.succ_mul] at this
  omega

/-! ### The loop -/

section Loop

variable {σ : Type} (chromSize binSize : U32) (body : U32 → U32 → σ → Option σ)

/-- `for (i = …; i < chrom_size; i += bin_size) body(i, min(i + bin_size, chrom_size))`
from the counter `i` and the loop state `st`, for at most `fuel` more
iterations. It is `none` when the body fails or the fuel runs out before the
test fails. -/
def forBins (fuel : ℕ) (i : U32) (st : σ) : Option σ :=
  if i < chromSize then
    match fuel with
    | 0 => none
    | fuel + 1 => (body i (min (i + binSize) chromSize) st).bind (forBins fuel (i + binSize))
  else some st

theorem forBins_of_le {fuel : ℕ} {i : U32} (h : chromSize ≤ i) (st : σ) :
    forBins chromSize binSize body fuel i st = some st := by
  rw [forBins.eq_def, if_neg (not_lt.mpr h)]

theorem forBins_succ_of_lt {fuel : ℕ} {i : U32} (h : i < chromSize) (st : σ) :
    forBins chromSize binSize body (fuel + 1) i st =
      (body i (min (i + binSize) chromSize) st).bind
        (forBins chromSize binSize body fuel (i + binSize)) := by
  rw [forBins, if_pos h]

end Loop

/-! ### The bins of a chromosome -/

/-- The word `k · bin_size`, the start of bin `k`. -/
def binStart (binSize : U32) (k : ℕ) : U32 := ⟨k * binSize.val % 2 ^ 32, Nat.mod_lt _ (by norm_num)⟩

/-- The `⌈chrom_size / bin_size⌉` bins `[k · bin_size, min((k + 1) · bin_size, chrom_size))`
of a chromosome, in order. -/
def binBounds (chromSize binSize : U32) : List (U32 × U32) :=
  (List.range (ceilDiv chromSize.val binSize.val)).map fun k =>
    (binStart binSize k, min (binStart binSize (k + 1)) chromSize)

theorem length_binBounds (chromSize binSize : U32) :
    (binBounds chromSize binSize).length = ceilDiv chromSize.val binSize.val := by
  simp [binBounds]

theorem drop_binBounds {chromSize binSize : U32} {k : ℕ}
    (hk : k < ceilDiv chromSize.val binSize.val) :
    (binBounds chromSize binSize).drop k = (binStart binSize k,
      min (binStart binSize (k + 1)) chromSize) :: (binBounds chromSize binSize).drop (k + 1) := by
  rw [List.drop_eq_getElem_cons (by rwa [length_binBounds])]
  simp [binBounds]

/-! ### The loop when the counter does not wrap -/

section NoWrap

variable {σ : Type} {chromSize binSize : U32} (body : U32 → U32 → σ → Option σ)

theorem val_binStart {k : ℕ} (h : k * binSize.val < 2 ^ 32) : (binStart binSize k).val = k * binSize.val :=
  Nat.mod_eq_of_lt h

@[simp] theorem binStart_zero : binStart binSize 0 = 0 := by
  ext
  simp [binStart]

theorem binStart_add {k : ℕ} : binStart binSize k + binSize = binStart binSize (k + 1) := by
  ext
  simp only [binStart, Fin.val_add, Nat.succ_mul, Nat.mod_add_mod]

variable (hB : 0 < binSize.val) (hwrap : chromSize.val + binSize.val ≤ 2 ^ 32)
include hB hwrap

/-- The loop from bin `k` on is the fold of its body over the bins from `k` on. -/
theorem forBins_binStart (m : ℕ) : ∀ k fuel (st : σ),
    k + m = ceilDiv chromSize.val binSize.val → m ≤ fuel →
    forBins chromSize binSize body fuel (binStart binSize k) st =
      ((binBounds chromSize binSize).drop k).foldlM (fun st b => body b.1 b.2 st) st := by
  have hn := ceilDiv_mul_lt (a := chromSize.val) hB
  induction m with
  | zero =>
    intro k fuel st hk _
    obtain rfl : k = ceilDiv chromSize.val binSize.val := hk
    have hle := le_of_ceilDiv_le (a := chromSize.val) hB le_rfl
    rw [forBins_of_le _ _ _ (Fin.le_def.mpr (by rw [val_binStart (by omega)]; exact hle)),
      List.drop_eq_nil_of_le (by rw [length_binBounds]), List.foldlM_nil]
    rfl
  | succ m ih =>
    intro k fuel st hk hfuel
    obtain ⟨f, rfl⟩ : ∃ f, fuel = f + 1 := ⟨fuel - 1, by omega⟩
    have hlt := lt_of_lt_ceilDiv (a := chromSize.val) (b := binSize.val) (k := k) (by omega)
    rw [forBins_succ_of_lt _ _ _ (Fin.lt_def.mpr (by rw [val_binStart (by omega)]; exact hlt)),
      drop_binBounds (by omega), List.foldlM_cons, binStart_add]
    exact congrArg _ (funext fun st' => ih (k + 1) f st' (by omega) (by omega))

/-- **The loop is a fold over the bins** when `i + bin_size` cannot wrap: given
fuel for `⌈chrom_size / bin_size⌉` iterations, it runs its body on each bin of
`Mxe.binBounds` in order. -/
theorem forBins_eq_foldlM {fuel : ℕ} (hfuel : ceilDiv chromSize.val binSize.val ≤ fuel) (st : σ) :
    forBins chromSize binSize body fuel 0 st =
      (binBounds chromSize binSize).foldlM (fun st b => body b.1 b.2 st) st := by
  simpa using forBins_binStart body hB hwrap _ 0 fuel st (Nat.zero_add _) hfuel

/-- The bounds of bin `k` are `k · bin_size` and `min((k + 1) · bin_size, chrom_size)`. -/
theorem val_binBounds {k : ℕ} (hk : k < ceilDiv chromSize.val binSize.val) :
    (binStart binSize k).val = k * binSize.val ∧
      (min (binStart binSize (k + 1)) chromSize).val = min ((k + 1) * binSize.val) chromSize.val := by
  have hn := ceilDiv_mul_lt (a := chromSize.val) hB
  have hk' : (k + 1) * binSize.val ≤ ceilDiv chromSize.val binSize.val * binSize.val :=
    Nat.mul_le_mul_right _ hk
  have hk'' : k * binSize.val + binSize.val ≤ ceilDiv chromSize.val binSize.val * binSize.val := by
    rwa [Nat.succ_mul] at hk'
  rw [val_min, val_binStart (by omega), val_binStart (by omega)]
  exact ⟨rfl, rfl⟩

omit hwrap in
/-- A loop whose body never fails runs out of fuel short of
`⌈chrom_size / bin_size⌉` iterations. -/
theorem forBins_binStart_eq_none (hbody : ∀ i e st, (body i e st).isSome) (m : ℕ) :
    ∀ k fuel (st : σ), k + m = ceilDiv chromSize.val binSize.val → fuel < m →
      forBins chromSize binSize body fuel (binStart binSize k) st = none := by
  induction m with
  | zero => intro k fuel st _ h; omega
  | succ m ih =>
    intro k fuel st hk hfuel
    have hlt := lt_of_lt_ceilDiv (a := chromSize.val) (b := binSize.val) (k := k) (by omega)
    have hi : binStart binSize k < chromSize := Fin.lt_def.mpr (by
      rw [val_binStart (by have := ceilDiv_mul_lt (a := chromSize.val) hB; omega)]; exact hlt)
    cases fuel with
    | zero => rw [forBins, if_pos hi]
    | succ f =>
      obtain ⟨st', hst'⟩ := Option.isSome_iff_exists.mp (hbody (binStart binSize k) _ st)
      rw [forBins_succ_of_lt _ _ _ hi, hst', Option.some_bind, binStart_add]
      exact ih (k + 1) f st' (by omega) (by omega)

/-- **The bins partition the chromosome**: each is non-empty, and laid end to
end they are `[0, chrom_size)`. -/
theorem binBounds_partition :
    (∀ b ∈ binBounds chromSize binSize, b.1 < b.2) ∧
      (binBounds chromSize binSize).flatMap (fun b => List.range' b.1.val (b.2.val - b.1.val)) =
        List.range chromSize.val := by
  have hn := ceilDiv_mul_lt (a := chromSize.val) hB
  constructor
  · intro b hb
    obtain ⟨k, hk, rfl⟩ := List.mem_map.mp hb
    have hk := List.mem_range.mp hk
    have hlt := lt_of_lt_ceilDiv hk
    obtain ⟨h₁, h₂⟩ := val_binBounds hB hwrap hk
    rw [Fin.lt_def, h₁, h₂, Nat.succ_mul]
    omega
  · have key : ∀ j ≤ ceilDiv chromSize.val binSize.val,
        ((List.range j).map fun k => (binStart binSize k,
          min (binStart binSize (k + 1)) chromSize)).flatMap
            (fun b => List.range' b.1.val (b.2.val - b.1.val)) =
          List.range' 0 (min (j * binSize.val) chromSize.val) := by
      intro j
      induction j with
      | zero => simp
      | succ j ih =>
        intro hj
        have hlt := lt_of_lt_ceilDiv (a := chromSize.val) (b := binSize.val) (k := j) hj
        obtain ⟨h₁, h₂⟩ := val_binBounds hB hwrap hj
        rw [List.range_succ, List.map_append, List.flatMap_append, ih (by omega)]
        simp only [List.map_cons, List.map_nil, List.flatMap_cons, List.flatMap_nil,
          List.append_nil, h₁, h₂, min_eq_left hlt.le, Nat.succ_mul]
        have happ := List.range'_append_1 0 (j * binSize.val)
          (min (j * binSize.val + binSize.val) chromSize.val - j * binSize.val)
        rw [Nat.zero_add] at happ
        rw [happ]
        congr 1
        omega
    rw [binBounds, key _ le_rfl, List.range_eq_range',
      min_eq_right (le_of_ceilDiv_le hB le_rfl)]

omit hB hwrap in
theorem foldlM_record (l acc : List (U32 × U32)) :
    l.foldlM (fun acc b => some (acc ++ [(b.1, b.2)])) acc = some (acc ++ l) := by
  induction l generalizing acc with
  | nil => simp
  | cons b l ih => simp [ih]

/-- **Without wrapping, the loop visits exactly the bins**: it ends after exactly
`⌈chrom_size / bin_size⌉` iterations, and the bins it visits are
`Mxe.binBounds`. -/
theorem forBins_record (fuel : ℕ) :
    forBins chromSize binSize (fun i e acc => some (acc ++ [(i, e)])) fuel 0 [] =
      if ceilDiv chromSize.val binSize.val ≤ fuel then some (binBounds chromSize binSize)
      else none := by
  split_ifs with h
  · rw [forBins_eq_foldlM _ hB hwrap h, foldlM_record, List.nil_append]
  · simpa using forBins_binStart_eq_none (fun i e (acc : List (U32 × U32)) => some (acc ++ [(i, e)]))
      hB (fun _ _ _ => rfl) _ 0 fuel [] (Nat.zero_add _) (by omega)

/-- **The loop covers the chromosome once**: when `i + bin_size` cannot wrap,
the loop that records each bin it visits ends, for every fuel, exactly when the
fuel covers `⌈chrom_size / bin_size⌉` iterations, and it then has visited the
`⌈chrom_size / bin_size⌉` bins of `Mxe.binBounds`, one per iteration. Each is
non-empty, and laid end to end in the order visited they are
`[0, chrom_size)`. -/
theorem forBins_covers_chrom :
    (∀ fuel, forBins chromSize binSize (fun i e acc => some (acc ++ [(i, e)])) fuel 0 [] =
      if ceilDiv chromSize.val binSize.val ≤ fuel then some (binBounds chromSize binSize) else none) ∧
      (binBounds chromSize binSize).length = ceilDiv chromSize.val binSize.val ∧
      (∀ b ∈ binBounds chromSize binSize, b.1 < b.2) ∧
      (binBounds chromSize binSize).flatMap (fun b => List.range' b.1.val (b.2.val - b.1.val)) =
        List.range chromSize.val :=
  ⟨forBins_record hB hwrap, length_binBounds _ _, binBounds_partition hB hwrap⟩

omit hB hwrap in
/-- A chromosome of five bases in bins of two: three iterations visit `[0, 2)`,
`[2, 4)`, `[4, 5)`. -/
theorem forBins_covers_chrom_five :
    (0 < (2 : U32).val ∧ (5 : U32).val + (2 : U32).val ≤ 2 ^ 32) ∧
      (∀ fuel, forBins 5 2 (fun i e acc => some (acc ++ [(i, e)])) fuel 0 [] =
        if ceilDiv (5 : U32).val (2 : U32).val ≤ fuel then some (binBounds 5 2) else none) ∧
      (binBounds 5 2).length = ceilDiv (5 : U32).val (2 : U32).val ∧
      (∀ b ∈ binBounds 5 2, b.1 < b.2) ∧
      (binBounds 5 2).flatMap (fun b => List.range' b.1.val (b.2.val - b.1.val)) = List.range 5 :=
  ⟨⟨by decide, by decide⟩, forBins_covers_chrom (by decide) (by decide)⟩

example : binBounds 5 2 = [(0, 2), (2, 4), (4, 5)] := by decide

end NoWrap

/-! ### The loop when the counter wraps -/

/-- For a chromosome of `2 ^ 32 - 1` bases and bins of `2 ^ 31 + 2`, an even
counter stays even after `i += bin_size` modulo `2 ^ 32`, so it stays below the
odd chromosome size: whatever the body, as long as it does not fail, the loop
runs out of every fuel. -/
theorem forBins_wrap_never_ends {σ : Type} (body : U32 → U32 → σ → Option σ)
    (hbody : ∀ i e st, (body i e st).isSome) :
    ∀ fuel (i : U32) (st : σ), i.val % 2 = 0 →
      forBins 4294967295 2147483650 body fuel i st = none := by
  have hS : (4294967295 : U32).val = 4294967295 := rfl
  have hB : (2147483650 : U32).val = 2147483650 := rfl
  intro fuel
  induction fuel with
  | zero =>
    intro i st hi
    rw [forBins, if_pos (Fin.lt_def.mpr (by omega))]
  | succ f ih =>
    intro i st hi
    rw [forBins_succ_of_lt _ _ _ (Fin.lt_def.mpr (by omega))]
    obtain ⟨st', hst'⟩ := Option.isSome_iff_exists.mp (hbody i _ st)
    rw [hst', Option.some_bind]
    exact ih _ st' (by rw [Fin.val_add, hB]; omega)

/-- **The bin loop need not end.** With `chrom_size = 2 ^ 32 - 1` and
`bin_size = 2 ^ 31 + 2`, the loop that records each bin it visits runs out of
every fuel: `i + bin_size` wraps, and the counter never reaches the chromosome
size. -/
theorem forBins_never_ends (fuel : ℕ) :
    forBins 4294967295 2147483650 (fun i e (acc : List (U32 × U32)) => some (acc ++ [(i, e)]))
      fuel 0 [] = none :=
  forBins_wrap_never_ends (fun i e (acc : List (U32 × U32)) => some (acc ++ [(i, e)]))
    (fun _ _ _ => rfl) fuel 0 [] rfl

end Mxe
