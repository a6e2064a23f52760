import SistemasOperativos.Merge.Equal

/-!
# The range of the indices

With the integers of `int`, the sum of two indices is out of range before the indices are.
-/
namespace MergeSequential

open Threads.Cells Threads.Cells.Checked

variable {l r : ℤ}

/-- The values of `int`. -/
def int32 (n : ℤ) : Bool := -2 ^ 31 ≤ n ∧ n ≤ 2 ^ 31 - 1

theorem int32_eq_true {n : ℤ} : int32 n = true ↔ -2 ^ 31 ≤ n ∧ n ≤ 2 ^ 31 - 1 := decide_eq_true_iff

theorem within_int32 : Within int32 (2 ^ 31 - 1) := fun n h0 hn => int32_eq_true.mpr ⟨by omega, hn⟩

/-- The two midpoints are the same number. -/
theorem middle_eq (hl : 0 ≤ l) (h : l < r) : middle l r = MergeThreads.middle l r := by
  unfold middle MergeThreads.middle
  rw [Int.tdiv_eq_ediv_of_nonneg (by omega), Int.tdiv_eq_ediv_of_nonneg (by omega)]
  omega

theorem mergeSort_in_range (hl : 0 ≤ l) (hr : r ≤ 2 ^ 30) (arr : ℤ → Int) :
    ∃ arr', Does (mergeSort int32 l r hl) arr () arr' := by
  refine ⟨_, mergeSort_does within_int32 hl (by omega) fun l' r' h1 h2 h3 => ?_⟩
  exact int32_eq_true.mpr ⟨by omega, by omega⟩

/-- Beyond `2 ^ 30` the sum overflows at the latest for the last two cells. -/
theorem mergeSort_overflows (hl : 0 ≤ l) (hlt : l < r) (hr : 2 ^ 30 < r) (hmax : r ≤ 2 ^ 31 - 2)
    (arr : ℤ → Int) : Fails (mergeSort int32 l r hl) arr := by
  fun_induction mergeSort int32 l r hl generalizing arr with
  | case1 l r hl _ _ ih =>
    by_cases hsum : l + r ≤ 2 ^ 31 - 1
    · have hmid : middle l r ≤ 2 ^ 30 - 1 := by
        unfold middle
        rw [Int.tdiv_eq_ediv_of_nonneg (by omega)]
        omega
      have hlm := (middle_spec hl hlt).1
      obtain ⟨arr', hleft⟩ := mergeSort_in_range (r := middle l r) hl (by omega) arr
      refine Does.bind_fails (does_int (int32_eq_true.mpr ⟨by omega, hsum⟩) _) ?_
      refine Does.bind_fails (does_int (int32_eq_true.mpr ⟨by omega, by omega⟩) _) ?_
      refine Does.bind_fails hleft ?_
      refine Does.bind_fails (does_int (int32_eq_true.mpr ⟨by omega, by omega⟩) _) ?_
      exact Fails.bind (ih (by omega) hr hmax arr')
    · refine Fails.bind (fails_int (Bool.eq_false_iff.mpr fun h => ?_) _)
      exact hsum (int32_eq_true.mp h).2
  | case2 l r hl hle => exact absurd hlt hle

theorem mergeSort_single (hl : 0 ≤ l) (ok : ℤ → Bool) (arr : ℤ → Int) :
    Does (mergeSort ok l l hl) arr () arr := by
  rw [mergeSort, dif_neg (Int.lt_irrefl l)]
  exact does_pure () arr

/-- For all indices up to `2 ^ 31 - 2`: the sums of `merge.c` stay in range exactly up to
`2 ^ 30`, and `merge_threads.c`, with the same midpoints, always stays in range. -/
theorem index_arithmetic (hl : 0 ≤ l) (hlr : l ≤ r) (hmax : r ≤ 2 ^ 31 - 2) (arr : ℤ → Int) :
    (¬ Fails (mergeSort int32 l r hl) arr ↔ l = r ∨ r ≤ 2 ^ 30) ∧
    Does (mergeSortThreads int32 l r) arr () ((MergeThreads.mergeSort l r).run arr).2 ∧
    ∀ l' r', l ≤ l' → l' < r' → r' ≤ r →
      middle l' r' = MergeThreads.middle l' r' ∧ l' ≤ middle l' r' ∧ middle l' r' < r' := by
  refine ⟨⟨fun h => ?_, fun h => ?_⟩, ?_, fun l' r' h1 h2 h3 => ?_⟩
  · by_contra hn
    rw [not_or] at hn
    exact h (mergeSort_overflows hl (by omega) (by omega) hmax arr)
  · obtain rfl | hr := h
    · exact (mergeSort_single hl int32 arr).not_fails
    · obtain ⟨arr', h⟩ := mergeSort_in_range hl hr arr
      exact h.not_fails
  · rw [MergeThreads.run_mergeSort]
    exact mergeSortThreads_does within_int32 hl hlr (by omega)
  · exact ⟨middle_eq (by omega) h2, middle_spec (by omega) h2⟩

/-- The largest range for which `merge.c` is safe. -/
theorem index_arithmetic_half :
    ¬ Fails (mergeSort int32 0 (2 ^ 30) (Int.le_refl 0)) fun _ => 0 :=
  (index_arithmetic (Int.le_refl 0) (by decide) (by decide) fun _ => 0).1.mpr (.inr (Int.le_refl _))

/-- Two cells are enough, and so is the whole of the largest array. -/
theorem sum_overflows : Fails (mergeSort int32 (2 ^ 30) (2 ^ 30 + 1) (by decide)) (fun _ => 0) ∧
    Fails (mergeSort int32 0 (2 ^ 31 - 2) (Int.le_refl 0)) (fun _ => 0) ∧
    int32 (2 ^ 30 + (2 ^ 30 + 1)) = false :=
  ⟨mergeSort_overflows (by decide) (by decide) (by decide) (by decide) _,
    mergeSort_overflows (Int.le_refl 0) (by decide) (by decide) (by decide) _, by decide⟩

end MergeSequential
