import SistemasOperativos.Merge.Sorting

/-!
# The merge step

`merge` on two sorted blocks, of which each may be empty, as in the last loop of `main`
when there are fewer numbers than threads.
-/
namespace MergeThreads

open Threads.Cells

variable {low half high ind base : ℤ} {n : ℕ} {m : ℤ → Int} {left right l : List Int}

/-! ## The writes -/

/-- The `n` positions from `lo` on. -/
def positions (lo : ℤ) (n : ℕ) : List ℤ := segment id lo n

theorem mem_positions {i : ℤ} : i ∈ positions low n ↔ low ≤ i ∧ i < low + n := by
  simp [positions, mem_segment]

theorem positions_nodup : (positions low n).Nodup := segment_nodup Function.injective_id

theorem positions_succ : positions low (n + 1) = low :: positions (low + 1) n := segment_succ

theorem positions_append {k : ℕ} :
    positions low (n + k) = positions low n ++ positions (low + n) k := segment_append

theorem writes_copyBlock : (copyBlock base n).writes m = [] := by
  induction n generalizing base with
  | zero => rfl
  | succ n ih =>
    rw [copyBlock, Prog.writes_bind, Prog.writes_bind, Prog.run_get, ih]
    rfl

theorem writes_copyRest : (copyRest ind l).writes m = positions ind l.length := by
  induction l generalizing ind m with
  | nil => rfl
  | cons v l ih =>
    rw [copyRest, Prog.writes_bind, ih, List.length_cons, positions_succ]
    rfl

/-- Every round writes the next position, whichever block it takes from. -/
theorem writes_mergeLoop :
    (mergeLoop ind left right).writes m = positions ind (left.length + right.length) := by
  fun_induction mergeLoop ind left right generalizing m with
  | case1 ind l left r right hle ih =>
    have hn : (l :: left).length + (r :: right).length =
        left.length + (r :: right).length + 1 := by
      rw [List.length_cons, Nat.add_right_comm]
    rw [Prog.writes_bind, ih, hn, positions_succ]
    rfl
  | case2 ind l left r right hle ih =>
    have hn : (l :: left).length + (r :: right).length =
        (l :: left).length + right.length + 1 := rfl
    rw [Prog.writes_bind, ih, hn, positions_succ]
    rfl
  | case3 ind left right hne =>
    rw [Prog.writes_bind, Prog.writes_bind, writes_copyRest, writes_copyRest, run_copyRest,
      positions_append, ← List.append_assoc]
    exact List.append_nil _

theorem writes_merge (h1 : low - 1 ≤ half) (h2 : half ≤ high) :
    (merge low half high).writes m = positions low (high - low + 1).toNat := by
  have hn : (half - low + 1).toNat + (high - half).toNat = (high - low + 1).toNat := by omega
  simp only [merge, Prog.writes_bind, writes_copyBlock, run_copyBlock, writes_mergeLoop,
    length_segment, hn, List.nil_append]

/-! ## The step -/

/-- Two sorted blocks, each of them possibly empty, become one; nothing else changes, and
each position of the two is written once. -/
theorem merge_step (low half high : ℤ) (h1 : low - 1 ≤ half) (h2 : half ≤ high) (array : ℤ → Int)
    (hleft : (segment array low (half - low + 1).toNat).Pairwise (· ≤ ·))
    (hright : (segment array (half + 1) (high - half).toNat).Pairwise (· ≤ ·)) :
    (segment ((merge low half high).run array).2 low (high - low + 1).toNat).Pairwise (· ≤ ·) ∧
    (segment ((merge low half high).run array).2 low (high - low + 1).toNat).Perm
      (segment array low (high - low + 1).toNat) ∧
    (∀ i, i < low ∨ high < i → ((merge low half high).run array).2 i = array i) ∧
    (((merge low half high).writes array).length : ℤ) = high - low + 1 ∧
    ((merge low half high).writes array).Nodup ∧
    ∀ i ∈ (merge low half high).writes array, low ≤ i ∧ i ≤ high := by
  have hrun : (merge low half high).run array = ((), store array low
      (sorted (segment array low (high - low + 1).toNat))) := by
    rw [← segment_halves (by omega) h2 array]
    exact merge_blocks (eq_sorted hleft (List.Perm.refl _)) (eq_sorted hright (List.Perm.refl _))
  have hlen : (sorted (segment array low (high - low + 1).toNat)).length =
      (high - low + 1).toNat := by
    simp
  rw [hrun, writes_merge h1 h2]
  refine ⟨?_, ?_, fun i hi => ?_, ?_, positions_nodup, fun i hi => ?_⟩
  · rw [segment_store_of_length hlen]
    exact sorted_pairwise _
  · rw [segment_store_of_length hlen]
    exact sorted_perm _
  · obtain hi | hi := hi
    · exact store_below hi
    · exact store_above (by omega)
  · rw [positions, length_segment]
    omega
  · have := mem_positions.mp hi
    omega

/-- The last loop of `main` with three numbers and four threads: twice two empty blocks, and
then an empty block and the last thread's. -/
theorem merge_step_empty : (merge 0 (-1) (-1)).writes (fun i => i) = [] ∧
    segment ((merge 0 (-1) 2).run fun i => i).2 0 3 = [0, 1, 2] := by
  obtain ⟨-, -, -, hnone, -, -⟩ := merge_step 0 (-1) (-1) (by decide) (by decide)
    (fun i => i) (by decide) (by decide)
  obtain ⟨hs, hp, -⟩ := merge_step 0 (-1) 2 (by decide) (by decide)
    (fun i => i) (by decide) (by decide)
  refine ⟨List.length_eq_zero_iff.mp (by omega), ?_⟩
  have hlist : [0, 1, 2] = sorted (segment (fun i => i) 0 3) := eq_sorted (by decide) (by decide)
  exact (eq_sorted hs hp).trans hlist.symm

end MergeThreads
