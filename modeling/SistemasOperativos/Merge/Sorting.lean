import Mathlib.Data.List.Sort
import SistemasOperativos.Merge.Code
import SistemasOperativos.Threads.Segments

/-! What the functions of the sort do when they run alone. -/
namespace MergeThreads

open Threads.Cells

/-! ## Sorted lists -/

def sorted (l : List Int) : List Int := l.mergeSort fun a b => a ≤ b

theorem sorted_pairwise (l : List Int) : (sorted l).Pairwise (· ≤ ·) := by
  have htrans : ∀ a b c : Int, decide (a ≤ b) → decide (b ≤ c) → decide (a ≤ c) :=
    fun a b c => by simpa using le_trans
  have htotal : ∀ a b : Int, decide (a ≤ b) || decide (b ≤ a) := fun a b => by
    simpa using le_total a b
  simpa [sorted] using List.pairwise_mergeSort htrans htotal l

theorem sorted_perm (l : List Int) : (sorted l).Perm l := List.mergeSort_perm l _

@[simp] theorem length_sorted (l : List Int) : (sorted l).length = l.length := List.length_mergeSort l

/-- There is only one sorted list with the same elements. -/
theorem eq_sorted {l l' : List Int} (hs : l.Pairwise (· ≤ ·)) (hp : l.Perm l') : l = sorted l' :=
  (hp.trans (sorted_perm l').symm).eq_of_pairwise (fun _ _ _ _ => le_antisymm) hs
    (sorted_pairwise l')

theorem sorted_of_length {l : List Int} (h : l.length ≤ 1) : sorted l = l := by
  refine (eq_sorted ?_ (List.Perm.refl l)).symm
  match l, h with
  | [], _ => exact .nil
  | [a], _ => exact List.pairwise_singleton _ _

/-- Merging two sorted lists sorts what they have together. -/
theorem merge_sorted (l l' : List Int) :
    List.merge (sorted l) (sorted l') (fun a b => a ≤ b) = sorted (l ++ l') := by
  refine eq_sorted ?_ ?_
  · have htrans : ∀ a b c : Int, decide (a ≤ b) → decide (b ≤ c) → decide (a ≤ c) :=
      fun a b c => by simpa using le_trans
    have htotal : ∀ a b : Int, decide (a ≤ b) || decide (b ≤ a) := fun a b => by
      simpa using le_total a b
    simpa using List.pairwise_merge htrans htotal (sorted l) (sorted l')
      (by simpa using sorted_pairwise l) (by simpa using sorted_pairwise l')
  · exact (List.merge_perm_append _).trans ((sorted_perm l).append (sorted_perm l'))

/-! ## Runs alone -/

variable {low half high ind base : ℤ} {n : ℕ} {m : ℤ → Int} {left right l : List Int}

@[simp] theorem run_copyBlock : (copyBlock base n).run m = (segment m base n, m) := by
  induction n generalizing base with
  | zero => rfl
  | succ n ih => simp [copyBlock, ih, segment_succ]

@[simp] theorem run_copyRest : (copyRest ind l).run m = (ind + l.length, store m ind l) := by
  induction l generalizing ind m with
  | nil => simp [copyRest]
  | cons v l ih =>
    simp only [copyRest, Prog.run_bind, Prog.run_set, ih, ← store_cons, List.length_cons]
    congr 1
    omega

@[simp] theorem run_mergeLoop : (mergeLoop ind left right).run m =
    ((), store m ind (List.merge left right fun a b => a ≤ b)) := by
  fun_induction mergeLoop ind left right generalizing m with
  | case1 ind l left r right hle ih => simp [hle, ih, store_cons]
  | case2 ind l left r right hle ih => simp [hle, ih, store_cons]
  | case3 ind left right hne =>
    cases left with
    | nil => simp
    | cons l left =>
      cases right with
      | nil => simp
      | cons r right => exact (hne l left r right rfl rfl).elim

theorem run_merge : (merge low half high).run m = ((), store m low
    (List.merge (segment m low (half - low + 1).toNat) (segment m (half + 1) (high - half).toNat)
      fun a b => a ≤ b)) := by
  simp [merge]

/-- `merge` sorts two sorted blocks into one. -/
theorem merge_blocks {a b : List Int} (ha : segment m low (half - low + 1).toNat = sorted a)
    (hb : segment m (half + 1) (high - half).toNat = sorted b) :
    (merge low half high).run m = ((), store m low (sorted (a ++ b))) := by
  rw [run_merge, ha, hb, merge_sorted]

/-- Two neighbouring blocks, cut at `half`. -/
theorem segment_halves (h1 : low ≤ half + 1) (h2 : half ≤ high) (m : ℤ → Int) :
    segment m low (half - low + 1).toNat ++ segment m (half + 1) (high - half).toNat =
      segment m low (high - low + 1).toNat := by
  have hn : (high - low + 1).toNat = (half - low + 1).toNat + (high - half).toNat := by omega
  have hlo : low + ((half - low + 1).toNat : ℕ) = half + 1 := by omega
  rw [hn, segment_append, hlo]

/-- Two lists of the lengths of the halves, written one after the other and then over. -/
theorem store_halves {a b c : List Int} (h : low + (a.length : ℕ) = half + 1)
    (hc : c.length = a.length + b.length) :
    store (store (store m low a) (half + 1) b) low c = store m low c := by
  rw [← h, store_append, store_store]
  rw [List.length_append, hc]

/-- Two halves that are sorted one after the other, and then merged. -/
theorem sort_halves (h1 : low ≤ half) (h2 : half < high) {m1 m2 : ℤ → Int}
    (hm1 : m1 = store m low (sorted (segment m low (half - low + 1).toNat)))
    (hm2 : m2 = store m1 (half + 1) (sorted (segment m1 (half + 1) (high - half).toNat))) :
    store m2 low (List.merge (segment m2 low (half - low + 1).toNat)
        (segment m2 (half + 1) (high - half).toNat) fun a b => a ≤ b) =
      store m low (sorted (segment m low (high - low + 1).toNat)) := by
  have hnext : low + ((half - low + 1).toNat : ℕ) = half + 1 := by omega
  have hcat := segment_halves (show low ≤ half + 1 by omega) h2.le m
  have hla : (sorted (segment m low (half - low + 1).toNat)).length = (half - low + 1).toNat := by
    simp
  have hlb : (sorted (segment m (half + 1) (high - half).toNat)).length = (high - half).toNat := by
    simp
  -- the second half finds its cells as they were, and leaves those of the first
  have hsnd : segment m1 (half + 1) (high - half).toNat =
      segment m (half + 1) (high - half).toNat := by
    rw [hm1]
    exact segment_store_of_disjoint (.inr (by rw [hla]; exact hnext.le))
  rw [hsnd] at hm2
  have hleft : segment m2 low (half - low + 1).toNat =
      sorted (segment m low (half - low + 1).toNat) := by
    rw [hm2, segment_store_of_disjoint (.inl (by omega)), hm1, segment_store_of_length hla]
  have hright : segment m2 (half + 1) (high - half).toNat =
      sorted (segment m (half + 1) (high - half).toNat) := by
    rw [hm2]
    exact segment_store_of_length hlb
  rw [hleft, hright, merge_sorted, hcat, hm2, hm1, store_halves (by rw [hla, hnext])]
  rw [length_sorted, ← hcat, List.length_append, length_sorted, length_sorted]

/-- `merge_sort` sorts its cells and touches no other. -/
theorem run_mergeSort : (mergeSort low high).run m =
    ((), store m low (sorted (segment m low (high - low + 1).toNat))) := by
  fun_induction mergeSort low high generalizing m with
  | case1 low high h ih1 ih2 =>
    obtain ⟨hlo, hhi⟩ := middle_spec h
    generalize middle low high = half at hlo hhi ih1 ih2
    have hright : high - (half + 1) + 1 = high - half := by omega
    simp only [Prog.run_bind, ih1, ih2, hright, run_merge]
    rw [sort_halves hlo hhi rfl rfl]
  | case2 low high h =>
    rw [sorted_of_length (by rw [length_segment]; omega), store_segment]
    rfl

theorem threadRoutine_eq (info : ArgThread) :
    threadRoutine info = mergeSort info.indLeft info.indRight := by
  rw [mergeSort]
  unfold threadRoutine
  split <;> rfl

/-! ## Footprints -/

/-- The cells from `low` to `high`. -/
def Between (low high : ℤ) (i : ℤ) : Prop := low ≤ i ∧ i ≤ high

theorem copyBlock_confined (h1 : low ≤ base) (h2 : base + n ≤ high + 1) :
    (copyBlock base n).Confined (Between low high) fun l => l.length = n := by
  induction n generalizing base with
  | zero => exact .pure rfl
  | succ n ih =>
    refine .bind (.get ⟨h1, by omega⟩) fun v _ => ?_
    refine .bind (ih (by omega) (by omega)) fun l hl => ?_
    exact .pure (congrArg (· + 1) hl)

theorem copyRest_confined (h1 : low ≤ ind) (h2 : ind + l.length ≤ high + 1) :
    (copyRest ind l).Confined (Between low high) fun k => k = ind + l.length := by
  induction l generalizing ind with
  | nil => exact .pure (by simp)
  | cons v l ih =>
    rw [List.length_cons] at h2 ⊢
    refine .bind (.set ⟨h1, by omega⟩) fun _ _ => ?_
    have hind : ind + ((l.length + 1 : ℕ) : ℤ) = ind + 1 + l.length := by omega
    rw [hind]
    exact ih (by omega) (by omega)

theorem mergeLoop_confined (h1 : low ≤ ind)
    (h2 : ind + left.length + right.length ≤ high + 1) :
    (mergeLoop ind left right).Confined (Between low high) fun _ => True := by
  fun_induction mergeLoop ind left right with
  | case1 ind l left r right hle ih | case2 ind l left r right hle ih =>
    simp only [List.length_cons] at h2 ih
    refine .bind (.set ⟨h1, by omega⟩) fun _ _ => ih (by omega) (by omega)
  | case3 ind left right hne =>
    refine .bind (copyRest_confined h1 (by omega)) fun k hk => ?_
    exact .bind (copyRest_confined (by omega) (by omega)) fun _ _ => .pure trivial

theorem merge_confined (h1 : low ≤ half + 1) (h2 : half ≤ high) :
    (merge low half high).Confined (Between low high) fun _ => True := by
  refine .bind (copyBlock_confined le_rfl (by omega)) fun left hl => ?_
  refine .bind (copyBlock_confined h1 (by omega)) fun right hr => ?_
  exact mergeLoop_confined le_rfl (by omega)

theorem mergeSort_confined {lo hi : ℤ} (h1 : lo ≤ low) (h2 : high ≤ hi) :
    (mergeSort low high).Confined (Between lo hi) fun _ => True := by
  fun_induction mergeSort low high with
  | case1 low high h ih1 ih2 =>
    obtain ⟨hlo, hhi⟩ := middle_spec h
    refine .bind (ih1 h1 (by omega)) fun _ _ => ?_
    refine .bind (ih2 (by omega) h2) fun _ _ => ?_
    refine (merge_confined (by omega) hhi.le).mono fun i hi => ⟨h1.trans hi.1, hi.2.trans h2⟩
  | case2 low high h => exact .pure trivial

end MergeThreads
