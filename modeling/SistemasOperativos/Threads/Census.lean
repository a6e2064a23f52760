import Mathlib.Algebra.BigOperators.Group.Finset.Piecewise
import Mathlib.Algebra.Order.BigOperators.Group.Finset
import Mathlib.Data.Fintype.Basic

/-! How many of a finite number of threads are in a certain place. -/
namespace Threads

variable {ι : Type} [Fintype ι] {p q : ι → Bool} {i j : ι}

def census (p : ι → Bool) : ℕ := (Finset.univ.filter fun i => p i = true).card

theorem census_eq_sum (p : ι → Bool) : census p = ∑ i, (p i).toNat := by
  rw [census, Finset.card_filter]
  refine Finset.sum_congr rfl fun i _ => ?_
  cases p i <;> rfl

/-- One thread moves, and the number changes by what it changes for that thread. -/
theorem census_move [DecidableEq ι] (h : ∀ j, j ≠ i → q j = p j) :
    census q + (p i).toNat = census p + (q i).toNat := by
  rw [census_eq_sum, census_eq_sum, ← Finset.add_sum_erase _ _ (Finset.mem_univ i),
    ← Finset.add_sum_erase _ (fun j => (p j).toNat) (Finset.mem_univ i)]
  have hrest : ∑ j ∈ Finset.univ.erase i, (q j).toNat = ∑ j ∈ Finset.univ.erase i, (p j).toNat :=
    Finset.sum_congr rfl fun j hj => by rw [h j (Finset.ne_of_mem_erase hj)]
  omega

/-- Threads in one of two places that exclude each other. -/
theorem census_add {r : ι → Bool} (h : ∀ i, (p i).toNat = (q i).toNat + (r i).toNat) :
    census p = census q + census r := by
  simp only [census_eq_sum, h, Finset.sum_add_distrib]

theorem census_pos (h : p i = true) : 0 < census p :=
  Finset.card_pos.mpr ⟨i, by simpa using h⟩

theorem exists_of_census (h : 0 < census p) : ∃ i, p i = true := by
  obtain ⟨i, hi⟩ := Finset.card_pos.mp h
  exact ⟨i, by simpa using hi⟩

theorem census_none (h : ∀ i, p i = false) : census p = 0 := by
  by_contra hn
  obtain ⟨i, hi⟩ := exists_of_census (Nat.pos_of_ne_zero hn)
  cases (h i).symm.trans hi

/-- More threads than this one may count for are there. -/
theorem exists_other [DecidableEq ι] (i : ι) (h : (p i).toNat < census p) : ∃ j, j ≠ i ∧ p j = true := by
  by_contra hn
  push Not at hn
  have hmove := census_move (p := p) (q := fun j => if j = i then false else p j) (i := i)
    fun j hj => if_neg hj
  have hzero : census (fun j => if j = i then false else p j) = 0 := by
    by_contra hpos
    obtain ⟨j, hj⟩ := exists_of_census (Nat.pos_of_ne_zero hpos)
    split at hj
    · cases hj
    · exact hn j ‹_› hj
  simp only [if_true, Bool.toNat_false] at hmove
  omega

theorem census_unique (h : census p ≤ 1) (hi : p i = true) (hj : p j = true) : i = j :=
  Finset.card_le_one.mp h i (by simpa using hi) j (by simpa using hj)

/-- A run that is longer by one step counts one more or as many. -/
theorem countP_snoc {α : Type} (f : α → Bool) (tr : List α) (a : α) :
    (tr ++ [a]).countP f = tr.countP f + (f a).toNat := by
  rw [List.countP_append, List.countP_singleton]
  cases f a <;> rfl

end Threads
