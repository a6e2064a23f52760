import Mathlib.Data.Int.Cast.Basic
import Mathlib.Data.List.Nodup
import Mathlib.Data.List.Range
import Mathlib.Logic.Function.Basic

/-! Lists laid out in consecutive cells of a memory. -/
namespace Threads.Cells

variable {V : Type}

/-- The `n` cells from `lo` on. -/
def segment (m : ℤ → V) (lo : ℤ) (n : ℕ) : List V := (List.range n).map fun k : ℕ => m (lo + k)

/-- The memory with a list written to the cells from `lo` on. -/
def store (m : ℤ → V) (lo : ℤ) (l : List V) : ℤ → V :=
  fun i => if lo ≤ i then (l[(i - lo).toNat]?).getD (m i) else m i

variable {m m' : ℤ → V} {lo hi i : ℤ} {n k : ℕ} {l l' : List V} {v : V}

@[simp] theorem length_segment : (segment m lo n).length = n := by
  simp [segment]

theorem segment_congr (h : ∀ i, lo ≤ i → i < lo + n → m i = m' i) :
    segment m lo n = segment m' lo n := by
  refine List.map_congr_left fun k hk => ?_
  have := List.mem_range.mp hk
  exact h _ (by omega) (by omega)

@[simp] theorem segment_zero : segment m lo 0 = [] := rfl

theorem segment_succ : segment m lo (n + 1) = m lo :: segment m (lo + 1) n := by
  simp only [segment, List.range_succ_eq_map, List.map_cons, List.map_map, Int.natCast_zero,
    Int.add_zero]
  congr 1
  refine List.map_congr_left fun k _ => congrArg m ?_
  show lo + ((k + 1 : ℕ) : ℤ) = lo + 1 + k
  omega

theorem segment_append : segment m lo (n + k) = segment m lo n ++ segment m (lo + n) k := by
  simp only [segment, List.range_add, List.map_append, List.map_map]
  congr 1
  refine List.map_congr_left fun j _ => congrArg m ?_
  show lo + ((n + j : ℕ) : ℤ) = lo + n + j
  omega

theorem mem_segment : v ∈ segment m lo n ↔ ∃ i, lo ≤ i ∧ i < lo + n ∧ m i = v := by
  simp only [segment, List.mem_map, List.mem_range]
  constructor
  · rintro ⟨k, hk, rfl⟩
    exact ⟨lo + k, by omega, by omega, rfl⟩
  · rintro ⟨i, h1, h2, rfl⟩
    refine ⟨(i - lo).toNat, by omega, congrArg m ?_⟩
    omega

theorem segment_nodup (h : Function.Injective m) : (segment m lo n).Nodup := by
  refine List.Nodup.map (fun i j hij => ?_) List.nodup_range
  have heq := h hij
  omega

theorem store_below (h : i < lo) : store m lo l i = m i := if_neg (by omega)

theorem store_above (h : lo + l.length ≤ i) : store m lo l i = m i := by
  unfold store
  split
  · rw [List.getElem?_eq_none (by omega)]
    rfl
  · rfl

theorem store_apply (h : k < l.length) : store m lo l (lo + k) = l[k] := by
  unfold store
  rw [if_pos (by omega)]
  have hk : (lo + k - lo).toNat = k := by omega
  rw [hk, List.getElem?_eq_getElem h]
  rfl

@[simp] theorem store_nil : store m lo [] = m := by
  funext i
  simp [store]

theorem store_cons : store m lo (v :: l) = store (Function.update m lo v) (lo + 1) l := by
  funext i
  rcases Int.lt_trichotomy i lo with hi | rfl | hi
  · rw [store_below hi, store_below (show i < lo + 1 by omega), Function.update_of_ne (by omega)]
  · have hfirst : store (Function.update m i v) (i + 1) l i = v := by
      rw [store_below (by omega), Function.update_self]
    rw [hfirst]
    simp [store]
  · have hn : (i - lo).toNat = (i - (lo + 1)).toNat + 1 := by omega
    simp only [store, if_pos (show lo ≤ i by omega), if_pos (show lo + 1 ≤ i by omega), hn,
      List.getElem?_cons_succ, Function.update_of_ne (show i ≠ lo by omega)]

@[simp] theorem segment_store : segment (store m lo l) lo l.length = l := by
  refine List.ext_getElem (by simp) fun k hk hl => ?_
  simp only [segment, List.getElem_map, List.getElem_range]
  exact store_apply hl

theorem segment_store_of_length (h : l.length = n) : segment (store m lo l) lo n = l := by
  rw [← h, segment_store]

/-- Segments that are clear of the written one stay. -/
theorem segment_store_of_disjoint (h : hi + n ≤ lo ∨ lo + l.length ≤ hi) :
    segment (store m lo l) hi n = segment m hi n := by
  refine segment_congr fun i h1 h2 => ?_
  obtain h | h := h
  · exact store_below (by omega)
  · exact store_above (by omega)

theorem store_segment : store m lo (segment m lo n) = m := by
  funext i
  by_cases hlo : i < lo
  · exact store_below hlo
  by_cases hhi : lo + n ≤ i
  · exact store_above (by simpa using hhi)
  have hk : i = lo + ((i - lo).toNat : ℕ) := by omega
  rw [hk, store_apply (by simp only [length_segment]; omega)]
  simp [segment]

theorem store_append : store (store m lo l) (lo + l.length) l' = store m lo (l ++ l') := by
  induction l generalizing m lo with
  | nil => simp
  | cons v l ih =>
    rw [List.cons_append, store_cons, store_cons, ← ih]
    congr 1
    rw [List.length_cons]
    omega

/-- A list of the same length writes over the one before it. -/
theorem store_store (h : l.length = l'.length) : store (store m lo l) lo l' = store m lo l' := by
  funext i
  by_cases hlo : i < lo
  · rw [store_below hlo, store_below hlo, store_below hlo]
  by_cases hhi : lo + l'.length ≤ i
  · rw [store_above hhi, store_above hhi, store_above (by omega)]
  have hk : i = lo + ((i - lo).toNat : ℕ) := by omega
  rw [hk, store_apply (by omega), store_apply (by omega)]

end Threads.Cells
