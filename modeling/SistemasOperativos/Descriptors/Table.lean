import Mathlib.Data.Finset.Filter
import Mathlib.Data.Finset.Range
import Mathlib.Data.List.Count
import Mathlib.Tactic.Common

/-!
# Tables of descriptors

A slot of the table has an open file or none. A descriptor is an `int`, and -1 is the
result of a call that fails.
-/
namespace Descriptors

variable {F : Type}

abbrev Table (F : Type) := List (Option F)

namespace Table
variable {t t' : Table F} {i j : ℕ} {fd : ℤ} {f r w : F}

def file (t : Table F) (fd : ℤ) : Option F := if 0 ≤ fd then (t[fd.toNat]?).join else none

def put (t : Table F) (i : ℕ) (x : Option F) : Table F := t.set i x

def lowest (t : Table F) : Option ℕ := t.findIdx? (·.isNone)

def dup (t : Table F) (fd : ℤ) : ℤ × Table F :=
  match t.file fd, t.lowest with
  | some f, some i => ((i : ℤ), t.put i (some f))
  | _, _ => (-1, t)

/-- With fewer than two free slots nothing is opened. -/
def pipe (t : Table F) (r w : F) : Option (ℤ × ℤ) × Table F :=
  match t.lowest with
  | none => (none, t)
  | some i =>
    match (t.put i (some r)).lowest with
    | none => (none, t)
    | some j => (some ((i : ℤ), (j : ℤ)), (t.put i (some r)).put j (some w))

def close (t : Table F) (fd : ℤ) : Table F := if 0 ≤ fd then t.put fd.toNat none else t

def dup2 (t : Table F) (old new : ℤ) : Table F :=
  match t.file old with
  | none => t
  | some f => if 0 ≤ new then t.put new.toNat (some f) else t

def opened (t : Table F) : Finset ℕ := (Finset.range t.length).filter fun i => (t.file i).isSome

def free (t : Table F) : ℕ := t.countP (·.isNone)

/-! ## Slots -/

theorem length_put (t : Table F) (i : ℕ) (x : Option F) : (t.put i x).length = t.length :=
  List.length_set

theorem file_nat (t : Table F) (i : ℕ) : t.file i = (t[i]?).join := rfl

theorem file_put_self (h : i < t.length) (x : Option F) : (t.put i x).file i = x := by
  simp [file_nat, put, h]

theorem file_put_of_ne (h : i ≠ j) (x : Option F) : (t.put i x).file j = t.file j := by
  simp [file_nat, put, h]

theorem file_put_cases {x : Option F} (h : (t.put i x).file j = some f) :
    (i = j ∧ x = some f) ∨ t.file j = some f := by
  by_cases hij : i = j
  · subst j
    by_cases hlt : i < t.length
    · exact Or.inl ⟨rfl, (file_put_self hlt x).symm.trans h⟩
    · simp [file_nat, put, hlt] at h
  · exact Or.inr ((file_put_of_ne hij x).symm.trans h)

theorem lt_of_file (h : t.file i = some f) : i < t.length := by
  by_contra hi
  simp [file_nat, hi] at h

theorem ne_of_file (hi : t.file i = some f) (hj : t.file j = none) : i ≠ j := by
  rintro rfl
  cases hi.symm.trans hj

theorem lowest_spec (h : t.lowest = some i) : i < t.length ∧ t.file i = none := by
  obtain ⟨hi, hnone, -⟩ := List.findIdx?_eq_some_iff_getElem.mp h
  refine ⟨hi, ?_⟩
  rw [file_nat, List.getElem?_eq_getElem hi]
  simpa using hnone

theorem lowest_eq_none : t.lowest = none ↔ t.free = 0 := by
  rw [lowest, free, List.findIdx?_eq_none_iff, List.countP_eq_zero]
  simp [Option.isSome_iff_ne_none]

theorem exists_lowest (h : 0 < t.free) : ∃ i, t.lowest = some i := by
  refine Option.ne_none_iff_exists'.mp fun hnone => ?_
  rw [lowest_eq_none.mp hnone] at h
  exact absurd h (Nat.lt_irrefl 0)

theorem free_put (h : i < t.length) (x : Option F) :
    (t.put i x).free + (t.file i).isNone.toNat = t.free + x.isNone.toNat := by
  induction t generalizing i with
  | nil => cases h
  | cons y t ih =>
    cases i with
    | zero =>
      simp only [free, put, List.set_cons_zero, List.countP_cons, file_nat, List.getElem?_cons_zero]
      cases x <;> cases y <;> simp
    | succ i =>
      have hrest := ih (Nat.lt_of_succ_lt_succ h)
      simp only [free, put, List.set_cons_succ, List.countP_cons, file_nat,
        List.getElem?_cons_succ] at hrest ⊢
      omega

/-- Taking a free slot. -/
theorem free_open (h : i < t.length) (hi : t.file i = none) (f : F) :
    (t.put i (some f)).free + 1 = t.free := by
  have hput := free_put h (some f)
  rw [hi] at hput
  simpa using hput

/-- Giving a slot up. -/
theorem free_close (hi : t.file i = some f) : (t.put i none).free = t.free + 1 := by
  have hput := free_put (lt_of_file hi) none
  rw [hi] at hput
  simpa using hput

theorem free_replace (hi : t.file i = some f) (r : F) : (t.put i (some r)).free = t.free := by
  have hput := free_put (lt_of_file hi) (some r)
  rw [hi] at hput
  simpa using hput

theorem mem_opened : i ∈ t.opened ↔ (t.file i).isSome = true := by
  simp only [opened, Finset.mem_filter, Finset.mem_range, and_iff_right_iff_imp]
  intro h
  obtain ⟨f, hf⟩ := Option.isSome_iff_exists.mp h
  exact lt_of_file hf

theorem free_eq_of_opened (hl : t.length = t'.length) (h : t.opened = t'.opened) :
    t.free = t'.free := by
  have hnone : t.map Option.isNone = t'.map Option.isNone := by
    refine List.ext_getElem (by simpa using hl) fun i hi hi' => ?_
    have hmem : (t.file i).isSome = true ↔ (t'.file i).isSome = true := by
      rw [← mem_opened, ← mem_opened, h]
    rw [List.length_map] at hi hi'
    simp only [file_nat, List.getElem?_eq_getElem hi, List.getElem?_eq_getElem hi'] at hmem
    simp only [List.getElem_map]
    revert hmem
    cases t[i] <;> cases t'[i] <;> simp
  have hcount := congrArg (List.countP id) hnone
  rwa [List.countP_map, List.countP_map] at hcount

/-- Setting a free slot and freeing it again. -/
theorem put_put_none (hi : t.file i = none) (x : Option F) : (t.put i x).put i none = t := by
  unfold put
  rw [List.set_set]
  apply List.ext_getElem?
  intro j
  by_cases hj : i = j
  · subst j
    by_cases hlt : i < t.length
    · have hnone : t[i] = none := by simpa [file_nat, hlt] using hi
      simp [hlt, hnone]
    · simp [hlt]
  · simp [hj]

/-! ## Open files -/

theorem mem_of_file {fd : ℤ} (h : t.file fd = some f) : some f ∈ t := by
  unfold file at h
  split at h
  · obtain ⟨x, hx, rfl⟩ : ∃ x, t[fd.toNat]? = some x ∧ x = some f := by
      simpa [Option.join_eq_some_iff] using h
    exact List.mem_of_getElem? hx
  · cases h

/-- An open descriptor is a number of a slot. -/
theorem slot_of_file {fd : ℤ} (h : t.file fd = some f) : ∃ i : ℕ, fd = i ∧ t.file i = some f := by
  have hpos : 0 ≤ fd := by
    by_contra hneg
    simp [file, hneg] at h
  obtain ⟨i, rfl⟩ := Int.eq_ofNat_of_zero_le hpos
  exact ⟨i, rfl, h⟩

theorem mem_put {x : Option F} (h : some f ∈ t.put i x) : some f ∈ t ∨ x = some f := by
  rcases List.mem_or_eq_of_mem_set h with h | h
  · exact Or.inl h
  · exact Or.inr h.symm

/-! ## Calls -/

/-- A duplicate takes a slot of its own. -/
theorem dup_some (h : t.file i = some f) (hfree : 0 < t.free) :
    ∃ j, j < t.length ∧ t.file j = none ∧ t.dup i = ((j : ℤ), t.put j (some f)) := by
  obtain ⟨j, hj⟩ := exists_lowest hfree
  obtain ⟨hlt, hnone⟩ := lowest_spec hj
  exact ⟨j, hlt, hnone, by simp [dup, h, hj]⟩

theorem dup_cases (t : Table F) (fd : ℤ) : t.dup fd = (-1, t) ∨
    ∃ i f, t.lowest = some i ∧ t.file fd = some f ∧ t.dup fd = ((i : ℤ), t.put i (some f)) := by
  unfold dup
  split
  · rename_i f i hf hi
    exact Or.inr ⟨i, f, hi, hf, rfl⟩
  · exact Or.inl rfl

theorem dup2_cases (t : Table F) (old new : ℤ) : t.dup2 old new = t ∨
    ∃ f, t.file old = some f ∧ 0 ≤ new ∧ t.dup2 old new = t.put new.toNat (some f) := by
  unfold dup2
  split
  · exact Or.inl rfl
  · rename_i f hf
    split
    · rename_i hnew
      exact Or.inr ⟨f, hf, hnew, rfl⟩
    · exact Or.inl rfl

/-- A duplicate takes no slot from a file. -/
theorem dup_keeps (h : t.file i = some f) (fd : ℤ) : (t.dup fd).2.file i = some f := by
  rcases dup_cases t fd with hdup | ⟨j, g, hj, -, hdup⟩
  · simpa [hdup] using h
  · have hne : i ≠ j := ne_of_file h (lowest_spec hj).2
    rw [hdup]
    exact (file_put_of_ne hne.symm _).trans h

theorem dup2_keeps {new : ℤ} (hne : new ≠ i) (old : ℤ) : (t.dup2 old new).file i = t.file i := by
  rcases dup2_cases t old new with hdup | ⟨g, -, hnew, hdup⟩ <;> rw [hdup]
  apply file_put_of_ne
  omega

theorem close_keeps {fd : ℤ} (hne : fd ≠ i) : (t.close fd).file i = t.file i := by
  unfold close
  split
  · apply file_put_of_ne
    omega
  · rfl

theorem mem_dup {fd : ℤ} (h : some f ∈ (t.dup fd).2) : some f ∈ t := by
  rcases dup_cases t fd with hdup | ⟨i, g, -, hg, hdup⟩ <;> rw [hdup] at h
  · exact h
  · rcases mem_put h with h | h
    · exact h
    · exact h ▸ mem_of_file hg

theorem mem_dup2 {old new : ℤ} (h : some f ∈ t.dup2 old new) : some f ∈ t := by
  rcases dup2_cases t old new with hdup | ⟨g, hg, -, hdup⟩ <;> rw [hdup] at h
  · exact h
  · rcases mem_put h with h | h
    · exact h
    · exact h ▸ mem_of_file hg

theorem dup_full (hfree : t.free = 0) (fd : ℤ) : t.dup fd = (-1, t) := by
  simp [dup, lowest_eq_none.mpr hfree]

theorem dup2_some (h : t.file i = some f) (j : ℕ) : t.dup2 i j = t.put j (some f) := by
  simp [dup2, h]

theorem dup2_failed (t : Table F) (new : ℤ) : t.dup2 (-1) new = t := rfl

theorem close_nat (t : Table F) (i : ℕ) : t.close i = t.put i none := by
  simp [close]

theorem length_dup (t : Table F) (fd : ℤ) : (t.dup fd).2.length = t.length := by
  rcases dup_cases t fd with hdup | ⟨i, g, -, -, hdup⟩ <;> rw [hdup]
  exact length_put ..

theorem length_dup2 (t : Table F) (old new : ℤ) : (t.dup2 old new).length = t.length := by
  rcases dup2_cases t old new with hdup | ⟨g, -, -, hdup⟩ <;> rw [hdup]
  exact length_put ..

theorem length_close (t : Table F) (fd : ℤ) : (t.close fd).length = t.length := by
  unfold close
  split
  · exact length_put ..
  · rfl

/-- Beyond the table there is no file. -/
theorem file_beyond (h : fd < 0 ∨ t.length ≤ fd) : t.file fd = none := by
  rw [file, ite_eq_right_iff]
  intro hpos
  rw [List.getElem?_eq_none (by omega)]
  rfl

/-- The number of a copy has the file that was copied, or is not one. -/
theorem file_dup (h : t.file fd = some f) :
    (t.dup fd).2.file (t.dup fd).1 = none ∨ (t.dup fd).2.file (t.dup fd).1 = some f := by
  rcases dup_cases t fd with hdup | ⟨i, g, hi, hg, hdup⟩ <;> rw [hdup]
  · exact Or.inl rfl
  · cases hg.symm.trans h
    exact Or.inr (file_put_self (lowest_spec hi).1 _)

theorem file_close (t : Table F) (fd old : ℤ) :
    (t.close fd).file old = none ∨ (t.close fd).file old = t.file old := by
  by_cases hold : 0 ≤ old
  · lift old to ℕ using hold
    by_cases hne : fd = old
    · rw [hne, close_nat]
      by_cases hlt : old < t.length
      · exact Or.inl (file_put_self hlt none)
      · exact Or.inl (file_beyond (by rw [length_put]; omega))
    · exact Or.inr (close_keeps hne)
  · exact Or.inl (file_beyond (by omega))

theorem dup2_none {old : ℤ} (h : t.file old = none) (new : ℤ) : t.dup2 old new = t := by
  simp [dup2, h]

/-- What was copied from a descriptor can be copied back to it. -/
theorem dup2_back {old : ℤ} (h : t.file i = some f) (hold : t.file old = none ∨ t.file old = some f) :
    (t.dup2 old i).file i = some f := by
  rcases hold with hold | hold
  · rwa [dup2_none hold]
  · obtain ⟨j, rfl, hj⟩ := slot_of_file hold
    rw [dup2_some hj]
    exact file_put_self (lt_of_file h) _

theorem pipe_cases {fds : ℤ × ℤ} (h : t.pipe r w = (some fds, t')) :
    ∃ i j : ℕ, fds = ((i : ℤ), (j : ℤ)) ∧ i < t.length ∧ t.file i = none ∧ j < t.length ∧
      (t.put i (some r)).file j = none ∧ t' = (t.put i (some r)).put j (some w) := by
  unfold pipe at h
  split at h
  · cases h
  · rename_i i hi
    split at h
    · cases h
    · rename_i j hj
      obtain ⟨hlt, hnone⟩ := lowest_spec hj
      rw [length_put] at hlt
      cases h
      exact ⟨i, j, rfl, (lowest_spec hi).1, (lowest_spec hi).2, hlt, hnone, rfl⟩

/-- The two ends take two free slots. -/
theorem pipe_some (hfree : 2 ≤ t.free) (r w : F) :
    ∃ i j, i ≠ j ∧ i < t.length ∧ j < t.length ∧ t.file i = none ∧ t.file j = none ∧
      t.pipe r w = (some ((i : ℤ), (j : ℤ)), (t.put i (some r)).put j (some w)) := by
  obtain ⟨i, hi⟩ := exists_lowest (t := t) (by omega)
  obtain ⟨hlt, hnone⟩ := lowest_spec hi
  have hleft := free_open hlt hnone r
  obtain ⟨j, hj⟩ := exists_lowest (t := t.put i (some r)) (by omega)
  obtain ⟨hlt', hnone'⟩ := lowest_spec hj
  have hne : i ≠ j := ne_of_file (file_put_self hlt (some r)) hnone'
  rw [file_put_of_ne hne] at hnone'
  rw [length_put] at hlt'
  exact ⟨i, j, hne, hlt, hlt', hnone, hnone', by simp [pipe, hi, hj]⟩

end Table

end Descriptors
