import Mathlib.Algebra.BigOperators.Group.Finset.Basic
import Mathlib.Algebra.Order.BigOperators.Group.Finset
import SistemasOperativos.Copy.Integrity

/-!
# Errors in the copies

The loops look for the result 0 of `read` alone, and take the -1 of an error as a count.
-/
namespace Copy

open Text

variable {reads writes : ℕ → ℤ} {s s' : Copying} {r w : ℤ} {k n : ℕ}

/-! ## One iteration -/

theorem iteration_last (h : s.loop.pc = .read) (w : ℤ) :
    s.iteration 0 w = ([.read 0], { s with loop := { s.loop with pc := .ended } }) := by
  simp [Copying.iteration, Copying.next, h]

theorem iteration_copies (h : s.loop.pc = .read) (hr : r ≠ 0) (w : ℤ) :
    ∃ s', s.iteration r w = ([.read r, .write r w], s') ∧ s'.loop = ⟨.read, int (s.loop.total + r)⟩ := by
  simp [Copying.iteration, Copying.next, h, hr]

theorem iteration_ended (h : s.loop.pc = .ended) (r w : ℤ) : s.iteration r w = ([], s) := by
  rw [Copying.iteration, next_of_ended h]

/-! ## The whole loop -/

/-- The calls of the first `n` iterations, none of them the last. -/
def copied (reads writes : ℕ → ℤ) (n : ℕ) : List Call :=
  (List.range n).flatMap fun i => [.read (reads i), .write (reads i) (writes i)]

theorem copied_succ (n : ℕ) : copied reads writes (n + 1) =
    copied reads writes n ++ [.read (reads n), .write (reads n) (writes n)] := by
  simp [copied, List.range_succ]

theorem write_mem_copied {count result : ℤ} :
    .write count result ∈ copied reads writes n ↔ ∃ i < n, count = reads i ∧ result = writes i := by
  simp [copied]

/-- What the loop has done after `n` iterations, if it has not ended before. -/
theorem iterations_before (writes : ℕ → ℤ) (hs : s.loop = .start) (h : ∀ i < n, reads i ≠ 0) :
    (s.iterations reads writes n).1 = copied reads writes n ∧
      (s.iterations reads writes n).2.loop = ⟨.read, int (∑ i ∈ Finset.range n, reads i)⟩ := by
  induction n with
  | zero => exact ⟨rfl, hs⟩
  | succ n ih =>
    obtain ⟨hcalls, hloop⟩ := ih fun i hi => h i (by omega)
    obtain ⟨s', hs', hloop'⟩ := iteration_copies (congrArg Loop.pc hloop) (h n (by omega)) (writes n)
    simp only [Copying.iterations, hs', hcalls, hloop', hloop, copied_succ, int_int_add,
      Finset.sum_range_succ, and_self]

/-- The iteration that reads 0 is the last one. -/
theorem iterations_after (writes : ℕ → ℤ) (hs : s.loop = .start) (h : ∀ i < n, reads i ≠ 0)
    (h0 : reads n = 0) (k : ℕ) : (s.iterations reads writes (n + 1 + k)).1 = copied reads writes n ++ [.read 0] ∧
      (s.iterations reads writes (n + 1 + k)).2.loop =
        ⟨.ended, int (∑ i ∈ Finset.range n, reads i)⟩ := by
  induction k with
  | zero =>
    obtain ⟨hcalls, hloop⟩ := iterations_before writes hs h
    have hlast := iteration_last (congrArg Loop.pc hloop) (writes n)
    simp only [Copying.iterations, h0, hlast, hcalls, hloop, and_self]
  | succ k ih =>
    obtain ⟨hcalls, hloop⟩ := ih
    have hended := iteration_ended (congrArg Loop.pc hloop) (reads (n + 1 + k)) (writes (n + 1 + k))
    rw [← Nat.add_assoc]
    simp only [Copying.iterations, hended, hcalls, hloop, List.append_nil, and_self]

/-! ## What a loop should do -/

/-- What a call adds to the sum of the positive counts. -/
def Call.counted : Call → ℤ
  | .read r => max r 0
  | .write _ _ => 0

/-- The loop ends, asks for no negative count, and has in `total` what it has read. -/
structure EndsWell (run : ℕ → List Call × Copying) : Prop where
  ends : ∃ n, (run n).2.loop.pc = .ended
  counts : ∀ n count result, .write count result ∈ (run n).1 → 0 ≤ count
  total : ∀ n, (run n).2.loop.total = ((run n).1.map Call.counted).sum

/-- Only positive counts are read before the first 0, less than the `int` range together. -/
def Readable (reads : ℕ → ℤ) : Prop :=
  ∃ n, reads n = 0 ∧ (∀ i < n, 0 < reads i) ∧ ∑ i ∈ Finset.range n, reads i < 2 ^ 31

theorem counted_copied (h : ∀ i < n, 0 < reads i) :
    ((copied reads writes n).map Call.counted).sum = ∑ i ∈ Finset.range n, reads i := by
  induction n with
  | zero => rfl
  | succ n ih =>
    have hn : max (reads n) 0 = reads n := max_eq_left (h n (by omega)).le
    simp [copied_succ, ih fun i hi => h i (by omega), Finset.sum_range_succ, Call.counted, hn]

theorem sum_nonneg (h : ∀ i < n, 0 < reads i) : 0 ≤ ∑ i ∈ Finset.range n, reads i :=
  Finset.sum_nonneg fun i hi => (h i (Finset.mem_range.mp hi)).le

theorem int_eq_self_of_nonneg {x : ℤ} (h : 0 ≤ x) : int x = x ↔ x < 2 ^ 31 := by
  obtain ⟨m, rfl⟩ := Int.eq_ofNat_of_zero_le h
  rw [int_eq_self]
  norm_cast

theorem sum_le (h : ∀ i < n, 0 < reads i) (hk : k ≤ n) :
    ∑ i ∈ Finset.range k, reads i ≤ ∑ i ∈ Finset.range n, reads i :=
  Finset.sum_le_sum_of_subset_of_nonneg (Finset.range_mono hk)
    fun i hi _ => (h i (Finset.mem_range.mp hi)).le

theorem endsWell_of_readable (hs : s.loop = .start) (h : Readable reads) :
    EndsWell (s.iterations reads writes) := by
  obtain ⟨n, h0, hpos, hsum⟩ := h
  have hne : ∀ i < n, reads i ≠ 0 := fun i hi => (hpos i hi).ne'
  have hint : ∀ k ≤ n, int (∑ i ∈ Finset.range k, reads i) = ∑ i ∈ Finset.range k, reads i :=
    fun k hk => (int_eq_self_of_nonneg (sum_nonneg fun i hi => hpos i (by omega))).mpr
      ((sum_le hpos hk).trans_lt hsum)
  have hrun : ∀ k, (k ≤ n ∧ (s.iterations reads writes k).1 = copied reads writes k ∧
      (s.iterations reads writes k).2.loop = ⟨.read, int (∑ i ∈ Finset.range k, reads i)⟩) ∨
      ((s.iterations reads writes k).1 = copied reads writes n ++ [.read 0] ∧
        (s.iterations reads writes k).2.loop = ⟨.ended, int (∑ i ∈ Finset.range n, reads i)⟩) := by
    intro k
    by_cases hk : k ≤ n
    · exact .inl ⟨hk, iterations_before writes hs fun i hi => hne i (by omega)⟩
    · obtain ⟨j, rfl⟩ := Nat.exists_eq_add_of_le (Nat.lt_of_not_le hk)
      exact .inr (iterations_after writes hs hne h0 j)
  refine ⟨⟨n + 1, ?_⟩, fun k count result hmem => ?_, fun k => ?_⟩
  · exact congrArg Loop.pc (iterations_after writes hs hne h0 0).2
  · obtain ⟨hk, hcalls, -⟩ | ⟨hcalls, -⟩ := hrun k
    · rw [hcalls] at hmem
      obtain ⟨i, hi, rfl, -⟩ := write_mem_copied.mp hmem
      exact (hpos i (by omega)).le
    · rw [hcalls, List.mem_append, List.mem_singleton] at hmem
      obtain ⟨i, hi, rfl, -⟩ := write_mem_copied.mp (hmem.resolve_right (by simp))
      exact (hpos i hi).le
  · obtain ⟨hk, hcalls, hloop⟩ | ⟨hcalls, hloop⟩ := hrun k
    · rw [hcalls, hloop, counted_copied fun i hi => hpos i (by omega)]
      exact hint k hk
    · rw [hcalls, hloop, List.map_append, List.sum_append, counted_copied hpos]
      simpa [Call.counted] using hint n le_rfl

theorem readable_of_endsWell (hs : s.loop = .start) (h : EndsWell (s.iterations reads writes)) :
    Readable reads := by
  obtain ⟨m, hm⟩ := h.ends
  have hzero : ∃ n, reads n = 0 := by
    by_contra hnone
    have hloop := (iterations_before (n := m) writes hs fun i _ hi => hnone ⟨i, hi⟩).2
    rw [hloop] at hm
    cases hm
  classical
  obtain ⟨h0, hmin⟩ : reads (Nat.find hzero) = 0 ∧ ∀ i < Nat.find hzero, reads i ≠ 0 :=
    ⟨Nat.find_spec hzero, fun i hi => Nat.find_min hzero hi⟩
  generalize Nat.find hzero = n at h0 hmin
  obtain ⟨hcalls, hloop⟩ := iterations_before writes hs hmin
  have hpos : ∀ i < n, 0 < reads i := by
    intro i hi
    have hcount := h.counts n (reads i) (writes i)
      (hcalls ▸ write_mem_copied.mpr ⟨i, hi, rfl, rfl⟩)
    exact lt_of_le_of_ne hcount (hmin i hi).symm
  have htotal := h.total n
  rw [hcalls, hloop, counted_copied hpos] at htotal
  exact ⟨n, h0, hpos, (int_eq_self_of_nonneg (sum_nonneg hpos)).mp htotal⟩

theorem endsWell_iff (hs : s.loop = .start) :
    EndsWell (s.iterations reads writes) ↔ Readable reads :=
  ⟨readable_of_endsWell hs, endsWell_of_readable hs⟩

/-- Each of the three loops does what it should exactly for the results of `read` that have no
error before the first 0, and not too many bytes. -/
theorem ends_well (reads writes : ℕ → ℤ) (input : List Byte) :
    (EndsWell (nicoe reads writes input) ↔ Readable reads) ∧
    (EndsWell (sckServidor reads writes input) ↔ Readable reads) ∧
    (EndsWell (sckCliente reads writes input) ↔ Readable reads) :=
  ⟨endsWell_iff rfl, endsWell_iff rfl, endsWell_iff rfl⟩

/-- With an error that stays the loop goes on for ever, and asks for -1 bytes each time. -/
theorem never_ends : (∀ n, (nicoe (fun _ => -1) (fun _ => -1) [] n).2.loop.pc = .read) ∧
    (nicoe (fun _ => -1) (fun _ => -1) [] 1).1 = [.read (-1), .write (-1) (-1)] ∧
    (nicoe (fun _ => -1) (fun _ => -1) [] 1).2.loop.total = -1 ∧
    ¬ EndsWell (nicoe (fun _ => -1) (fun _ => -1) []) := by
  have hpc : ∀ n, (nicoe (fun _ => -1) (fun _ => -1) [] n).2.loop.pc = .read := fun n =>
    congrArg Loop.pc (iterations_before (n := n) _ rfl fun _ _ => by decide).2
  refine ⟨hpc, rfl, rfl, fun h => ?_⟩
  obtain ⟨n, hn⟩ := h.ends
  cases (hpc n).symm.trans hn

end Copy
