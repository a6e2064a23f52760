import Mathlib.Algebra.Order.BigOperators.Group.List
import Mathlib.Algebra.Order.Ring.Int
import SistemasOperativos.Times.Code

/-!
# Averages without the seconds

Both programs subtract the microseconds of the clock and leave its seconds out.
-/
namespace Times

open Text Threads.Cells

variable {n acum x e : ℤ} {m : Measurement} {ms : List Measurement}

/-! ## What should be printed -/

def Measurement.elapsed (m : Measurement) : ℤ := m.childTime.micros - m.parentTime.micros

def total (ms : List Measurement) : ℤ := (ms.map Measurement.elapsed).sum

def trueAverage (ms : List Measurement) : ℤ := (total ms).tdiv ms.length

/-! ## What is left out -/

/-- The seconds between the two values of the clock, as it shows them. -/
def Measurement.seconds (m : Measurement) : ℤ := m.childTime.tvSec - m.parentTime.tvSec

def seconds (ms : List Measurement) : ℤ := (ms.map Measurement.seconds).sum

def Measurement.usecs (m : Measurement) : ℤ := m.childTime.tvUsec - m.parentTime.tvUsec

theorem elapsed_nonneg (m : Measurement) : 0 ≤ m.elapsed := Int.sub_nonneg_of_le m.ordered

theorem usecs_eq (m : Measurement) : m.usecs = m.elapsed - 1000000 * m.seconds := by
  simp only [Measurement.usecs, Measurement.elapsed, Measurement.seconds, Timeval.micros]
  omega

theorem usecs_range (m : Measurement) : -1000000 < m.usecs ∧ m.usecs < 1000000 := by
  have hp := m.parentTime.range
  have hc := m.childTime.range
  unfold Measurement.usecs
  omega

/-- The clock does not go back by a second. -/
theorem seconds_nonneg (m : Measurement) : 0 ≤ m.seconds := by
  have h0 := elapsed_nonneg m
  have heq := usecs_eq m
  have hrange := usecs_range m
  omega

theorem sum_usecs (ms : List Measurement) :
    (ms.map Measurement.usecs).sum = total ms - 1000000 * seconds ms := by
  induction ms with
  | nil => rfl
  | cons m ms ih =>
    simp only [total, seconds, List.map_cons, List.sum_cons] at ih ⊢
    rw [ih, usecs_eq]
    omega

theorem sum_usecs_range (ms : List Measurement) :
    -(1000000 * ms.length) ≤ (ms.map Measurement.usecs).sum ∧
      (ms.map Measurement.usecs).sum ≤ 1000000 * ms.length := by
  induction ms with
  | nil => exact ⟨le_rfl, le_rfl⟩
  | cons m ms ih =>
    have hrange := usecs_range m
    simp only [List.map_cons, List.sum_cons, List.length_cons]
    omega

/-! ## The sums of the programs -/

theorem long_eq_self (h1 : -2 ^ 63 ≤ x) (h2 : x < 2 ^ 63) : long x = x :=
  Int.bmod_eq_of_le_mul_two (by omega) (by omega)

theorem long_usecs (m : Measurement) : long m.usecs = m.usecs := by
  have hrange := usecs_range m
  exact long_eq_self (by omega) (by omega)

theorem long_add (x y : ℤ) : long (long x + y) = long (x + y) := Int.bmod_add_bmod

/-- The sum may leave the range on the way and come back. -/
theorem foldl_long (l : List ℤ) (x : ℤ) :
    l.foldl (fun acum t => long (acum + t)) (long x) = long (x + l.sum) := by
  induction l generalizing x with
  | nil => simp
  | cons t l ih => rw [List.foldl_cons, long_add, ih, List.sum_cons, Int.add_assoc]

theorem foldl_usecs (hn : ms.length < 2 ^ 31) :
    (ms.map Measurement.usecs).foldl (fun acum t => long (acum + t)) 0 =
      total ms - 1000000 * seconds ms := by
  have hrange := sum_usecs_range ms
  have h0 : (0 : ℤ) = long 0 := rfl
  rw [h0, foldl_long, Int.zero_add, ← sum_usecs]
  exact long_eq_self (by omega) (by omega)

/-! ## `proc_time.c` -/

theorem readPipe_short {text : List Byte} (h : text.length < lenBuff) :
    readPipe text = text ++ 0 :: List.replicate (lenBuff - text.length - 1) 0 := by
  have hsub : lenBuff - text.length = lenBuff - text.length - 1 + 1 := by omega
  rw [readPipe, List.take_of_length_le h.le, hsub, List.replicate_succ, ← hsub]

/-- The parent gets the number that the child has printed. -/
theorem measured_eq (m : Measurement) : measured m = some m.usecs := by
  have hrange := m.childTime.range
  have hld : child m.childTime = decimal m.childTime.tvUsec.natAbs := by
    rw [child, ld, if_neg (by omega)]
  have hlen : (child m.childTime).length ≤ 6 := by
    rw [hld]
    exact decimal_length (by omega)
  have hshort : (child m.childTime).length < lenBuff := hlen.trans_lt (by decide)
  have hstr : str (readPipe (child m.childTime)) = some (ld m.childTime.tvUsec) := by
    rw [readPipe_short hshort]
    exact str_append (zero_not_mem_ld _) _
  have hlong : long (m.childTime.tvUsec - m.parentTime.tvUsec) = m.usecs := long_usecs m
  simp only [measured, hstr, Option.bind_eq_bind, Option.bind_some, atol_ld, hlong]

theorem procTime_eq (hn : ms.length < 2 ^ 31) :
    procTime ms.length ms = some (average (total ms - 1000000 * seconds ms) ms.length) := by
  have hfold : ∀ acum, ms.foldlM (fun acum m => (measured m).map fun t => long (acum + t)) acum =
      some ((ms.map Measurement.usecs).foldl (fun acum t => long (acum + t)) acum) := by
    clear hn
    induction ms with
    | nil => exact fun _ => rfl
    | cons m ms ih =>
      intro acum
      rw [List.foldlM_cons, measured_eq]
      exact ih _
  rw [procTime, if_neg (by omega), hfold, foldl_usecs hn]
  rfl

/-! ## `thread_time.c` -/

variable {tr : List (Fin ms.length)} {y : Pool (Fin ms.length) ℕ ℤ Unit}

theorem hilos_confined (ms : List Measurement) (id : Fin ms.length) :
    ((hilos ms).code id).Confined (fun i => i = (id : ℕ)) fun _ => True := .set rfl

theorem hilos_disjoint (id id' : Fin ms.length) (h : id ≠ id') (i : ℕ) (hi : i = id) : i ≠ id' := by
  rintro rfl
  exact h (Fin.ext hi.symm)

/-- Every interleaving of the threads can be finished. -/
theorem hilos_join (ms : List Measurement) {tr : List (Fin ms.length)}
    {y : Pool (Fin ms.length) ℕ ℤ Unit} (h : Run (hilos ms) tr y) :
    ∃ tr' z, Run (hilos ms) (tr ++ tr') z ∧ z.Joined :=
  exists_joined (hilos_confined ms) hilos_disjoint h

theorem times_joined (h : Run (hilos ms) tr y) (hj : y.Joined) (id : Fin ms.length) :
    y.mem id = (ms.get id).usecs := by
  have hcell := (h.follows (hilos_confined ms) hilos_disjoint).joined hj id rfl
  have hset : (((hilos ms).code id).run (hilos ms).mem).2 id = long (ms.get id).usecs :=
    Function.update_self ..
  rw [hcell, hset, long_usecs]

theorem threadTime_eq (hn : ms.length < 2 ^ 31) (h : Run (hilos ms) tr y) (hj : y.Joined) :
    threadTime ms.length y.mem = average (total ms - 1000000 * seconds ms) ms.length := by
  have htimes : (List.range ms.length).map y.mem = ms.map Measurement.usecs := by
    refine List.ext_getElem (by simp) fun i hi hi' => ?_
    rw [List.length_map] at hi'
    simpa using times_joined h hj ⟨i, hi'⟩
  have hfold := foldl_usecs hn
  rw [← htimes, List.foldl_map] at hfold
  rw [threadTime, if_neg (by omega), Int.toNat_natCast]
  exact congrArg (average · _) hfold

/-! ## When nothing is seen of it -/

/-- The seconds that are left out are lost in the rounding. -/
def Absorbed (ms : List Measurement) : Prop :=
  1000000 * seconds ms ≤ total ms % ms.length ∨
    total ms < ms.length ∧ 1000000 * seconds ms < total ms + ms.length

instance (ms : List Measurement) : Decidable (Absorbed ms) :=
  inferInstanceAs (Decidable (_ ∨ _))

theorem ediv_sub_eq (hn : 0 < n) (hx : 0 ≤ x) : (e - x) / n = e / n ↔ x ≤ e % n := by
  have hdiv := Int.mul_ediv_add_emod e n
  have hlt := Int.emod_lt_of_pos e hn
  rw [Int.ediv_eq_iff_of_pos hn, Int.mul_comm]
  omega

theorem ediv_eq_zero (hn : 0 < n) (he : 0 ≤ e) : e / n = 0 ↔ e < n := by
  rw [Int.ediv_eq_iff_of_pos hn]
  omega

/-- Taking `x` away from a number that is not negative keeps the quotient if it stays in the
remainder, or if both quotients are rounded to 0. -/
theorem tdiv_sub_eq (hn : 0 < n) (he : 0 ≤ e) (hx : 0 ≤ x) :
    (e - x).tdiv n = e.tdiv n ↔ x ≤ e % n ∨ e < n ∧ x < e + n := by
  rw [Int.tdiv_eq_ediv_of_nonneg he]
  by_cases hxe : x ≤ e
  · rw [Int.tdiv_eq_ediv_of_nonneg (by omega), ediv_sub_eq hn hx]
    refine ⟨Or.inl, ?_⟩
    rintro (h | ⟨hlt, -⟩)
    · exact h
    · rwa [Int.emod_eq_of_lt he hlt]
  · -- the quotient is rounded up to 0 or a negative number
    have hneg : (e - x).tdiv n = -((x - e) / n) := by
      rw [← Int.neg_sub, Int.neg_tdiv, Int.tdiv_eq_ediv_of_nonneg (by omega)]
    have hpos := Int.ediv_nonneg (show 0 ≤ x - e by omega) hn.le
    have hpos' := Int.ediv_nonneg he hn.le
    have hboth : -((x - e) / n) = e / n ↔ (x - e) / n = 0 ∧ e / n = 0 := by omega
    have hmod : e % n ≤ e := by
      have hdiv := Int.mul_ediv_add_emod e n
      have hmul := Int.mul_nonneg hn.le hpos'
      omega
    rw [hneg, hboth, ediv_eq_zero hn (by omega), ediv_eq_zero hn he]
    omega

theorem sum_map_nonneg {f : Measurement → ℤ} (h : ∀ m, 0 ≤ f m) (ms : List Measurement) :
    0 ≤ (ms.map f).sum :=
  List.sum_nonneg fun t ht => by
    obtain ⟨m, -, rfl⟩ := List.mem_map.mp ht
    exact h m

theorem seconds_sum_nonneg (ms : List Measurement) : 0 ≤ seconds ms :=
  sum_map_nonneg seconds_nonneg ms

theorem total_nonneg (ms : List Measurement) : 0 ≤ total ms :=
  sum_map_nonneg elapsed_nonneg ms

theorem average_iff (ms : List Measurement) :
    average (total ms - 1000000 * seconds ms) ms.length = .printed (trueAverage ms) ↔
      ms ≠ [] ∧ Absorbed ms := by
  have hsec := seconds_sum_nonneg ms
  by_cases hne : ms = []
  · subst hne
    simp [average]
  · have hlen := List.length_pos_iff.mpr hne
    rw [average, if_neg (by omega), Outcome.printed.injEq, trueAverage,
      tdiv_sub_eq (by omega) (total_nonneg ms) (by omega)]
    exact (and_iff_right hne).symm

/-- A `double` holds what is printed exactly. -/
theorem prom_range {prom : ℤ}
    (h : average (total ms - 1000000 * seconds ms) ms.length = .printed prom) :
    prom.natAbs ≤ 1000000 := by
  have hrange := sum_usecs_range ms
  rw [sum_usecs] at hrange
  unfold average at h
  split at h
  · cases h
  · cases h
    rw [Int.natAbs_tdiv, Int.natAbs_natCast]
    refine Nat.div_le_of_le_mul ?_
    omega

theorem seconds_eq_zero : seconds ms = 0 ↔ ∀ m ∈ ms, m.childTime.tvSec = m.parentTime.tvSec := by
  have hzero : ∀ m : Measurement, m.seconds = 0 ↔ m.childTime.tvSec = m.parentTime.tvSec :=
    fun m => Int.sub_eq_zero
  simp only [← hzero]
  induction ms with
  | nil => simp [seconds]
  | cons m ms ih =>
    have hm := seconds_nonneg m
    have hms := seconds_sum_nonneg ms
    rw [List.forall_mem_cons]
    refine Iff.trans ?_ (and_congr_right' ih)
    simp only [seconds, List.map_cons, List.sum_cons] at hms ⊢
    omega

/-- Up to half a million measurements not a second is absorbed. -/
theorem absorbed_few (h : ms.length ≤ 500000) :
    Absorbed ms ↔ ∀ m ∈ ms, m.childTime.tvSec = m.parentTime.tvSec := by
  have hsec := seconds_sum_nonneg ms
  rw [← seconds_eq_zero]
  by_cases hne : ms = []
  · subst hne
    simp [Absorbed, seconds, total]
  · have hlen := List.length_pos_iff.mpr hne
    have hpos := Int.emod_nonneg (total ms) (show (ms.length : ℤ) ≠ 0 by omega)
    have hlt := Int.emod_lt_of_pos (total ms) (show (0 : ℤ) < ms.length by omega)
    unfold Absorbed
    omega

/-- Both programs print the average of the elapsed times if and only if there is a
measurement and the seconds that they leave out are lost in the rounding; up to half a million
measurements that is to say that there are none. -/
theorem true_average (ms : List Measurement) (hn : ms.length < 2 ^ 31) :
    (procTime ms.length ms = some (.printed (trueAverage ms)) ↔ ms ≠ [] ∧ Absorbed ms) ∧
    (∀ tr y, Run (hilos ms) tr y → y.Joined →
      (threadTime ms.length y.mem = .printed (trueAverage ms) ↔ ms ≠ [] ∧ Absorbed ms)) ∧
    (ms.length ≤ 500000 →
      (Absorbed ms ↔ ∀ m ∈ ms, m.childTime.tvSec = m.parentTime.tvSec)) := by
  refine ⟨?_, fun tr y h hj => ?_, absorbed_few⟩
  · rw [procTime_eq hn, Option.some.injEq]
    exact average_iff ms
  · rw [threadTime_eq hn h hj]
    exact average_iff ms

/-- A new second begins between the two calls. -/
def straddling : Measurement where
  parentTime := ⟨0, 999999, by decide⟩
  childTime := ⟨1, 3, by decide⟩
  ordered := by decide

def within : Measurement where
  parentTime := ⟨7, 100, by decide⟩
  childTime := ⟨7, 109, by decide⟩
  ordered := by decide

theorem true_average_two : procTime 2 [within, within] = some (.printed 9) ∧
    ∃ tr y, Run (hilos [within, within]) tr y ∧ y.Joined ∧ threadTime 2 y.mem = .printed 9 := by
  obtain ⟨hproc, hthread, -⟩ := true_average [within, within] (by decide)
  obtain ⟨tr, y, h, hj⟩ := hilos_join [within, within] .nil
  exact ⟨hproc.mpr (by decide), _, y, h, hj, (hthread _ y h hj).mpr (by decide)⟩

/-- Without any measurement the programs divide by zero, and a second that passes during the
measurement makes the average negative. -/
theorem wrong_averages : procTime 0 [] = some .divisionByZero ∧
    threadTime 0 (fun _ => 0) = .divisionByZero ∧
    procTime 1 [straddling] = some (.printed (-999996)) ∧ trueAverage [straddling] = 4 ∧
    ∃ tr y, Run (hilos [straddling]) tr y ∧ y.Joined ∧ threadTime 1 y.mem = .printed (-999996) := by
  obtain ⟨tr, y, h, hj⟩ := hilos_join [straddling] .nil
  have hn : [straddling].length < 2 ^ 31 := by decide
  exact ⟨by decide, by decide, procTime_eq hn, by decide, _, y, h, hj, threadTime_eq hn h hj⟩

end Times
