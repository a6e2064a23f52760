import Mathlib.Algebra.Order.Ring.Int
import SistemasOperativos.Merge.Sorting

/-!
# The sort as a whole

The ranges of the threads tile the array, for every number of threads, so that the
threads do not meet and the merges after the joins line up.
-/
namespace MergeThreads

open Threads.Cells

/-! ## The split -/

/-- The ranges follow each other from `lo` to `hi`; some may be empty. -/
def Tiles (lo : ℤ) : List ArgThread → ℤ → Prop
  | [], hi => lo = hi
  | a :: rest, hi => a.indLeft = lo ∧ lo ≤ a.indRight + 1 ∧ Tiles (a.indRight + 1) rest hi

theorem argLoop_tiles {lengthArray len low : ℤ} {n : ℕ} (hlen : 0 ≤ len)
    (h : low + len * n ≤ lengthArray) :
    Tiles low (argLoop lengthArray len low (n + 1)) lengthArray := by
  induction n generalizing low with
  | zero =>
    rw [Int.natCast_zero, mul_zero] at h
    exact ⟨rfl, by simpa using h, by simp [Tiles]⟩
  | succ n ih =>
    refine ⟨rfl, by simpa using hlen, ?_⟩
    rw [Int.sub_add_cancel]
    refine ih ?_
    rw [Nat.cast_succ, mul_add, mul_one] at h
    omega

/-- The split is a tiling for every length and number of threads. -/
theorem argList_tiles (lengthArray : ℕ) {numberThreads : ℕ} (h : 0 < numberThreads) :
    Tiles 0 (argList lengthArray numberThreads) lengthArray := by
  obtain ⟨n, rfl⟩ : ∃ n, numberThreads = n + 1 := ⟨numberThreads - 1, by omega⟩
  have hdiv : (lengthArray : ℤ).tdiv (n + 1 : ℕ) = (lengthArray / (n + 1) : ℕ) := rfl
  unfold argList
  rw [hdiv]
  refine argLoop_tiles (Int.natCast_nonneg _) ?_
  have hle : lengthArray / (n + 1) * n ≤ lengthArray :=
    (Nat.mul_le_mul_left _ n.le_succ).trans (Nat.div_mul_le_self _ _)
  rw [zero_add]
  exact_mod_cast hle

variable {lo hi mid : ℤ} {args rest : List ArgThread} {a first : ArgThread}

theorem Tiles.le (h : Tiles lo args hi) : lo ≤ hi := by
  induction args generalizing lo with
  | nil => exact h.le
  | cons a rest ih => exact h.2.1.trans (ih h.2.2)

theorem Tiles.bounds (h : Tiles lo args hi) (ha : a ∈ args) :
    lo ≤ a.indLeft ∧ a.indLeft ≤ a.indRight + 1 ∧ a.indRight + 1 ≤ hi := by
  induction args generalizing lo with
  | nil => cases ha
  | cons b rest ih =>
    obtain ⟨h1, h2, h3⟩ := h
    obtain rfl | hmem := List.mem_cons.mp ha
    · exact ⟨h1.ge, h1.le.trans h2, h3.le⟩
    · obtain ⟨h4, h5⟩ := ih h3 hmem
      exact ⟨h2.trans h4, h5⟩

theorem Tiles.pairwise (h : Tiles lo args hi) :
    args.Pairwise fun a b => a.indRight < b.indLeft := by
  induction args generalizing lo with
  | nil => exact .nil
  | cons a rest ih =>
    refine .cons (fun b hb => ?_) (ih h.2.2)
    have := (h.2.2.bounds hb).1
    omega

/-! ## The threads -/

/-- The cells of a thread. -/
def Owns (args : List ArgThread) (t : Fin args.length) : ℤ → Prop :=
  Between (args.get t).indLeft (args.get t).indRight

theorem owns_disjoint (h : Tiles lo args hi) (t u : Fin args.length) (htu : t ≠ u) (i : ℤ)
    (ht : Owns args t i) : ¬ Owns args u i := by
  have hp := List.pairwise_iff_get.mp h.pairwise
  intro hu
  have h1 := ht.1
  have h2 := ht.2
  have h3 := hu.1
  have h4 := hu.2
  rcases lt_or_gt_of_ne htu with hlt | hgt
  · have : (args.get t).indRight < (args.get u).indLeft := hp t u hlt
    omega
  · have : (args.get u).indRight < (args.get t).indLeft := hp u t hgt
    omega

theorem workers_confined (args : List ArgThread) (array : ℤ → Int) (t : Fin args.length) :
    ((workers args array).code t).Confined (Owns args t) fun _ => True := by
  show (threadRoutine args[t]).Confined _ _
  rw [threadRoutine_eq]
  exact mergeSort_confined le_rfl le_rfl

variable {array : ℤ → Int} {tr : List (Fin args.length)} {x : Pool (Fin args.length) ℤ Int Unit}

theorem workers_follow (h : Tiles lo args hi) (hr : Run (workers args array) tr x) :
    Follows (Owns args) (fun _ => True) (workers args array) tr x :=
  hr.follows (workers_confined args array) (owns_disjoint h)

/-- After the joins the range of each thread is sorted. -/
theorem joined_sorted (h : Tiles lo args hi) (hr : Run (workers args array) tr x)
    (hj : x.Joined) (ha : a ∈ args) :
    segment x.mem a.indLeft (a.indRight - a.indLeft + 1).toNat =
      sorted (segment array a.indLeft (a.indRight - a.indLeft + 1).toNat) := by
  obtain ⟨t, ht, rfl⟩ := List.mem_iff_getElem.mp ha
  have hcell := fun i => (workers_follow h hr).joined hj ⟨t, ht⟩ (i := i)
  have halone : (((workers args array).code ⟨t, ht⟩).run array).2 = store array args[t].indLeft
      (sorted (segment array args[t].indLeft (args[t].indRight - args[t].indLeft + 1).toNat)) := by
    show ((threadRoutine args[t]).run array).2 = _
    rw [threadRoutine_eq, run_mergeSort]
  refine (segment_congr fun i h1 h2 => ?_).trans (segment_store_of_length (m := array) (by simp))
  rw [← halone]
  have h2' : i < args[t].indLeft + ((args[t].indRight - args[t].indLeft + 1).toNat : ℕ) := h2
  have hi : Owns args ⟨t, ht⟩ i := ⟨h1, show i ≤ args[t].indRight by omega⟩
  exact hcell i hi

/-! ## The last merges -/

/-- The merges extend a sorted prefix over the blocks that follow, each of them sorted. -/
theorem mergeBlocks_sorted {m : ℤ → Int} (h : Tiles mid rest hi) (hfirst : first.indLeft = lo)
    (hle : lo ≤ mid)
    (hpre : segment m lo (mid - lo).toNat = sorted (segment array lo (mid - lo).toNat))
    (hrest : ∀ a ∈ rest, segment m a.indLeft (a.indRight - a.indLeft + 1).toNat =
      sorted (segment array a.indLeft (a.indRight - a.indLeft + 1).toNat)) :
    segment ((mergeBlocks first rest).run m).2 lo (hi - lo).toNat =
      sorted (segment array lo (hi - lo).toNat) := by
  induction rest generalizing mid m with
  | nil =>
    obtain rfl : mid = hi := h
    exact hpre
  | cons a rest ih =>
    obtain ⟨rfl, hmid, htail⟩ := h
    have hblock := hrest a List.mem_cons_self
    have hla : a.indLeft - 1 - lo + 1 = a.indLeft - lo := by omega
    have hlb : a.indRight - (a.indLeft - 1) = a.indRight - a.indLeft + 1 := by omega
    have hlo : lo ≤ a.indLeft - 1 + 1 := by omega
    have hcat := segment_halves hlo (by omega : a.indLeft - 1 ≤ a.indRight) array
    rw [hla, hlb, Int.sub_add_cancel] at hcat
    have hmerge : (merge lo (a.indLeft - 1) a.indRight).run m = ((), store m lo
        (sorted (segment array lo (a.indRight - lo + 1).toNat))) := by
      rw [← hcat]
      exact merge_blocks (by rw [hla, hpre]) (by rw [hlb, Int.sub_add_cancel, hblock])
    simp only [mergeBlocks, Prog.run_bind, hfirst, hmerge]
    have hn : a.indRight + 1 - lo = a.indRight - lo + 1 := by omega
    refine ih htail (by omega) ?_ fun b hb => ?_
    · rw [hn]
      exact segment_store_of_length (by simp)
    · have hclear := (htail.bounds hb).1
      rw [segment_store_of_disjoint (.inr ?_)]
      · exact hrest b (List.mem_cons_of_mem a hb)
      · rw [length_sorted, length_segment]
        omega

/-- What the joined threads leave, the merges sort. -/
theorem finish_sorted (h : Tiles lo args hi) (hr : Run (workers args array) tr x)
    (hj : x.Joined) : segment ((finish args).run x.mem).2 lo (hi - lo).toNat =
      sorted (segment array lo (hi - lo).toNat) := by
  have hblocks := fun a ha => joined_sorted (a := a) h hr hj ha
  cases args with
  | nil =>
    obtain rfl : lo = hi := h
    rw [Int.sub_self, Int.toNat_zero, segment_zero, segment_zero, sorted_of_length (by simp)]
  | cons first rest =>
    obtain ⟨hfirst, hle, htail⟩ := h
    refine mergeBlocks_sorted htail hfirst hle ?_ fun a ha => hblocks a (List.mem_cons_of_mem _ ha)
    have hn : first.indRight + 1 - lo = first.indRight - lo + 1 := by omega
    rw [hn, ← hfirst]
    exact hblocks first List.mem_cons_self

/-! ## Accesses -/

theorem mergeBlocks_confined (h : Tiles mid rest hi) (hfirst : first.indLeft = lo)
    (hle : lo ≤ mid) :
    (mergeBlocks first rest).Confined (Between lo (hi - 1)) fun _ => True := by
  induction rest generalizing mid with
  | nil => exact .pure trivial
  | cons a rest ih =>
    obtain ⟨rfl, hmid, htail⟩ := h
    have hend := htail.le
    have hrest := ih htail (by omega)
    have hmerge : (merge lo (a.indLeft - 1) a.indRight).Confined (Between lo (hi - 1))
        fun _ => True :=
      (merge_confined (by omega) (by omega)).mono fun i hi => ⟨hi.1, hi.2.trans (by omega)⟩
    rw [mergeBlocks, hfirst]
    exact hmerge.bind fun _ _ => hrest

/-- Neither the threads nor the last merges leave the array. -/
theorem accesses_in_array (lengthArray : ℕ) {numberThreads : ℕ} (hT : 0 < numberThreads)
    (array : ℤ → Int) :
    (∀ t, ((workers (argList lengthArray numberThreads) array).code t).Confined
      (Between 0 (lengthArray - 1)) fun _ => True) ∧
    (finish (argList lengthArray numberThreads)).Confined
      (Between 0 (lengthArray - 1)) fun _ => True := by
  have h := argList_tiles lengthArray hT
  generalize argList lengthArray numberThreads = args at h
  refine ⟨fun t => (workers_confined args array t).mono fun i hi => ?_, ?_⟩
  · obtain ⟨hlo, -, hhi⟩ := h.bounds (List.getElem_mem t.isLt)
    exact ⟨hlo.trans hi.1, hi.2.trans (Int.le_sub_one_of_lt (Int.lt_of_add_one_le hhi))⟩
  · cases args with
    | nil => exact .pure trivial
    | cons first rest =>
      obtain ⟨hfirst, hle, htail⟩ := h
      exact mergeBlocks_confined htail hfirst hle

/-! ## The program -/

/-- The array at the end of `main`, from the state in which the threads are joined. -/
def result (lengthArray : ℕ) (args : List ArgThread) (x : Pool (Fin args.length) ℤ Int Unit) :
    List Int :=
  segment ((finish args).run x.mem).2 0 lengthArray

/-- For every array, every positive number of threads and every interleaving: the
threads come to their joins, and after the last merges the array is the input sorted. -/
theorem parallel_sort (lengthArray numberThreads : ℕ) (hT : 0 < numberThreads)
    (array : ℤ → Int) :
    (∃ n, ∀ tr x, Run (workers (argList lengthArray numberThreads) array) tr x →
      tr.length ≤ n ∧ ∃ tr' y,
        Run (workers (argList lengthArray numberThreads) array) (tr ++ tr') y ∧ y.Joined) ∧
    ∀ tr x, Run (workers (argList lengthArray numberThreads) array) tr x → x.Joined →
      (result lengthArray _ x).Pairwise (· ≤ ·) ∧
      (result lengthArray _ x).Perm (segment array 0 lengthArray) ∧
      result lengthArray _ x = sorted (segment array 0 lengthArray) := by
  have h := argList_tiles lengthArray hT
  generalize argList lengthArray numberThreads = args at h
  refine ⟨⟨∑ t, ((workers args array).code t).cost array, fun tr x hr => ⟨?_, ?_⟩⟩,
    fun tr x hr hj => ?_⟩
  · exact (Nat.le_add_right _ _).trans (workers_follow h hr).length.le
  · exact exists_joined (workers_confined args array) (owns_disjoint h) hr
  · have hout : result lengthArray args x = sorted (segment array 0 lengthArray) := by
      simpa [result] using finish_sorted h hr hj
    rw [hout]
    exact ⟨sorted_pairwise _, sorted_perm _, rfl⟩

/-- Three numbers sorted by two threads. -/
theorem parallel_sort_three : ∃ tr x,
    Run (workers (argList 3 2) fun i => if i = 0 then 3 else if i = 1 then 1 else 2) tr x ∧
    x.Joined ∧ result 3 (argList 3 2) x = [1, 2, 3] := by
  obtain ⟨⟨n, hall⟩, hsort⟩ := parallel_sort 3 2 (by decide)
    fun i => if i = 0 then 3 else if i = 1 then 1 else 2
  obtain ⟨-, tr, x, hr, hj⟩ := hall [] _ .nil
  refine ⟨_, x, hr, hj, (hsort _ x hr hj).2.2.trans (eq_sorted ?_ ?_).symm⟩
  · decide
  · decide

end MergeThreads
