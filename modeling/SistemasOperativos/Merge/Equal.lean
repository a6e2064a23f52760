import SistemasOperativos.Merge.Sequential

/-!
# The two sorts agree

While the index expressions are in range, both programs sort their cells.
-/
namespace MergeSequential

open Threads.Cells Threads.Cells.Checked
open MergeThreads (sorted Between)

variable {ok : ℤ → Bool} {n i j k l m r hi base : ℤ} {mem : ℤ → Int} {arr : ℤ → Code ℤ}
variable {left right : List Int}

/-- The range takes the indices up to `hi`. -/
def Within (ok : ℤ → Bool) (hi : ℤ) : Prop := ∀ n, 0 ≤ n → n ≤ hi → ok n = true

/-! ## The loops -/

theorem copyLoop_does (hok : Within ok hi) (hi0 : 0 ≤ i) (hn : n ≤ hi)
    (harr : ∀ j, i ≤ j → j < n → Does (arr j) mem (base + j) mem) :
    Does (copyLoop ok arr n i) mem (segment mem (base + i) (n - i).toNat) mem := by
  fun_induction copyLoop ok arr n i with
  | case1 i hlt ih =>
    have hlen : (n - i).toNat = (n - (i + 1)).toNat + 1 := by omega
    rw [hlen, segment_succ]
    refine Does.bind (harr i le_rfl hlt) ?_
    refine Does.bind (does_get _ _) ?_
    refine Does.bind (does_int (hok _ (by omega) (by omega)) _) ?_
    have hrest := ih (by omega) fun j hj => harr j (by omega)
    rw [← Int.add_assoc] at hrest
    exact Does.bind hrest (does_pure _ _)
  | case2 i hle =>
    have hlen : (n - i).toNat = 0 := by omega
    rw [hlen, segment_zero]
    exact does_pure _ _

/-- An element is written and its two indices go on. -/
theorem put_does {α : Type} {x : Code α} {a : α} {mem' : ℤ → Int} {v : Int} (hok : Within ok hi)
    (hi0 : 0 ≤ i) (hi1 : i + 1 ≤ hi) (hk0 : 0 ≤ k) (hk1 : k + 1 ≤ hi)
    (h : Does x (Function.update mem k v) a mem') :
    Does (do set k v; let _ ← int ok (i + 1); let _ ← int ok (k + 1); x) mem a mem' := by
  refine Does.bind (does_set _ _ _) ?_
  refine Does.bind (does_int (hok _ (by omega) hi1) _) ?_
  exact Does.bind (does_int (hok _ (by omega) hk1) _) h

theorem copyRest_does (hok : Within ok hi) (hi0 : 0 ≤ i) (hk0 : 0 ≤ k) (hil : i + left.length ≤ hi)
    (hkl : k + left.length ≤ hi) :
    Does (copyRest ok i k left) mem (k + left.length) (store mem k left) := by
  induction left generalizing i k mem with
  | nil => simpa [copyRest] using does_pure k mem
  | cons v left ih =>
    rw [List.length_cons] at hil hkl ⊢
    have hlen : k + ((left.length + 1 : ℕ) : ℤ) = k + 1 + left.length := by omega
    rw [store_cons, hlen]
    refine put_does hok hi0 (by omega) hk0 (by omega) ?_
    exact ih (by omega) (by omega) (by omega) (by omega)

theorem mergeLoop_does (hok : Within ok hi) (hi0 : 0 ≤ i) (hj0 : 0 ≤ j) (hk0 : 0 ≤ k)
    (hil : i + left.length ≤ hi) (hjl : j + right.length ≤ hi)
    (hkl : k + left.length + right.length ≤ hi) :
    Does (mergeLoop ok i j k left right) mem ()
      (store mem k (List.merge left right fun a b => a ≤ b)) := by
  fun_induction mergeLoop ok i j k left right generalizing mem with
  | case1 i j k l left r right hle ih =>
    simp only [List.length_cons] at hil hjl hkl ih
    rw [List.cons_merge_cons_pos _ _ _ (by simpa using hle), store_cons]
    refine put_does hok hi0 (by omega) hk0 (by omega) ?_
    exact ih (by omega) (by omega) (by omega) (by omega) (by omega) (by omega)
  | case2 i j k l left r right hle ih =>
    simp only [List.length_cons] at hil hjl hkl ih
    rw [List.cons_merge_cons_neg _ _ _ (by simpa using hle), store_cons]
    refine put_does hok hj0 (by omega) hk0 (by omega) ?_
    exact ih (by omega) (by omega) (by omega) (by omega) (by omega) (by omega)
  | case3 i j k left right hne =>
    have hmerge : store mem k (List.merge left right fun a b => a ≤ b) =
        store (store mem k left) (k + left.length) right := by
      cases left with
      | nil => simp
      | cons l left =>
        cases right with
        | nil => simp
        | cons r right => exact (hne l left r right rfl rfl).elim
    rw [hmerge]
    refine Does.bind (copyRest_does hok hi0 hk0 hil (by omega)) ?_
    refine Does.bind (copyRest_does hok hj0 (by omega) hjl (by omega)) ?_
    exact does_pure _ _

theorem mergeBlocks_does {at1 at2 : ℤ → Code ℤ} (hok : Within ok hi) (hl : 0 ≤ l) (hlm : l ≤ m)
    (hmr : m < r) (hhi : r + 1 ≤ hi)
    (h1 : ∀ j, 0 ≤ j → j < m - l + 1 → Does (at1 j) mem (l + j) mem)
    (h2 : ∀ j, 0 ≤ j → j < r - m → Does (at2 j) mem (m + 1 + j) mem) :
    Does (mergeBlocks ok at1 at2 l m r) mem () (store mem l
      (List.merge (segment mem l (m - l + 1).toNat) (segment mem (m + 1) (r - m).toNat)
        fun a b => a ≤ b)) := by
  refine Does.bind (does_int (hok _ (by omega) (by omega)) _) ?_
  refine Does.bind (does_int (hok _ (by omega) (by omega)) _) ?_
  refine Does.bind (does_int (hok _ (by omega) (by omega)) _) ?_
  have hL := copyLoop_does hok le_rfl (show m - l + 1 ≤ hi by omega) h1
  have hR := copyLoop_does hok le_rfl (show r - m ≤ hi by omega) h2
  rw [Int.add_zero, Int.sub_zero] at hL hR
  refine Does.bind hL (Does.bind hR ?_)
  refine mergeLoop_does hok le_rfl le_rfl hl ?_ ?_ ?_
  · rw [length_segment]
    omega
  · rw [length_segment]
    omega
  · rw [length_segment, length_segment]
    omega

/-! ## The recursions -/

theorem merge_does (hok : Within ok hi) (hl : 0 ≤ l) (hlm : l ≤ m) (hmr : m < r) (hhi : r + 1 ≤ hi) :
    Does (merge ok l m r) mem () (store mem l
      (List.merge (segment mem l (m - l + 1).toNat) (segment mem (m + 1) (r - m).toNat)
        fun a b => a ≤ b)) := by
  refine mergeBlocks_does hok hl hlm hmr hhi (fun j hj hjm => ?_) fun j hj hjr => ?_
  · exact does_int (hok _ (by omega) (by omega)) _
  · refine Does.bind (does_int (hok _ (by omega) (by omega)) _) ?_
    exact does_int (hok _ (by omega) (by omega)) _

theorem mergeThreads_does (hok : Within ok hi) (hl : 0 ≤ l) (hlm : l ≤ m) (hmr : m < r)
    (hhi : r + 1 ≤ hi) :
    Does (mergeThreads ok l m r) mem () (store mem l
      (List.merge (segment mem l (m - l + 1).toNat) (segment mem (m + 1) (r - m).toNat)
        fun a b => a ≤ b)) := by
  refine mergeBlocks_does hok hl hlm hmr hhi (fun j hj hjm => ?_) fun j hj hjr => ?_
  · rw [Int.add_comm l j]
    exact does_int (hok _ (by omega) (by omega)) _
  · have hadd : m + 1 + j = j + m + 1 := by omega
    rw [hadd]
    refine Does.bind (does_int (hok _ (by omega) (by omega)) _) ?_
    exact does_int (hok _ (by omega) (by omega)) _

theorem sorted_single (h : r ≤ l) (mem : ℤ → Int) :
    store mem l (sorted (segment mem l (r - l + 1).toNat)) = mem := by
  rw [MergeThreads.sorted_of_length (by rw [length_segment]; omega), store_segment]

/-- `merge.c` sorts where the sums of its indices are in range too. -/
theorem mergeSort_does (hok : Within ok hi) (hl : 0 ≤ l) (hhi : r + 1 ≤ hi)
    (hsum : ∀ l' r', l ≤ l' → l' < r' → r' ≤ r → ok (l' + r') = true) :
    Does (mergeSort ok l r hl) mem () (store mem l (sorted (segment mem l (r - l + 1).toNat))) := by
  fun_induction mergeSort ok l r hl generalizing mem with
  | case1 l r hl hlt ih1 ih2 =>
    obtain ⟨hlm, hmr⟩ := middle_spec hl hlt
    have hright : r - (middle l r + 1) + 1 = r - middle l r := by omega
    refine Does.bind (does_int (hsum l r le_rfl hlt le_rfl) _) ?_
    refine Does.bind (does_int (hok _ (by omega) (by omega)) _) ?_
    refine Does.bind (ih1 (by omega) fun l' r' h1 h2 h3 => hsum l' r' h1 h2 (by omega)) ?_
    refine Does.bind (does_int (hok _ (by omega) (by omega)) _) ?_
    refine Does.bind (ih2 hhi fun l' r' h1 h2 h3 => hsum l' r' (by omega) h2 h3) ?_
    rw [hright, ← MergeThreads.sort_halves hlm hmr rfl rfl]
    exact merge_does hok hl hlm hmr hhi
  | case2 l r hl hle =>
    rw [sorted_single (by omega)]
    exact does_pure _ _

theorem middleThreads_range (h : l ≤ r) :
    l ≤ MergeThreads.middle l r ∧ MergeThreads.middle l r ≤ r := by
  unfold MergeThreads.middle
  rw [Int.tdiv_eq_ediv_of_nonneg (by omega)]
  omega

/-- `merge_threads.c` needs nothing more than its indices. -/
theorem mergeSortThreads_does (hok : Within ok hi) (hl : 0 ≤ l) (hlr : l ≤ r) (hhi : r + 1 ≤ hi) :
    Does (mergeSortThreads ok l r) mem ()
      (store mem l (sorted (segment mem l (r - l + 1).toNat))) := by
  fun_induction mergeSortThreads ok l r generalizing mem with
  | case1 l r ih1 ih2 =>
    obtain ⟨hge, hle⟩ := middleThreads_range hlr
    refine Does.bind (does_int (hok _ (by omega) (by omega)) _) ?_
    refine Does.bind (does_int (hok _ (by omega) (by omega)) _) ?_
    by_cases hlt : l < r
    · obtain ⟨hlm, hmr⟩ := MergeThreads.middle_spec hlt
      have hright : r - (MergeThreads.middle l r + 1) + 1 = r - MergeThreads.middle l r := by omega
      rw [dif_pos hlt]
      refine Does.bind (ih1 hlt hl hlm (by omega)) ?_
      refine Does.bind (does_int (hok _ (by omega) (by omega)) _) ?_
      refine Does.bind (ih2 hlt (by omega) (by omega) hhi) ?_
      rw [hright, ← MergeThreads.sort_halves hlm hmr rfl rfl]
      exact mergeThreads_does hok hl hlm hmr hhi
    · rw [dif_neg hlt, sorted_single (by omega)]
      exact does_pure _ _

/-! ## Footprints -/

theorem copyLoop_confined {A : ℤ → Prop} (hn : 0 ≤ n - i)
    (harr : ∀ j, i ≤ j → j < n → Confined A A (arr j)) :
    Confined A (fun L => (L.length : ℤ) = n - i) (copyLoop ok arr n i) := by
  fun_induction copyLoop ok arr n i with
  | case1 i hlt ih =>
    refine confined_bind (harr i le_rfl hlt) fun a ha => ?_
    refine confined_bind (confined_get ha) fun v _ => ?_
    refine confined_bind (confined_int ok rfl) fun _ _ => ?_
    refine confined_bind (ih (by omega) fun j hj => harr j (by omega)) fun L hL => ?_
    refine confined_pure ?_
    rw [List.length_cons]
    omega
  | case2 i hle =>
    refine confined_pure ?_
    rw [List.length_nil]
    omega

theorem put_confined {α : Type} {x : Code α} {A : ℤ → Prop} {Q : α → Prop} (v : Int) (hk : A k)
    (h : Confined A Q x) :
    Confined A Q (do set k v; let _ ← int ok (i + 1); let _ ← int ok (k + 1); x) := by
  refine confined_bind (confined_set hk) fun _ _ => ?_
  refine confined_bind (confined_int ok rfl) fun _ _ => ?_
  exact confined_bind (confined_int ok rfl) fun _ _ => h

theorem copyRest_confined {lo : ℤ} (h1 : lo ≤ k) (h2 : k + left.length ≤ r + 1) :
    Confined (Between lo r) (fun k' => k' = k + left.length) (copyRest ok i k left) := by
  induction left generalizing i k with
  | nil => exact confined_pure (by simp)
  | cons v left ih =>
    rw [List.length_cons] at h2 ⊢
    refine put_confined v ⟨h1, by omega⟩ ?_
    have hlen : k + ((left.length + 1 : ℕ) : ℤ) = k + 1 + left.length := by omega
    rw [hlen]
    exact ih (by omega) (by omega)

theorem mergeLoop_confined {lo : ℤ} (h1 : lo ≤ k)
    (h2 : k + left.length + right.length ≤ r + 1) :
    Confined (Between lo r) (fun _ => True) (mergeLoop ok i j k left right) := by
  fun_induction mergeLoop ok i j k left right with
  | case1 i j k l left v right hle ih | case2 i j k l left v right hle ih =>
    simp only [List.length_cons] at h2 ih
    refine put_confined _ ⟨h1, by omega⟩ ?_
    exact ih (by omega) (by omega)
  | case3 i j k left right hne =>
    refine confined_bind (copyRest_confined h1 (by omega)) fun k' hk => ?_
    exact confined_bind (copyRest_confined (by omega) (by omega)) fun _ _ => confined_pure trivial

theorem merge_confined (h1 : l ≤ m) (h2 : m < r) :
    Confined (Between l r) (fun _ => True) (merge ok l m r) := by
  refine confined_bind (confined_int ok rfl) fun d hd => ?_
  refine confined_bind (confined_int ok rfl) fun n1 hn1 => ?_
  refine confined_bind (confined_int ok rfl) fun n2 hn2 => ?_
  refine confined_bind (copyLoop_confined (by omega) fun j hj hjn => ?_) fun L hL => ?_
  · exact confined_int ok ⟨by omega, by omega⟩
  refine confined_bind (copyLoop_confined (by omega) fun j hj hjn => ?_) fun R hR => ?_
  · refine confined_bind (confined_int ok rfl) fun m' hm' => ?_
    exact confined_int ok ⟨by omega, by omega⟩
  exact mergeLoop_confined le_rfl (by omega)

theorem mergeSort_confined {lo hi : ℤ} (hl : 0 ≤ l) (h1 : lo ≤ l) (h2 : r ≤ hi) :
    Confined (Between lo hi) (fun _ => True) (mergeSort ok l r hl) := by
  fun_induction mergeSort ok l r hl with
  | case1 l r hl hlt ih1 ih2 =>
    obtain ⟨hlm, hmr⟩ := middle_spec hl hlt
    refine confined_bind (confined_int ok rfl) fun _ _ => ?_
    refine confined_bind (confined_int ok rfl) fun m hm => ?_
    refine confined_bind (ih1 h1 (by omega)) fun _ _ => ?_
    refine confined_bind (confined_int ok rfl) fun _ _ => ?_
    refine confined_bind (ih2 (by omega) h2) fun _ _ => ?_
    refine confined_mono (merge_confined (by omega) (by omega)) fun i hi' => ?_
    exact ⟨h1.trans hi'.1, hi'.2.trans h2⟩
  | case2 l r hl hle => exact confined_pure trivial

/-! ## Both programs -/

/-- The indices are integers without bound. -/
def unbounded : ℤ → Bool := fun _ => true

theorem within_unbounded : Within unbounded hi := fun _ _ _ => rfl

/-- Both sorts come to an end, touch only the cells from `l` to `r` and leave there the one
sorted permutation of what was there. -/
theorem sorts_agree (hl : 0 ≤ l) (hlr : l ≤ r) (arr : ℤ → Int) :
    Confined (Between l r) (fun _ => True) (mergeSort unbounded l r hl) ∧
    (MergeThreads.mergeSort l r).Confined (Between l r) (fun _ => True) ∧
    ∃ arr', Does (mergeSort unbounded l r hl) arr () arr' ∧
      (MergeThreads.mergeSort l r).run arr = ((), arr') ∧
      (∀ i, i < l ∨ r < i → arr' i = arr i) ∧
      (segment arr' l (r - l + 1).toNat).Pairwise (· ≤ ·) ∧
      (segment arr' l (r - l + 1).toNat).Perm (segment arr l (r - l + 1).toNat) := by
  have hlen : (sorted (segment arr l (r - l + 1).toNat)).length = (r - l + 1).toNat := by
    simp
  refine ⟨mergeSort_confined hl le_rfl le_rfl, MergeThreads.mergeSort_confined le_rfl le_rfl, _,
    mergeSort_does within_unbounded hl le_rfl fun _ _ _ _ _ => rfl,
    MergeThreads.run_mergeSort, fun i hi => ?_, ?_, ?_⟩
  · obtain hi | hi := hi
    · exact store_below hi
    · exact store_above (by omega)
  · rw [segment_store_of_length hlen]
    exact MergeThreads.sorted_pairwise _
  · rw [segment_store_of_length hlen]
    exact MergeThreads.sorted_perm _

/-- Cells 1 to 3 of the array 5, 4, 3, 2, 1 are sorted. -/
theorem sorts_agree_three : ∃ arr',
    Does (mergeSort unbounded 1 3 (by decide)) (fun i => 5 - i) () arr' ∧
    (MergeThreads.mergeSort 1 3).run (fun i => 5 - i) = ((), arr') ∧
    segment arr' 1 3 = [2, 3, 4] ∧ arr' 0 = 5 ∧ arr' 4 = 1 := by
  obtain ⟨-, -, arr', hc, hthreads, hout, hsorted, hperm⟩ :=
    sorts_agree (l := 1) (r := 3) (by decide) (by decide) fun i => 5 - i
  refine ⟨arr', hc, hthreads, ?_, hout 0 (by decide), hout 4 (by decide)⟩
  have hlist : [2, 3, 4] = sorted (segment (fun i => 5 - i) 1 3) :=
    MergeThreads.eq_sorted (by decide) (by decide)
  exact (MergeThreads.eq_sorted hsorted hperm).trans hlist.symm

end MergeSequential
