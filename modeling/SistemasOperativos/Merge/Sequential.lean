import SistemasOperativos.Merge.Sorting
import SistemasOperativos.Threads.Checked

/-!
# The sorts with their index arithmetic

`merge.c`, and the functions of `merge_threads.c` once more, with each value of an index
expression. `ok` is the range of the integers.
-/
namespace MergeSequential

open Threads.Cells Threads.Cells.Checked

abbrev Code (α : Type) := Checked ℤ Int α

variable (ok : ℤ → Bool)

/-! ## The loops of both programs -/

/-- `for (i = 0; i < n; i++) L[i] = arr[at(i)]`, from `i` on. -/
def copyLoop (arr : ℤ → Code ℤ) (n i : ℤ) : Code (List Int) :=
  if i < n then do
    let v ← get (← arr i)
    let _ ← int ok (i + 1)
    let rest ← copyLoop arr n (i + 1)
    pure (v :: rest)
  else pure []
termination_by (n - i).toNat

/-- `while (i < n1) { arr[k] = L[i]; i++; k++; }`, with what is left of `L`. -/
def copyRest (i k : ℤ) : List Int → Code ℤ
  | [] => pure k
  | v :: rest => do
    set k v
    let _ ← int ok (i + 1)
    let _ ← int ok (k + 1)
    copyRest (i + 1) (k + 1) rest

def mergeLoop (i j k : ℤ) : List Int → List Int → Code Unit
  | l :: left, r :: right =>
    if l ≤ r then do
      set k l
      let _ ← int ok (i + 1)
      let _ ← int ok (k + 1)
      mergeLoop (i + 1) j (k + 1) left (r :: right)
    else do
      set k r
      let _ ← int ok (j + 1)
      let _ ← int ok (k + 1)
      mergeLoop i (j + 1) (k + 1) (l :: left) right
  | left, right => do
    let k ← copyRest ok i k left
    let _ ← copyRest ok j k right
    pure ()

/-- The blocks are read at `left i` and `right j`. -/
def mergeBlocks (left right : ℤ → Code ℤ) (l m r : ℤ) : Code Unit := do
  let n1 ← int ok ((← int ok (m - l)) + 1)
  let n2 ← int ok (r - m)
  let L ← copyLoop ok left n1 0
  let R ← copyLoop ok right n2 0
  mergeLoop ok 0 0 l L R

/-! ## `merge.c` -/

/-- `arr[l + i]` and `arr[m + 1 + j]`. -/
def merge (l m r : ℤ) : Code Unit :=
  mergeBlocks ok (fun i => int ok (l + i)) (fun j => do int ok ((← int ok (m + 1)) + j)) l m r

/-- `(l + r) / 2`. -/
def middle (l r : ℤ) : ℤ := (l + r).tdiv 2

theorem middle_spec {l r : ℤ} (hl : 0 ≤ l) (h : l < r) : l ≤ middle l r ∧ middle l r < r := by
  unfold middle
  rw [Int.tdiv_eq_ediv_of_nonneg (by omega)]
  omega

/-- For a negative `l` the recursion would not end. -/
def mergeSort (l r : ℤ) (hl : 0 ≤ l) : Code Unit :=
  if h : l < r then do
    let _ ← int ok (l + r)
    let m ← int ok (middle l r)
    mergeSort l (middle l r) hl
    let _ ← int ok (m + 1)
    mergeSort (middle l r + 1) r (by have := middle_spec hl h; omega)
    merge ok l m r
  else pure ()
termination_by (r - l).toNat
decreasing_by
  all_goals
    have := middle_spec hl h
    omega

/-! ## `merge_threads.c` -/

/-- `array[i + low]` and `array[i + half + 1]`. -/
def mergeThreads (low half high : ℤ) : Code Unit :=
  mergeBlocks ok (fun i => int ok (i + low)) (fun i => do int ok ((← int ok (i + half)) + 1))
    low half high

def mergeSortThreads (low high : ℤ) : Code Unit := do
  let _ ← int ok (high - low)
  let half ← int ok (MergeThreads.middle low high)
  if h : low < high then do
    mergeSortThreads low (MergeThreads.middle low high)
    let _ ← int ok (half + 1)
    mergeSortThreads (MergeThreads.middle low high + 1) high
    mergeThreads ok low half high
  else pure ()
termination_by (high - low).toNat
decreasing_by
  all_goals
    have := MergeThreads.middle_spec h
    omega

end MergeSequential
