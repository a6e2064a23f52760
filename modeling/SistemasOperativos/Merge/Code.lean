import SistemasOperativos.Threads.Cells

/-!
# Merge sort by several threads

`merge_threads.c`: the global array is a memory of cells, and each access to it is an
operation. What is local to a function, its temporary arrays too, is a value. The
processor that a thread is bound to plays no part.
-/
namespace MergeThreads

open Threads.Cells

abbrev Code (α : Type) := Prog ℤ Int α

/-- The loops that fill `left` and `right`: `n` cells from `base` on. -/
def copyBlock (base : ℤ) : ℕ → Code (List Int)
  | 0 => pure []
  | n + 1 => do
    let v ← Prog.get base
    let rest ← copyBlock (base + 1) n
    pure (v :: rest)

/-- The last two loops of `merge`, which empty one of the arrays. -/
def copyRest (indArray : ℤ) : List Int → Code ℤ
  | [] => pure indArray
  | v :: rest => do
    Prog.set indArray v
    copyRest (indArray + 1) rest

/-- The loops of `merge` that write, with what is left of `left` and `right`. -/
def mergeLoop (indArray : ℤ) : List Int → List Int → Code Unit
  | l :: left, r :: right =>
    if l ≤ r then do
      Prog.set indArray l
      mergeLoop (indArray + 1) left (r :: right)
    else do
      Prog.set indArray r
      mergeLoop (indArray + 1) (l :: left) right
  | left, right => do
    let indArray ← copyRest indArray left
    let _ ← copyRest indArray right
    pure ()

def merge (low half high : ℤ) : Code Unit := do
  let leftBlock := half - low + 1
  let rightBlock := high - half
  let left ← copyBlock low leftBlock.toNat
  let right ← copyBlock (half + 1) rightBlock.toNat
  mergeLoop low left right

/-- `low + (high - low) / 2`. -/
def middle (low high : ℤ) : ℤ := low + (high - low).tdiv 2

theorem middle_spec {low high : ℤ} (h : low < high) : low ≤ middle low high ∧ middle low high < high := by
  unfold middle
  rw [Int.tdiv_eq_ediv_of_nonneg (by omega)]
  omega

def mergeSort (low high : ℤ) : Code Unit :=
  if h : low < high then do
    mergeSort low (middle low high)
    mergeSort (middle low high + 1) high
    merge low (middle low high) high
  else pure ()
termination_by (high - low).toNat
decreasing_by
  all_goals
    have := middle_spec h
    omega

structure ArgThread where
  indLeft : ℤ
  indRight : ℤ
  deriving DecidableEq, Repr

def threadRoutine (info : ArgThread) : Code Unit :=
  if info.indLeft < info.indRight then do
    let half := middle info.indLeft info.indRight
    mergeSort info.indLeft half
    mergeSort (half + 1) info.indRight
    merge info.indLeft half info.indRight
  else pure ()

/-- The loop over `arg_list` from `low` on, with the number of threads that are left.
The last one takes the remainder. -/
def argLoop (lengthArray len : ℤ) : ℤ → ℕ → List ArgThread
  | _, 0 => []
  | low, 1 => [⟨low, lengthArray - 1⟩]
  | low, n + 2 => ⟨low, low + len - 1⟩ :: argLoop lengthArray len (low + len) (n + 1)

/-- `arg_list` before the threads are created. -/
def argList (lengthArray numberThreads : ℕ) : List ArgThread :=
  argLoop lengthArray ((lengthArray : ℤ).tdiv numberThreads) 0 numberThreads

/-- The loop of `merge` calls after the joins. -/
def mergeBlocks (argLeft : ArgThread) : List ArgThread → Code Unit
  | [] => pure ()
  | argRight :: rest => do
    merge argLeft.indLeft (argRight.indLeft - 1) argRight.indRight
    mergeBlocks argLeft rest

def finish : List ArgThread → Code Unit
  | [] => pure ()
  | argLeft :: rest => mergeBlocks argLeft rest

/-- The threads before their first access. -/
def workers (args : List ArgThread) (array : ℤ → Int) : Pool (Fin args.length) ℤ Int Unit where
  code t := threadRoutine args[t]
  mem := array

end MergeThreads
