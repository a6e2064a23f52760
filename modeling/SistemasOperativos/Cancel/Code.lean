import SistemasOperativos.Text.Format
import SistemasOperativos.Threads.Run

/-!
# A thread that is cancelled

`cancel_sync.c` and `cancel_async.c`: a thread that flips the cells of a matrix for ever, and
the thread that cancels it, waits for its end and prints the matrix. Where the cancellation
is asynchronous it is acted on before any access of the memory.
-/
namespace Cancel

open Threads Threads.Op Text

def size : ℕ := 10

inductive Tid
  | main
  | routine
  deriving DecidableEq, Repr

structure Shared where
  matrix : ℕ → ℕ → ℤ
  printed : List Byte

/-- One access of `matrix[i][j]`; `v` is the value about to be stored. -/
inductive Access
  | clear (i j : ℕ)
  | test (i j : ℕ)
  | store (i j : ℕ) (v : ℤ)
  deriving DecidableEq, Repr

inductive SyncPc
  | access (p : Access)
  | testcancel
  deriving DecidableEq, Repr

/-- `cancel` is just before an access. -/
inductive AsyncPc
  | setcanceltype
  | cancel (p : Access)
  | access (p : Access)
  deriving DecidableEq, Repr

inductive MainPc
  | create
  | sleep
  | cancel
  | join
  | print
  | finished
  deriving DecidableEq, Repr

/-- `R` are the locations of the routine. -/
abbrev Loc (R : Type) : Tid → Type
  | .main => MainPc
  | .routine => R

abbrev Instr (L : Type) := Threads.Op Empty Shared Empty Tid L
abbrev State (R : Type) := Threads.State Empty Shared Tid (Loc R)
abbrev Label (R : Type) := Threads.Label Empty Tid (Loc R)

def setCell (i j : ℕ) (v : ℤ) (m : ℕ → ℕ → ℤ) : ℕ → ℕ → ℤ :=
  Function.update m i (Function.update (m i) j v)

/-- The next round of the two `for` loops. -/
def after (i j : ℕ) : Option (ℕ × ℕ) :=
  if j + 1 < size then some (i, j + 1) else if i + 1 < size then some (i + 1, 0) else none

/-- `%x`. -/
def x (n : ℤ) : List Byte :=
  (Nat.toDigits 16 (n % 2 ^ 32).toNat).flatMap String.utf8EncodeChar

def printArray (matrix : ℕ → ℕ → ℤ) : List Byte :=
  (List.range size).flatMap fun i =>
    utf8 "[" ++ (List.range size).flatMap (fun j => (if j = 0 then [] else utf8 ",") ++ x (matrix i j)) ++
      utf8 "]\n"

/-- The bodies of the loops, up to `k` after a whole round of the second one. -/
def access {L : Type} (pc : Access → L) (k : L) : Access → Instr L
  | .clear i j => mem fun g => ({ g with matrix := setCell i j 0 g.matrix },
      pc (match after i j with
        | some (i, j) => .clear i j
        | none => .test 0 0))
  | .test i j => mem fun g => (g, pc (.store i j (if g.matrix i j = 0 then 1 else 0)))
  | .store i j v => mem fun g => ({ g with matrix := setCell i j v g.matrix },
      match after i j with
      | some (i, j) => pc (.test i j)
      | none => k)

def routineSync : SyncPc → Instr SyncPc
  | .access p => access .access .testcancel p
  | .testcancel => testcancel (.access (.test 0 0))

def routineAsync : AsyncPc → Instr AsyncPc
  | .setcanceltype => mem fun g => (g, .cancel (.clear 0 0))
  | .cancel p => testcancel (.access p)
  | .access p => access .cancel (.cancel (.test 0 0)) p

/-- The routine has no `return`, so that `result` can be nothing but `PTHREAD_CANCELED`. -/
def main : MainPc → Instr MainPc
  | .create => create (fun g => (g, .routine)) fun _ => .sleep
  | .sleep => sleep .cancel
  | .cancel => cancel (fun _ => some .routine) .join
  | .join => mem fun g => (g, .print)
  | .print => mem fun g =>
      ({ g with printed := utf8 "Thread cancelled\nMatrix :\n" ++ printArray g.matrix }, .finished)
  | .finished => exit

section Routine
variable {R : Type} (routine : R → Instr R) (start : R)

def program : Threads.Program Empty Shared Empty Empty Tid (Loc R) where
  code := fun
    | .main => main
    | .routine => routine
  start := fun
    | .main => .create
    | .routine => start
  onInt := fun _ _ => none
  env := fun e => e.elim
  lock := fun e => e.elim

def init : State R where
  thr := fun
    | .main => { Threads.Thread.unborn .create with life := .running }
    | .routine => Threads.Thread.unborn start
  sem := fun e => e.elim
  glob := { matrix := fun _ _ => 0, printed := [] }
  ended := false

/-- `pthread_join` waits for the end of the thread. -/
def Joins (s : State R) : Label R → Prop
  | .exec .main .join _ => s.life .routine = .finished
  | _ => True

instance (s : State R) (a : Label R) : Decidable (Joins s a) := by
  unfold Joins
  split <;> infer_instance

end Routine

def cancelSync := program routineSync (.access (.clear 0 0))

def cancelAsync := program routineAsync .setcanceltype

end Cancel
