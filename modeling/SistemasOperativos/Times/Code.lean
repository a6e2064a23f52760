import SistemasOperativos.Text.Decimal
import SistemasOperativos.Text.Strtok
import SistemasOperativos.Threads.Cells

/-!
# Measured times

`thread_time.c` and `proc_time.c` with the clock's values given. The calls that make
threads, processes and pipes are taken to succeed, and other options than `-n` are left out.
-/
namespace Times

open Text Threads.Cells

structure Timeval where
  tvSec : ℤ
  tvUsec : ℤ
  range : 0 ≤ tvUsec ∧ tvUsec < 1000000
  deriving DecidableEq, Repr

/-- In microseconds. -/
def Timeval.micros (t : Timeval) : ℤ := t.tvSec * 1000000 + t.tvUsec

/-- What the clock says in the parent and then in the child. -/
structure Measurement where
  parentTime : Timeval
  childTime : Timeval
  ordered : parentTime.micros ≤ childTime.micros
  deriving DecidableEq, Repr

/-- A sum of type `long`, as the machine has it. -/
def long (n : ℤ) : ℤ := n.bmod (2 ^ 64)

/-- What `main` comes to. -/
inductive Outcome
  | exited
  | divisionByZero
  | printed (prom : ℤ)
  deriving DecidableEq, Repr

/-- `double prom = acum / num`. -/
def average (acum num : ℤ) : Outcome :=
  if num = 0 then .divisionByZero else .printed (acum.tdiv num)

/-! ## `thread_time.c` -/

abbrev Code (α : Type) := Prog ℕ ℤ α

/-- `times` is the memory. -/
def getTime (id : ℕ) (ar : Measurement) : Code Unit :=
  Prog.set id (long (ar.childTime.tvUsec - ar.parentTime.tvUsec))

/-- The threads before their first access. -/
def hilos (ms : List Measurement) : Pool (Fin ms.length) ℕ ℤ Unit where
  code id := getTime id (ms.get id)
  mem _ := 0

/-- The array of times is that after the joins. -/
def threadTime (numHilos : ℤ) (times : ℕ → ℤ) : Outcome :=
  if numHilos < 0 then .exited
  else
    let acum := (List.range numHilos.toNat).foldl (fun acum i => long (acum + times i)) 0
    average acum numHilos

/-! ## `proc_time.c` -/

def lenBuff : ℕ := 1000

/-- What the child writes to the pipe. -/
def child (childTime : Timeval) : List Byte := ld childTime.tvUsec

/-- `buff_p` after `calloc` and `read`. -/
def readPipe (text : List Byte) : List Byte :=
  text.take lenBuff ++ List.replicate (lenBuff - text.length) 0

/-- The number that the parent adds. -/
def measured (m : Measurement) : Option ℤ := do
  let text ← str (readPipe (child m.childTime))
  some (long (atol text - m.parentTime.tvUsec))

/-- One measurement for each round. -/
def procTime (numProc : ℤ) (ms : List Measurement) : Option Outcome := do
  if numProc < 0 then some .exited
  else
    let acum ← ms.foldlM (fun acum m => (measured m).map fun t => long (acum + t)) 0
    some (average acum numProc)

end Times
