import SistemasOperativos.Descriptors.Table

/-!
# The descriptors of the parent

The loops of `problema1.c`, `proc_time.c` and `problema2.c` as far as they open, copy and
close descriptors. A child has a table of its own.
-/
namespace Descriptors

/-- `read` and `write` are the two ends of a pipe, which is known by its round. -/
inductive File
  | stdin
  | other (k : ℕ)
  | read (i : ℕ)
  | write (i : ℕ)
  deriving DecidableEq, Repr

/-- A failed `pipe` leaves `fds` as it is. `failed` says that a `pipe` or a `dup` has
failed; the code does not look at it. -/
structure Process where
  table : Table File
  fds : ℤ × ℤ
  failed : Bool
  deriving DecidableEq, Repr

namespace Process

def pipe (i : ℕ) (p : Process) : Process :=
  let (ends, table) := p.table.pipe (.read i) (.write i)
  { table := table, fds := ends.getD p.fds, failed := p.failed || ends.isNone }

def dup (fd : ℤ) (p : Process) : ℤ × Process :=
  let (copy, table) := p.table.dup fd
  (copy, { p with table := table, failed := p.failed || copy = -1 })

def dup2 (old new : ℤ) (p : Process) : Process := { p with table := p.table.dup2 old new }

def close (fd : ℤ) (p : Process) : Process := { p with table := p.table.close fd }

end Process

/-- The body of the loop over `num_proc`, in the parent. -/
def measure (i : ℕ) (p : Process) : Process :=
  let p := p.pipe i
  let (stdinCopy, p) := p.dup 0
  let p := p.dup2 p.fds.1 0
  let p := p.close p.fds.1
  let p := p.close p.fds.2
  p.dup2 stdinCopy 0

/-- A round of the command loop; a line that is no command leaves everything as it is. -/
def command (isCommand : Bool) (p : Process) : Process :=
  if isCommand then
    let (stdinCopy, p) := p.dup 0
    let p := p.dup2 p.fds.1 0
    p.dup2 stdinCopy 0
  else p

def run {ι : Type} (step : ι → Process → Process) (rounds : List ι) (p : Process) : Process :=
  rounds.foldl (fun p r => step r p) p

def procTime (numProc : ℕ) : Process → Process := run measure (List.range numProc)

def problema2 (numProc : ℕ) : Process → Process := run measure (List.range numProc)

/-- `pipe(fds); close(fds[1])` before the loop. -/
def openPipe (p : Process) : Process :=
  let p := p.pipe 0
  p.close p.fds.2

def problema1 (rounds : List Bool) (p : Process) : Process := run command rounds (openPipe p)

end Descriptors
