import SistemasOperativos.Pipes.Machine

/-!
# A pipe from the parent to the child

`my_pipe.c` and `pipe_unix.c` from where `pipe` and `fork` have succeeded. What they print is
left out.
-/
namespace Pipes

open Text

inductive Role
  | child
  | parent
  deriving DecidableEq, Repr

variable {F : Type} (fds : ℤ × ℤ)

/-! ## `my_pipe.c` -/

namespace MyPipe

/-- At `program` the file that was given to `execv` is running. -/
inductive Pc
  | closeStd
  | dup
  | execv
  | program
  | closeRead
  | closeWrite
  | exit
  | ended
  deriving DecidableEq, Repr

/-- The standard descriptor that is replaced. -/
def std : Role → ℤ
  | .child => 0
  | .parent => 1

/-- The end that replaces it. -/
def used : Role → ℤ
  | .child => fds.1
  | .parent => fds.2

/-- What was executed may do anything but use the two numbers of `fds`, of which it knows
nothing. -/
def main : Program Role F Pc
  | p, .closeStd, c, pc => c = .close (std p) ∧ pc = .dup
  | p, .dup, c, pc => c = .dup (used fds p) ∧ pc = .execv
  | _, .execv, c, pc => (c = .execv true ∧ pc = .program) ∨ (c = .execv false ∧ pc = .closeRead)
  | _, .program, c, pc => (c.Leaves fds.1 ∧ c.Leaves fds.2 ∧ pc = .program) ∨
    (c = .exit ∧ pc = .ended) ∨ ∃ fd, c = .sigpipe fd ∧ pc = .ended
  | _, .closeRead, c, pc => c = .close fds.1 ∧ pc = .closeWrite
  | _, .closeWrite, c, pc => c = .close fds.2 ∧ pc = .exit
  | _, .exit, c, pc => c = .exit ∧ pc = .ended
  | _, .ended, _, _ => False

end MyPipe

/-! ## `pipe_unix.c` -/

namespace PipeUnix

inductive Pc
  | closeUnused
  | transfer
  | closeUsed
  | ret
  | ended
  deriving DecidableEq, Repr

/-- `BUFFER_SIZE`. -/
def bufferSize : ℕ := 25

/-- `"Greetings"`, with its zero byte. -/
def writeMsg : List Byte := [71, 114, 101, 101, 116, 105, 110, 103, 115, 0]

def unused : Role → ℤ
  | .child => fds.2
  | .parent => fds.1

def used : Role → ℤ
  | .child => fds.1
  | .parent => fds.2

/-- So few bytes are written at once. -/
def main : Program Role F Pc
  | p, .closeUnused, c, pc => c = .close (unused fds p) ∧ pc = .transfer
  | .child, .transfer, c, pc => ∃ readMsg, c = .read fds.1 bufferSize readMsg ∧ pc = .closeUsed
  | .parent, .transfer, c, pc => (c = .write fds.2 writeMsg ∧ pc = .closeUsed) ∨
    (c = .sigpipe fds.2 ∧ pc = .ended)
  | p, .closeUsed, c, pc => c = .close (used fds p) ∧ pc = .ret
  | _, .ret, c, pc => c = .exit ∧ pc = .ended
  | _, .ended, _, _ => False

end PipeUnix

/-! ## `proc_time.c` and `problema2.c` -/

/-! A round of the loops over `num_proc` up to the `read` of the parent. What the child has
printed, `out`, is written when it returns. -/

namespace Measure

inductive Pc
  | dup2
  | closeRead
  | closeWrite
  | flush
  | exit
  | ended
  | dupStdin
  | dup2Stdin
  | waitpid
  | read
  | done
  deriving DecidableEq, Repr

/-- `len_buff`. -/
def lenBuff : ℕ := 1000

def start : Role → Pc
  | .child => .dup2
  | .parent => .dupStdin

def main (out : List Byte) : Program Role F Pc
  | .child, .dup2, c, pc => c = .dup2 fds.2 1 ∧ pc = .closeRead
  | .child, .closeRead, c, pc => c = .close fds.1 ∧ pc = .closeWrite
  | .child, .closeWrite, c, pc => c = .close fds.2 ∧ pc = .flush
  | .child, .flush, c, pc => (c = .write 1 out ∧ pc = .exit) ∨ (c = .sigpipe 1 ∧ pc = .ended)
  | .child, .exit, c, pc => c = .exit ∧ pc = .ended
  | .parent, .dupStdin, c, pc => c = .dup 0 ∧ pc = .dup2Stdin
  | .parent, .dup2Stdin, c, pc => c = .dup2 fds.1 0 ∧ pc = .waitpid
  | .parent, .waitpid, c, pc => c = .waitpid ∧ pc = .read
  | .parent, .read, c, pc => ∃ buffP, c = .read fds.1 lenBuff buffP ∧ pc = .done
  | _, _, _, _ => False

end Measure

end Pipes
