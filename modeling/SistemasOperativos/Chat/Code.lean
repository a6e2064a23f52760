import SistemasOperativos.Text.Lines
import SistemasOperativos.Threads.Run

/-!
# Two parties on one segment

The loop of `chat.c`, run by two processes that have the segment attached. Each access to
a byte of the segment is an operation. The segment goes on after its 21 bytes, for
`printf` reads up to a zero byte wherever it is.
-/
namespace Chat

open Threads Threads.Op Text

/-- `LENGTH_MSG`. -/
def lengthMsg : ℕ := 20

inductive Party
  | first
  | second
  deriving DecidableEq, Repr

def Party.other : Party → Party
  | .first => .second
  | .second => .first

/-- A message is known by who writes it and how many he wrote before. -/
abbrev Message := Party × ℕ

/-- One byte of the segment. The code does not know for which message it was written. -/
structure Cell where
  byte : Byte
  origin : Option Message
  deriving DecidableEq, Repr

/-- `stdin` is what is left of the input, and `sent` counts the messages. -/
structure Locals where
  stdin : List Byte
  input : List Byte
  sent : ℕ
  deriving DecidableEq, Repr

/-- `c` and `i` are the positions of the next access; `out` is what `printf` has read. -/
inductive Pc
  | gets (x : Locals)
  | mark (x : Locals)
  | write (x : Locals) (c : ℕ)
  | poll (x : Locals)
  | print (x : Locals) (i : ℕ) (out : List Cell)
  | printed (x : Locals) (out : List Cell)
  deriving DecidableEq, Repr

abbrev Segment := ℕ → Cell
abbrev Loc (_ : Party) : Type := Pc
abbrev Instr := Threads.Op Empty Segment Empty Party Pc
abbrev State := Threads.State Empty Segment Party Loc
abbrev Label := Threads.Label Empty Party Loc

/-- What two processes are started with. After its lines an input is at its end, if it is
`closed`, or has nothing to read yet. -/
structure Session where
  sign : Party → Byte
  lines : Party → List (List Byte)
  closed : Party → Bool
  input : Party → List Byte
  segment : ℕ → Byte

variable (u : Session) (p : Party)

def message (x : Locals) : Message := (p, x.sent)

/-- `*s = b` for the message that is being written. -/
def put (x : Locals) (i : ℕ) (b : Byte) (g : Segment) : Segment :=
  Function.update g i ⟨b, some (message p x)⟩

/-- The result of `fgets` is not looked at. -/
def gets (x : Locals) : Instr :=
  match fgets lengthMsg x.input x.stdin with
  | some (input, stdin) => mem fun g => (g, .mark { x with input := input, stdin := stdin })
  | none => if u.closed p then mem fun g => (g, .mark x) else pause (.gets x)

def main : Pc → Instr
  | .gets x => gets u p x
  | .mark x => mem fun g => (put p x 0 (u.sign p) g, .write x 0)
  | .write x c => mem fun g =>
    (put p x (c + 1) (x.input.getD c 0) g, if c + 1 < lengthMsg then .write x (c + 1) else .poll x)
  | .poll x => mem fun g => (g, if (g 0).byte = u.sign p then .poll x else .print x 1 [])
  | .print x i out => mem fun g =>
    (g, if (g i).byte = 0 then .printed x (out ++ [g i]) else .print x (i + 1) (out ++ [g i]))
  | .printed x _ => mem fun g => (g, .gets { x with sent := x.sent + 1 })

def start : Pc := .gets ⟨ofLines (u.lines p), u.input p, 0⟩

def chat : Threads.Program Empty Segment Empty Empty Party Loc where
  code := main u
  start := start u
  onInt := fun _ _ => none
  env := fun e => e.elim
  lock := fun e => e.elim

/-- Both have attached the segment. -/
def init : State where
  thr := fun p => { Threads.Thread.unborn (start u p) with life := .running }
  sem := fun e => e.elim
  glob := fun i => ⟨u.segment i, none⟩
  ended := false

end Chat
