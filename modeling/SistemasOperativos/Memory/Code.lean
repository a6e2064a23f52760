import SistemasOperativos.Text.Format
import SistemasOperativos.Threads.Run

/-!
# A server and its clients

`mem_server.c` and `mem_client.c` on one segment of 27 bytes, from where it is attached.
Everything that a process prints is in the list of its own.
-/
namespace Memory

open Threads Threads.Op Text

inductive Tid (clients : ℕ)
  | server
  | client (k : Fin clients)
  deriving DecidableEq, Repr

variable {clients : ℕ}

structure Shared (clients : ℕ) where
  shm : ℕ → Byte
  printed : Tid clients → List Byte

/-- `c`, after `i` rounds. -/
def letter (i : ℕ) : Byte := UInt8.ofNat (97 + i)

def star : Byte := 42

/-- The `for` loop that prints a string: its test and its body. -/
inductive PrintPc
  | test (i : ℕ)
  | putchar (i : ℕ)
  | newline
  deriving DecidableEq, Repr

inductive ServerPc
  | store (i : ℕ)
  | null
  | test
  | sleep
  | printf
  | print (p : PrintPc)
  | finished
  deriving DecidableEq, Repr

inductive ClientPc
  | print (p : PrintPc)
  | printf
  | store
  | finished
  deriving DecidableEq, Repr

abbrev Loc : Tid clients → Type
  | .server => ServerPc
  | .client _ => ClientPc

abbrev Instr (clients : ℕ) (L : Type) := Threads.Op Empty (Shared clients) Empty (Tid clients) L
abbrev State (clients : ℕ) := Threads.State Empty (Shared clients) (Tid clients) Loc
abbrev Label (clients : ℕ) := Threads.Label Empty (Tid clients) Loc

def put (i : ℕ) (c : Byte) (g : Shared clients) : Shared clients :=
  { g with shm := Function.update g.shm i c }

def say (t : Tid clients) (text : List Byte) (g : Shared clients) : Shared clients :=
  { g with printed := Function.update g.printed t (g.printed t ++ text) }

/-- The byte is read once for the test and once more for `putchar`. -/
def print {L : Type} (t : Tid clients) (pc : PrintPc → L) (k : L) : PrintPc → Instr clients L
  | .test i => mem fun g => (g, pc (if g.shm i ≠ 0 then .putchar i else .newline))
  | .putchar i => mem fun g => (say t [g.shm i] g, pc (.test (i + 1)))
  | .newline => mem fun g => (say t [newline] g, k)

def server : ServerPc → Instr clients ServerPc
  | .store i => mem fun g => (put i (letter i) g, if i < 25 then .store (i + 1) else .null)
  | .null => mem fun g => (put 26 0 g, .test)
  | .test => mem fun g => (g, if g.shm 0 ≠ star then .sleep else .printf)
  | .sleep => sleep .test
  | .printf => mem fun g => (say .server (utf8 "el client leyo la memoria\n") g, .print (.test 0))
  | .print p => print .server .print .finished p
  | .finished => ret

def client (k : Fin clients) : ClientPc → Instr clients ClientPc
  | .print p => print (.client k) .print .printf p
  | .printf => mem fun g => (say (.client k) (utf8 "Altero la memoria\n") g, .store)
  | .store => mem fun g => (put 0 star g, .finished)
  | .finished => ret

def code : (t : Tid clients) → Loc t → Instr clients (Loc t)
  | .server => server
  | .client k => client k

def start : (t : Tid clients) → Loc t
  | .server => .store 0
  | .client _ => .print (.test 0)

def memory (clients : ℕ) : Threads.Program Empty (Shared clients) Empty Empty (Tid clients) Loc where
  code := code
  start := start
  onInt := fun _ _ => none
  env := fun e => e.elim
  lock := fun e => e.elim

/-- `shm` is what is in the segment when the server comes. -/
def init (clients : ℕ) (shm : ℕ → Byte) : State clients where
  thr := fun t => { Threads.Thread.unborn (start t) with life := .running }
  sem := fun e => e.elim
  glob := { shm := shm, printed := fun _ => [] }
  ended := false

end Memory
