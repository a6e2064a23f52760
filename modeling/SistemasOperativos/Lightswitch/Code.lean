import SistemasOperativos.Threads.Run

/-!
# Readers and writers behind lightswitches

The routines of `sem.c`. A semaphore that is passed or assigned by value is an object of
its own, with the value at that moment: `data->noWriters` is the copy that `main` makes,
and `lock` and `unlock` work on their parameter. Both lightswitches use the one global
`mutex`.
-/
namespace Lightswitch

open Threads Threads.Op

inductive Tid (readers writers : ℕ)
  | reader (r : Fin readers)
  | writer (w : Fin writers)
  deriving DecidableEq, Repr

inductive Switch
  | readS
  | writeS
  deriving DecidableEq, Repr

/-- `argNoWriters` is `data->noWriters`, and `semaphore` the parameter of the call that a
thread is in. -/
inductive Sem (readers writers : ℕ)
  | mutex
  | noReaders
  | noWriters
  | argNoWriters
  | semaphore (t : Tid readers writers)
  deriving DecidableEq, Repr

variable {readers writers : ℕ}

/-- A parameter is posted by another call than the one that took it. -/
def Sem.lock : Sem readers writers → Bool
  | .semaphore _ => false
  | _ => true

structure Shared where
  counter : Switch → Int
  validation : Int

/-- `pass` is the passing of the parameter; `v` is the value about to be stored. -/
inductive LockPc
  | pass
  | waitMutex
  | load
  | store (v : Int)
  | waitSemaphore
  | postMutex
  deriving DecidableEq, Repr

inductive UnlockPc
  | pass
  | waitMutex
  | load
  | store (v : Int)
  | postSemaphore
  | postMutex
  deriving DecidableEq, Repr

/-- `i` is the counter of the loop. -/
inductive ReaderPc
  | head (i : ℕ)
  | waitReaders (i : ℕ)
  | lock (i : ℕ) (p : LockPc)
  | postReaders (i : ℕ)
  | loadValidation (i : ℕ)
  | storeValidation (i : ℕ) (v : Int)
  | unlock (i : ℕ) (p : UnlockPc)
  | finished
  deriving DecidableEq, Repr

inductive WriterPc
  | head (i : ℕ)
  | lock (i : ℕ) (p : LockPc)
  | waitWriters (i : ℕ)
  | write (i : ℕ)
  | postWriters (i : ℕ)
  | unlock (i : ℕ) (p : UnlockPc)
  | finished
  deriving DecidableEq, Repr

abbrev Loc : Tid readers writers → Type
  | .reader _ => ReaderPc
  | .writer _ => WriterPc

abbrev Instr (readers writers : ℕ) (L : Type) :=
  Threads.Op (Sem readers writers) Shared Empty (Tid readers writers) L
abbrev State (readers writers : ℕ) :=
  Threads.State (Sem readers writers) Shared (Tid readers writers) Loc
abbrev Label (readers writers : ℕ) := Threads.Label Empty (Tid readers writers) Loc

def setCounter (self : Switch) (v : Int) (g : Shared) : Shared :=
  { g with counter := Function.update g.counter self v }

section Calls
variable {L : Type} (self : Switch) (arg : Sem readers writers) (t : Tid readers writers)

/-- `self.lock(&arg)` in a thread, up to `k`. -/
def lock (pc : LockPc → L) (k : L) : LockPc → Instr readers writers L
  | .pass => copy (.semaphore t) arg (pc .waitMutex)
  | .waitMutex => wait .mutex (pc .load)
  | .load => mem fun g => (g, pc (.store (g.counter self + 1)))
  | .store v => mem fun g => (setCounter self v g, pc (if v = 1 then .waitSemaphore else .postMutex))
  | .waitSemaphore => wait (.semaphore t) (pc .postMutex)
  | .postMutex => post .mutex k

/-- `self.unlock(&arg)`. -/
def unlock (pc : UnlockPc → L) (k : L) : UnlockPc → Instr readers writers L
  | .pass => copy (.semaphore t) arg (pc .waitMutex)
  | .waitMutex => wait .mutex (pc .load)
  | .load => mem fun g => (g, pc (.store (g.counter self - 1)))
  | .store v => mem fun g => (setCounter self v g, pc (if v = 0 then .postSemaphore else .postMutex))
  | .postSemaphore => post (.semaphore t) (pc .postMutex)
  | .postMutex => post .mutex k

end Calls

def readR (r : Fin readers) : ReaderPc → Instr readers writers ReaderPc
  | .head i => mem fun g => (g, if i < 9000 then .waitReaders i else .finished)
  | .waitReaders i => wait .noReaders (.lock i .pass)
  | .lock i p => lock .readS .noWriters (.reader r) (.lock i) (.postReaders i) p
  | .postReaders i => post .noReaders (.loadValidation i)
  | .loadValidation i => mem fun g => (g, .storeValidation i (g.validation + 1))
  | .storeValidation i v => mem fun g => ({ g with validation := v }, .unlock i .pass)
  | .unlock i p => unlock .readS .noWriters (.reader r) (.unlock i) (.head (i + 1)) p
  | .finished => ret

def writeR (w : Fin writers) : WriterPc → Instr readers writers WriterPc
  | .head i => mem fun g => (g, if i < 2 then .lock i .pass else .finished)
  | .lock i p => lock .writeS .noReaders (.writer w) (.lock i) (.waitWriters i) p
  | .waitWriters i => wait .argNoWriters (.write i)
  | .write i => mem fun g => (g, .postWriters i)
  | .postWriters i => post .argNoWriters (.unlock i .pass)
  | .unlock i p => unlock .writeS .noReaders (.writer w) (.unlock i) (.head (i + 1)) p
  | .finished => ret

def code : (t : Tid readers writers) → Loc t → Instr readers writers (Loc t)
  | .reader r => readR r
  | .writer w => writeR w

def start : (t : Tid readers writers) → Loc t
  | .reader _ => .head 0
  | .writer _ => .head 0

def lightswitches (readers writers : ℕ) :
    Threads.Program (Sem readers writers) Shared Empty Empty (Tid readers writers) Loc where
  code := code
  start := start
  onInt := fun _ _ => none
  env := fun e => e.elim
  lock := Sem.lock

/-- After `init_lightswitch`, `sem_init` and the assignments to `arg`. -/
def init (readers writers : ℕ) : State readers writers where
  thr := fun t => { Threads.Thread.unborn (start t) with life := .running }
  sem := fun
    | .semaphore _ => 0
    | _ => 1
  glob := { counter := fun _ => 0, validation := 0 }
  ended := false

end Lightswitch
