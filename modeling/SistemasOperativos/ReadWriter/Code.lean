import SistemasOperativos.Threads.Run

/-!
# Readers and writers

The routines of `read_writer.c`. `++noReaders` and `--noReaders` are a load and a store,
and a call of `printf` is one step. A thread that was not created yet is one that has
taken no step.
-/
namespace ReadWriter

open Threads Threads.Op

inductive Tid (readers writers : ℕ)
  | reader (r : Fin readers)
  | writer (w : Fin writers)
  deriving DecidableEq, Repr

inductive Sem
  | turn
  | mutex
  | empty
  deriving DecidableEq, Repr

/-- A thread posts what it has taken, but for `empty`: the last reader gives back what
the first one took. -/
def Sem.lock : Sem → Bool
  | .empty => false
  | _ => true

structure Shared where
  noReaders : Int

/-- `v` is the value about to be stored. -/
inductive ReaderPc
  | waitTurn
  | postTurn
  | waitMutexIn
  | loadIn
  | storeIn (v : Int)
  | testIn
  | waitEmpty
  | postMutexIn
  | read
  | waitMutexOut
  | loadOut
  | storeOut (v : Int)
  | testOut
  | postEmpty
  | postMutexOut
  deriving DecidableEq, Repr

inductive WriterPc
  | waitTurn
  | waitEmpty
  | write
  | postTurn
  | postEmpty
  deriving DecidableEq, Repr

variable {readers writers : ℕ}

abbrev Loc : Tid readers writers → Type
  | .reader _ => ReaderPc
  | .writer _ => WriterPc

abbrev Instr (readers writers : ℕ) (L : Type) := Threads.Op Sem Shared Empty (Tid readers writers) L
abbrev State (readers writers : ℕ) := Threads.State Sem Shared (Tid readers writers) Loc
abbrev Label (readers writers : ℕ) := Threads.Label Empty (Tid readers writers) Loc

def writer : WriterPc → Instr readers writers WriterPc
  | .waitTurn => wait .turn .waitEmpty
  | .waitEmpty => wait .empty .write
  | .write => mem fun g => (g, .postTurn)
  | .postTurn => post .turn .postEmpty
  | .postEmpty => post .empty .waitTurn

def reader : ReaderPc → Instr readers writers ReaderPc
  | .waitTurn => wait .turn .postTurn
  | .postTurn => post .turn .waitMutexIn
  | .waitMutexIn => wait .mutex .loadIn
  | .loadIn => mem fun g => (g, .storeIn (g.noReaders + 1))
  | .storeIn v => mem fun g => ({ g with noReaders := v }, .testIn)
  | .testIn => mem fun g => (g, if g.noReaders = 1 then .waitEmpty else .postMutexIn)
  | .waitEmpty => wait .empty .postMutexIn
  | .postMutexIn => post .mutex .read
  | .read => mem fun g => (g, .waitMutexOut)
  | .waitMutexOut => wait .mutex .loadOut
  | .loadOut => mem fun g => (g, .storeOut (g.noReaders - 1))
  | .storeOut v => mem fun g => ({ g with noReaders := v }, .testOut)
  | .testOut => mem fun g => (g, if g.noReaders = 0 then .postEmpty else .postMutexOut)
  | .postEmpty => post .empty .postMutexOut
  | .postMutexOut => post .mutex .waitTurn

def code : (t : Tid readers writers) → Loc t → Instr readers writers (Loc t)
  | .reader _ => reader
  | .writer _ => writer

def start : (t : Tid readers writers) → Loc t
  | .reader _ => .waitTurn
  | .writer _ => .waitTurn

def readWriter (readers writers : ℕ) : Threads.Program Sem Shared Empty Empty (Tid readers writers) Loc where
  code := code
  start := start
  onInt := fun _ _ => none
  env := fun e => e.elim
  lock := Sem.lock

/-- After `sem_init`, with every thread at its first statement. -/
def init (readers writers : ℕ) : State readers writers where
  thr := fun t => { Threads.Thread.unborn (start t) with life := .running }
  sem := fun _ => 1
  glob := { noReaders := 0 }
  ended := false

end ReadWriter
