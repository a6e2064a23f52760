import SistemasOperativos.Threads.Run

/-!
# Producers and consumers

The routines of `buffer.c`. The items are the messages that the threads print; nothing
else is stored.
-/
namespace Buffer

open Threads Threads.Op

/-- `MAX`. -/
def max : ℕ := 50

inductive Tid (producers consumers : ℕ)
  | producer (p : Fin producers)
  | consumer (c : Fin consumers)
  deriving DecidableEq, Repr

inductive Sem
  | mutex
  | filled
  | empty
  deriving DecidableEq, Repr

/-- `filled` and `empty` are posted by other threads than those that take them. -/
def Sem.lock : Sem → Bool
  | .mutex => true
  | _ => false

inductive ProducerPc
  | waitEmpty
  | waitMutex
  | produce
  | postFilled
  | postMutex
  deriving DecidableEq, Repr

inductive ConsumerPc
  | waitFilled
  | waitMutex
  | consume
  | postEmpty
  | postMutex
  deriving DecidableEq, Repr

variable {producers consumers : ℕ}

abbrev Loc : Tid producers consumers → Type
  | .producer _ => ProducerPc
  | .consumer _ => ConsumerPc

abbrev Instr (producers consumers : ℕ) (L : Type) :=
  Threads.Op Sem Unit Empty (Tid producers consumers) L
abbrev State (producers consumers : ℕ) := Threads.State Sem Unit (Tid producers consumers) Loc
abbrev Label (producers consumers : ℕ) := Threads.Label Empty (Tid producers consumers) Loc

def producer : ProducerPc → Instr producers consumers ProducerPc
  | .waitEmpty => wait .empty .waitMutex
  | .waitMutex => wait .mutex .produce
  | .produce => mem fun g => (g, .postFilled)
  | .postFilled => post .filled .postMutex
  | .postMutex => post .mutex .waitEmpty

def consumer : ConsumerPc → Instr producers consumers ConsumerPc
  | .waitFilled => wait .filled .waitMutex
  | .waitMutex => wait .mutex .consume
  | .consume => mem fun g => (g, .postEmpty)
  | .postEmpty => post .empty .postMutex
  | .postMutex => post .mutex .waitFilled

def code : (t : Tid producers consumers) → Loc t → Instr producers consumers (Loc t)
  | .producer _ => producer
  | .consumer _ => consumer

def start : (t : Tid producers consumers) → Loc t
  | .producer _ => .waitEmpty
  | .consumer _ => .waitFilled

def buffer (producers consumers : ℕ) :
    Threads.Program Sem Unit Empty Empty (Tid producers consumers) Loc where
  code := code
  start := start
  onInt := fun _ _ => none
  env := fun e => e.elim
  lock := Sem.lock

/-- After `sem_init`, with every thread at its first statement. -/
def init (producers consumers : ℕ) : State producers consumers where
  thr := fun t => { Threads.Thread.unborn (start t) with life := .running }
  sem := fun
    | .mutex => 1
    | .filled => 0
    | .empty => max
  glob := ()
  ended := false

end Buffer
