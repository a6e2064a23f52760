import SistemasOperativos.Text.Scan
import SistemasOperativos.Threads.Run

/-!
# The simulator

The loops of `simulador_2.c`, from where the blocks have their first values and the thread
of the descent is created, with its handler of `SIGINT`. What is printed is left out.
-/
namespace Simulador

open Threads Threads.Op Text

inductive Tid
  | main
  | descender
  deriving DecidableEq, Repr

/-- `param[0]` to `param[4]`. -/
inductive Block
  | distancia
  | nivel
  | giro1
  | giro2
  | alarma
  deriving DecidableEq, Repr

abbrev Blocks := Block → ℤ

/-- `sig_handlerINT`, which never returns. -/
inductive HandlerPc
  | alarm
  | sleep
  | cancel
  | exit
  deriving DecidableEq, Repr

/-- `stdin` is what is left of the input. -/
inductive MainPc
  | printf (stdin : List Byte)
  | scanf (k : Fin 3) (stdin : List Byte)
  | handler (p : HandlerPc)
  deriving DecidableEq, Repr

/-- `v` is the value about to be stored. -/
inductive DescenderPc
  | sleep
  | loadDistancia
  | storeDistancia (v : ℤ)
  | loadNivel
  | storeNivel (v : ℤ)
  | test
  | alarm
  | exit
  | handler (p : HandlerPc)
  deriving DecidableEq, Repr

abbrev Loc : Tid → Type
  | .main => MainPc
  | .descender => DescenderPc

abbrev Instr (L : Type) := Threads.Op Empty Blocks Empty Tid L
abbrev State := Threads.State Empty Blocks Tid Loc
abbrev Label := Threads.Label Empty Tid Loc

def put (b : Block) (v : ℤ) (g : Blocks) : Blocks := Function.update g b v

/-- The arguments of the `scanf`, in its order. -/
def target : Fin 3 → Block
  | 0 => .giro1
  | 1 => .giro2
  | 2 => .alarma

def sigHandlerInt {L : Type} (pc : HandlerPc → L) : HandlerPc → Instr L
  | .alarm => mem fun g => (put .alarma 101 g, pc .sleep)
  | .sleep => sleep (pc .cancel)
  | .cancel => cancel (fun _ => some .descender) (pc .exit)
  | .exit => exit

/-- After the third number, or the first one that is not there, the call is over. -/
def afterScan (k : Fin 3) (stdin : List Byte) : MainPc :=
  if h : k.val + 1 < 3 then .scanf ⟨k.val + 1, h⟩ stdin else .printf stdin

def main : MainPc → Instr MainPc
  | .printf stdin => mem fun g => (g, .scanf 0 stdin)
  | .scanf k stdin => mem fun g =>
    match scanD stdin with
    | (some v, rest) => (put (target k) v g, afterScan k rest)
    | (none, rest) => (g, .printf rest)
  | .handler p => sigHandlerInt .handler p

def descender : DescenderPc → Instr DescenderPc
  | .sleep => sleep .loadDistancia
  | .loadDistancia => mem fun g => (g, .storeDistancia (g .distancia - 1))
  | .storeDistancia v => mem fun g => (put .distancia v g, .loadNivel)
  | .loadNivel => mem fun g => (g, .storeNivel (g .nivel - 1))
  | .storeNivel v => mem fun g => (put .nivel v g, .test)
  | .test => mem fun g => (g, if g .distancia < 0 then .alarm else .sleep)
  | .alarm => mem fun g => (put .alarma 101 g, .exit)
  | .exit => ret
  | .handler p => sigHandlerInt .handler p

def code : (t : Tid) → Loc t → Instr (Loc t)
  | .main => main
  | .descender => descender

/-- `SIGINT` is masked in its handler. -/
def onInt : (t : Tid) → Loc t → Option (Loc t)
  | .main, .handler _ => none
  | .main, _ => some (.handler .alarm)
  | .descender, .handler _ => none
  | .descender, _ => some (.handler .alarm)

/-- What the simulator is started with. The user may interrupt it, and the signal may be
handled in either thread. -/
structure Session where
  distancia : ℤ
  nivel : ℤ
  stdin : List Byte
  interrupted : Tid → Bool

variable (u : Session)

def start : (t : Tid) → Loc t
  | .main => .printf u.stdin
  | .descender => .sleep

def simulador : Threads.Program Empty Blocks Empty Empty Tid Loc where
  code := code
  start := start u
  onInt := onInt
  env := fun e => e.elim
  lock := fun e => e.elim

def init : State where
  thr := fun t => { Threads.Thread.unborn (start u t) with life := .running, int := u.interrupted t }
  sem := fun e => e.elim
  glob := fun b => match b with
    | .distancia => u.distancia
    | .nivel => u.nivel
    | _ => 0
  ended := false

end Simulador
