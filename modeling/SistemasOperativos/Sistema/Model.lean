import Mathlib.Algebra.GroupWithZero.Nat
import SistemasOperativos.Threads.Machine

/-!
# The data of the rocket controller

The threads, semaphores, shared memory and program counters of `sistema.c`.
Integers are unbounded. The start-up lines of each routine that touch only the
scheduler, the sockets and the standard output are left out.
-/
namespace Sistema

/-- `EVENT_1`, `EVENT_3`, `EVENT_4` and `EVENT_5`. -/
inductive Event
  | event1
  | event3
  | event4
  | event5
  deriving DecidableEq, Repr

def rateGoUp : Int := 6
def maxtry : Nat := 32

/-- `NUM_GYROS`, `NUM_SCK_THREAD`, `NUM_THREADS` and `NUM_THREADS_SIGNALS`. -/
abbrev Gyro := Fin 2
abbrev Slot := Fin 7
abbrev ThreadIdx := Fin 5
abbrev SignalIdx := Fin 6

-- what a literal of each of these types rests on
instance neZero_gyros : NeZero 2 := ⟨nofun⟩
instance neZero_slots : NeZero 7 := ⟨nofun⟩
instance neZero_threads : NeZero 5 := ⟨nofun⟩
instance neZero_signals : NeZero 6 := ⟨nofun⟩

/-- Threads by routine. The correction threads and the engine are created again
while the program runs, so their names carry the number of the creation. -/
inductive Tid
  | main
  | signalGyro (i : Gyro)
  | gyroscopeThread (i : Gyro) (n : ℕ)
  | pricipalEngineThread (n : ℕ)
  | signalRestartLanding
  | goUp30m
  | signalExploteRocket
  | signalLandingCheck
  | sigHandlerManual
  deriving DecidableEq, Repr

/-- Semaphore objects. `arg i` is `array_gyros[i].sem_gyro` and `gyro t` the local
variable `sem_gyro` of a thread. -/
inductive Sem
  | dist
  | action
  | gs (i : Gyro)
  | gas
  | sock
  | read
  | msg (i : Slot)
  | arg (i : Gyro)
  | gyro (t : Tid)
  deriving DecidableEq, Repr

/-- Semaphores used as locks. The tokens `sem_msg` are posted by another thread. -/
def Sem.lock : Sem → Bool
  | .msg _ | .arg _ => false
  | _ => true

inductive Potencia
  | acelerando
  | desacelerando
  | normal
  deriving DecidableEq, Repr

/-- The four codes that `sig_handler_manual` knows. -/
inductive Alarm
  | c101
  | c102
  | c103
  | c104
  deriving DecidableEq, Repr

/-- The text appended to a distance report. -/
inductive Act
  | none
  | apagando
  | satisfactorio
  deriving DecidableEq, Repr

/-- The datagrams, each with the values that its format prints. A value that is read for
the length and once more for the text has both readings, in this order. -/
inductive Msg
  | giroscopio (i : Gyro) (w v : Int) (on : Bool)
  | reiniciando
  | enCurso
  | abortando
  | sinAborto
  | distancia (d : Int) (act : Act)
  | alarma (a : Alarm)
  | sinAlarmas
  | combustible (h g : Int) (on : Bool) (p : Potencia)
  deriving DecidableEq, Repr

/-- The reporter that a datagram comes from. -/
def Msg.slot : Msg → Slot
  | giroscopio i _ _ _ => if i = 0 then 0 else 1
  | reiniciando | enCurso => 2
  | abortando | sinAborto => 3
  | distancia _ _ => 4
  | alarma _ | sinAlarmas => 5
  | combustible _ _ _ _ => 6

/-- Global variables and the blocks shared with the simulator: `gyros i` is
`*param[i + 2]`. The last two fields count the threads created so far. -/
structure Shared where
  currentAction : Event
  manualExplote : Bool
  lastAlamra : Int
  msgRead : ℕ
  isOn : Bool
  landscape : Bool
  princpEngine : Bool
  stateGyros : Gyro → Bool
  distance : Int
  ditBlock : Int
  gasoline : Int
  gyros : Gyro → Int
  alarma : Int
  arrayThreads : ThreadIdx → Option Tid
  arrayThreadsSignals : SignalIdx → Option Tid
  engines : ℕ
  corrections : Gyro → ℕ

/-- What the simulator writes: any number at any time. -/
inductive Write
  | gyro (i : Gyro) (v : Int)
  | alarma (v : Int)
  deriving DecidableEq, Repr

/-! ## Program counters -/

inductive SendPc
  | lock
  | sendto (numsec : ℕ)
  | sleep (numsec : ℕ)
  | lockRead
  | count
  | unlockRead
  | unlockSock
  deriving DecidableEq, Repr

inductive ChangePc
  | lock
  | assign
  | unlock
  deriving DecidableEq, Repr

/-- `create_signals_gyros`. -/
inductive CreatePc
  | copySem (i : Gyro)
  | clearState (i : Gyro)
  | createSignal (i : Gyro)
  | storeSignal (i : Gyro) (t : Tid)
  | createThread (i : Gyro)
  | storeThread (i : Gyro) (t : Tid)
  deriving DecidableEq, Repr

/-- `manage_principal_engine(1)`, with `create_pe_thread` inside. -/
inductive ManagePc
  | cancel
  | off
  | clear
  | create
  | store (t : Tid)
  | on
  deriving DecidableEq, Repr

/-- `terminte_program`. -/
inductive TerminatePc
  | cancelThread (i : ThreadIdx)
  | postMsg (i : Slot)
  | cancelSignal (i : SignalIdx)
  | exit
  deriving DecidableEq, Repr

/-- `handler` is `terminte_program` on top of the location where it interrupted. -/
inductive MainPc
  | createGyros (p : CreatePc)
  | clearPe
  | createPe
  | storePe (t : Tid)
  | createRest
  | storeRest (t : Tid)
  | createGoUp
  | storeGoUp (t : Tid)
  | createExplo
  | storeExplo (t : Tid)
  | createLand
  | storeLand (t : Tid)
  | createManual
  | storeManual (t : Tid)
  | head
  | lockRead
  | test
  | reset
  | post (i : Slot)
  | unlockRead
  | exit
  | handler (saved : MainPc) (p : TerminatePc)
  deriving DecidableEq, Repr

inductive SignalGyroPc
  | copySem
  | head
  | testcancel
  | lockAction
  | lockGyro
  | check
  | wake
  | unlockAction (on : Bool)
  | space (on : Bool)
  | format (w : Int) (on : Bool)
  | unlockGyro (m : Msg)
  | send (m : Msg) (p : SendPc)
  | waitMsg
  | finished
  deriving DecidableEq, Repr

/-- A thread is blocked at a `pause`. At `callFirst` and `callPause` it is still on
its way there, so that a `SIGCONT` finds nothing to wake. -/
inductive GyroscopePc
  | copySem
  | callFirst
  | firstPause
  | head
  | testcancel
  | lockGyro
  | test
  | setOn
  | lockGas
  | burn
  | unlockGas
  | sign
  | load (positive : Bool)
  | store (v : Int)
  | unlockOn
  | sleep
  | setOff
  | unlockOff
  | callPause
  | pause
  | finished
  deriving DecidableEq, Repr

inductive EnginePc
  | head
  | testcancel
  | sleep
  | lockDist
  | lockAction
  | descend
  | lockGs (i : Gyro)
  | lockGas
  | mode
  | state (i : Gyro)
  | burn (p : Potencia)
  | unlockGas (p : Potencia)
  | unlockGs (i : Gyro) (p : Potencia)
  | unlockAction (p : Potencia)
  | unlockDist (p : Potencia)
  | motor (p : Potencia)
  | space (on : Bool) (p : Potencia)
  | format (h : Int) (on : Bool) (p : Potencia)
  | send (m : Msg) (p : SendPc)
  | waitMsg
  | finished
  deriving DecidableEq, Repr

inductive GoUpPc
  | callFirst
  | firstPause
  | head (time : ℕ)
  | testcancel (time : ℕ)
  | sleep (time : ℕ)
  | lockDist (time : ℕ)
  | test (time : ℕ)
  | unlockClimb (time : ℕ)
  | unlockTop
  | create (p : CreatePc)
  | change (p : ChangePc)
  | callPause
  | pause
  | finished
  deriving DecidableEq, Repr

inductive RestartPc
  | head
  | testcancel
  | lockDist
  | lockAction
  | lockGs (i : Gyro)
  | testAction
  | testGyro (i : Gyro)
  | unlockAction (climb : Bool)
  | change (p : ChangePc)
  | unlockGs (i : Gyro) (climb : Bool)
  | unlockDist (climb : Bool)
  | cancelGyro (i : Gyro)
  | testEngine
  | startEngine
  | contEngine
  | contGoUp
  | send (m : Msg) (p : SendPc)
  | waitMsg
  | finished
  deriving DecidableEq, Repr

inductive ExplotePc
  | head
  | testcancel
  | lockGas
  | testGas
  | unlockGas (low : Bool)
  | clearManual
  | abort (p : SendPc)
  | waitAbort
  | sleep
  | kill
  | lockAction
  | testAction
  | unlockAction (m : Msg)
  | send (m : Msg) (p : SendPc)
  | waitMsg
  | finished
  deriving DecidableEq, Repr

/-- `d` is the local `dist`. -/
inductive LandingPc
  | head
  | testcancel
  | lockDist
  | readDist
  | unlockDist (d : Int)
  | lockGs (i : Gyro) (d : Int)
  | testDown (i : Gyro) (d : Int)
  | touch (d : Int)
  | unlockTouch (i : Gyro) (d : Int)
  | report (d : Int) (p : SendPc)
  | testLow (i : Gyro) (d : Int)
  | change (d : Int) (p : ChangePc)
  | cancelGyro (i : Gyro) (d : Int)
  | engineOff (d : Int)
  | unlockGs (i : Gyro) (d : Int) (act : Act)
  | send (m : Msg) (p : SendPc)
  | waitMsg
  | sleep
  | kill
  | finished
  deriving DecidableEq, Repr

inductive ManualPc
  | head
  | testcancel
  | test
  | testCode (a : Alarm)
  | manage (a : Alarm) (p : ManagePc)
  | cancelGyro (a : Alarm) (i : Gyro)
  | create (a : Alarm) (p : CreatePc)
  | alarm (a : Alarm) (p : SendPc)
  | sleep
  | kill
  | reset
  | reread
  | send (p : SendPc)
  | waitMsg
  | finished
  deriving DecidableEq, Repr

abbrev Loc : Tid → Type
  | .main => MainPc
  | .signalGyro _ => SignalGyroPc
  | .gyroscopeThread _ _ => GyroscopePc
  | .pricipalEngineThread _ => EnginePc
  | .signalRestartLanding => RestartPc
  | .goUp30m => GoUpPc
  | .signalExploteRocket => ExplotePc
  | .signalLandingCheck => LandingPc
  | .sigHandlerManual => ManualPc

abbrev Instr (L : Type) := Threads.Op Sem Shared Msg Tid L
abbrev State := Threads.State Sem Shared Tid Loc
abbrev Label := Threads.Label Write Tid Loc

end Sistema
