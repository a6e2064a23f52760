import SistemasOperativos.Sistema.Model

/-!
# The code of the rocket controller

Each routine of `sistema.c` as the operation at each of its locations. A branch
that reads several shared variables reads them in the order of the source, one
step for each reading that no held lock protects from another thread's write.
-/
namespace Sistema

open Threads.Op

/-- Store to one cell of an array. -/
def put {n : ℕ} {α : Type} (f : Fin n → α) (i : Fin n) (x : α) : Fin n → α := Function.update f i x

/-- The next value of a loop counter below a constant. -/
def after {n : ℕ} (i : Fin n) : Option (Fin n) := if h : i.val + 1 < n then some ⟨i.val + 1, h⟩ else none

/-- `pthread_create(&array_threads[i], ...)` and `&array_threads_signals[i]`. -/
def storeThread (i : ThreadIdx) (t : Tid) (g : Shared) : Shared :=
  { g with arrayThreads := put g.arrayThreads i (some t) }

def storeSignal (i : SignalIdx) (t : Tid) (g : Shared) : Shared :=
  { g with arrayThreadsSignals := put g.arrayThreadsSignals i (some t) }

/-- Names for the threads of the routines that are created more than once. -/
def freshCorrection (i : Gyro) (g : Shared) : Shared × Tid :=
  ({ g with corrections := put g.corrections i (g.corrections i + 1) },
    .gyroscopeThread i (g.corrections i))

def freshEngine (g : Shared) : Shared × Tid :=
  ({ g with engines := g.engines + 1 }, .pricipalEngineThread g.engines)

/-- The index in `array_threads` of the correction thread of a gyroscope. -/
def threadOf (i : Gyro) : ThreadIdx := ⟨i.val, by omega⟩

/-- The index in `array_threads_signals` of the reporter of a gyroscope. -/
def reporterOf (i : Gyro) : SignalIdx := ⟨i.val, by omega⟩

section Calls
variable {L : Type}

/-- `numsec <<= 1` and the loop test. -/
def sendLoop (numsec : ℕ) : SendPc := if numsec ≤ maxtry then .sendto numsec else .lockRead

def sendMesg (m : Msg) (pc : SendPc → L) (k : L) : SendPc → Instr L
  | .lock => wait .sock (pc (.sendto 1))
  | .sendto numsec => sendto m fun ok =>
      if ok then pc .lockRead
      else if numsec ≤ maxtry / 2 then pc (.sleep numsec) else pc (sendLoop (numsec * 2))
  | .sleep numsec => sleep (pc (sendLoop (numsec * 2)))
  | .lockRead => wait .read (pc .count)
  | .count => mem fun g => ({ g with msgRead := g.msgRead + 1 }, pc .unlockRead)
  | .unlockRead => post .read (pc .unlockSock)
  | .unlockSock => post .sock k

def changeAction (newAction : Event) (pc : ChangePc → L) (k : L) : ChangePc → Instr L
  | .lock => wait .action (pc .assign)
  | .assign => mem fun g => ({ g with currentAction := newAction }, pc .unlock)
  | .unlock => post .action k

/-- The fields of `array_gyros[i]` other than the semaphore never change. -/
def createSignalsGyros (all : Bool) (pc : CreatePc → L) (k : L) : CreatePc → Instr L
  | .copySem i => copy (.arg i) (.gs i) (pc (.clearState i))
  | .clearState i => mem fun g =>
      ({ g with stateGyros := put g.stateGyros i false },
        pc (if all then .createSignal i else .createThread i))
  | .createSignal i => create (fun g => (g, .signalGyro i)) fun t => pc (.storeSignal i t)
  | .storeSignal i t => mem fun g => (storeSignal (reporterOf i) t g, pc (.createThread i))
  | .createThread i => create (freshCorrection i) fun t => pc (.storeThread i t)
  | .storeThread i t => mem fun g =>
      (storeThread (threadOf i) t g,
        match after i with
        | some j => pc (.copySem j)
        | none => k)

def managePrincipalEngine (pc : ManagePc → L) (k : L) : ManagePc → Instr L
  | .cancel => cancel (fun g => g.arrayThreads 2) (pc .off)
  | .off => mem fun g => ({ g with princpEngine := false }, pc .clear)
  | .clear => mem fun g => ({ g with arrayThreads := put g.arrayThreads 2 none }, pc .create)
  | .create => create freshEngine fun t => pc (.store t)
  | .store t => mem fun g => (storeThread 2 t g, pc .on)
  | .on => mem fun g => ({ g with princpEngine := true }, k)

/-- `terminate_event_1(0)`. -/
def terminateEvent1 (pc : Gyro → L) (k : L) (i : Gyro) : Instr L :=
  cancel (fun g => g.arrayThreads (threadOf i)) <|
    match after i with
    | some j => pc j
    | none => k

/-- `array_threads[4]` is never set, so that its cancellation reaches no thread. The real
call is given a null handle, on which the process may end before it comes to `exit`. -/
def terminteProgram (pc : TerminatePc → L) : TerminatePc → Instr L
  | .cancelThread i => cancel (fun g => g.arrayThreads i) <|
      match after i with
      | some j => pc (.cancelThread j)
      | none => pc (.postMsg 0)
  | .postMsg i => post (.msg i) <|
      match after i with
      | some j => pc (.postMsg j)
      | none => pc (.cancelSignal 0)
  | .cancelSignal i => cancel (fun g => g.arrayThreadsSignals i) <|
      match after i with
      | some j => pc (.cancelSignal j)
      | none => pc .exit
  | .exit => exit

end Calls

def main : MainPc → Instr MainPc
  | .createGyros p => createSignalsGyros true .createGyros .clearPe p
  | .clearPe => mem fun g => ({ g with arrayThreads := put g.arrayThreads 2 none }, .createPe)
  | .createPe => create freshEngine .storePe
  | .storePe t => mem fun g => (storeThread 2 t g, .createRest)
  | .createRest => create (fun g => (g, .signalRestartLanding)) .storeRest
  | .storeRest t => mem fun g => (storeSignal 2 t g, .createGoUp)
  | .createGoUp => create (fun g => (g, .goUp30m)) .storeGoUp
  | .storeGoUp t => mem fun g => (storeThread 3 t g, .createExplo)
  | .createExplo => create (fun g => (g, .signalExploteRocket)) .storeExplo
  | .storeExplo t => mem fun g => (storeSignal 3 t g, .createLand)
  | .createLand => create (fun g => (g, .signalLandingCheck)) .storeLand
  | .storeLand t => mem fun g => (storeSignal 4 t g, .createManual)
  | .createManual => create (fun g => (g, .sigHandlerManual)) .storeManual
  | .storeManual t => mem fun g => (storeSignal 5 t g, .head)
  | .head => mem fun g => (g, if g.isOn && !g.landscape then .lockRead else .exit)
  | .lockRead => wait .read .test
  | .test => mem fun g => (g, if g.msgRead = 7 then .reset else .unlockRead)
  | .reset => mem fun g => ({ g with msgRead := 0 }, .post 0)
  | .post i => post (.msg i) <|
      match after i with
      | some j => .post j
      | none => .unlockRead
  | .unlockRead => post .read .head
  | .exit => exit
  | .handler saved p => terminteProgram (.handler saved) p

/-- A signal to a thread whose handle is not stored yet reaches nobody; the real
`pthread_kill` is given a null handle, on which the process may end. -/
def signalGyro (i : Gyro) : SignalGyroPc → Instr SignalGyroPc
  | .copySem => copy (.gyro (.signalGyro i)) (.arg i) .head
  | .head => mem fun g => (g, if g.isOn then .testcancel else .finished)
  | .testcancel => testcancel .lockAction
  | .lockAction => wait .action .lockGyro
  | .lockGyro => wait (.gyro (.signalGyro i)) .check
  | .check => mem fun g =>
      (g, if g.currentAction = .event1 ∧ g.gyros i ≠ 0 then .wake else .unlockAction false)
  | .wake => kill .cont (fun g => g.arrayThreads (threadOf i)) (.unlockAction true)
  | .unlockAction on => post .action (.space on)
  | .space on => mem fun g => (g, .format (g.gyros i) on)
  | .format w on => mem fun g => (g, .unlockGyro (.giroscopio i w (g.gyros i) on))
  | .unlockGyro m => post (.gyro (.signalGyro i)) (.send m .lock)
  | .send m p => sendMesg m (.send m) .waitMsg p
  | .waitMsg => wait (.msg (if i = 0 then 0 else 1)) .head
  | .finished => ret

def gyroscopeThread (i : Gyro) (n : ℕ) : GyroscopePc → Instr GyroscopePc
  | .copySem => copy (.gyro (.gyroscopeThread i n)) (.arg i) .callFirst
  | .callFirst => mem fun g => (g, .firstPause)
  | .firstPause => pause .head
  | .head => mem fun g => (g, if g.isOn then .testcancel else .finished)
  | .testcancel => testcancel .lockGyro
  | .lockGyro => wait (.gyro (.gyroscopeThread i n)) .test
  | .test => mem fun g => (g, if g.gyros i ≠ 0 then .setOn else .setOff)
  | .setOn => mem fun g => ({ g with stateGyros := put g.stateGyros i true }, .lockGas)
  | .lockGas => wait .gas .burn
  | .burn => mem fun g => ({ g with gasoline := g.gasoline - 1 }, .unlockGas)
  | .unlockGas => post .gas .sign
  | .sign => mem fun g => (g, .load (0 < g.gyros i))
  | .load positive => mem fun g => (g, .store (if positive then g.gyros i - 1 else g.gyros i + 1))
  | .store v => mem fun g => ({ g with gyros := put g.gyros i v }, .unlockOn)
  | .unlockOn => post (.gyro (.gyroscopeThread i n)) .sleep
  | .sleep => sleep .head
  | .setOff => mem fun g => ({ g with stateGyros := put g.stateGyros i false }, .unlockOff)
  | .unlockOff => post (.gyro (.gyroscopeThread i n)) .callPause
  | .callPause => mem fun g => (g, .pause)
  | .pause => pause .head
  | .finished => ret

/-- `gasoline -= 0.5`: the difference is truncated toward zero. -/
def burnHalf (gasoline : Int) : Int := (2 * gasoline - 1).tdiv 2

def Potencia.burn : Potencia → Int → Int
  | acelerando, gasoline => gasoline - 5
  | desacelerando, gasoline => burnHalf gasoline
  | normal, gasoline => gasoline - 1

/-- The first test of the engine, as it is written. -/
def descend (g : Shared) : Shared :=
  if g.currentAction ≠ .event3 ∨ g.currentAction ≠ .event4 then
    { g with distance := g.distance - 1, ditBlock := g.distance - 1 }
  else g

def pricipalEngineThread : EnginePc → Instr EnginePc
  | .head => mem fun g => (g, if g.isOn then .testcancel else .finished)
  | .testcancel => testcancel .sleep
  | .sleep => sleep .lockDist
  | .lockDist => wait .dist .lockAction
  | .lockAction => wait .action .descend
  | .descend => mem fun g => (descend g, .lockGs 0)
  | .lockGs i => wait (.gs i) (if i = 0 then .lockGs 1 else .lockGas)
  | .lockGas => wait .gas .mode
  | .mode => mem fun g =>
      (g, if g.currentAction = .event3 ∨ g.currentAction = .event4 then .burn .acelerando
        else .state 0)
  | .state i => mem fun g =>
      (g, if g.stateGyros i then .burn .desacelerando
        else if i = 0 then .state 1 else .burn .normal)
  | .burn p => mem fun g => ({ g with gasoline := p.burn g.gasoline }, .unlockGas p)
  | .unlockGas p => post .gas (.unlockGs 0 p)
  | .unlockGs i p => post (.gs i) (if i = 0 then .unlockGs 1 p else .unlockAction p)
  | .unlockAction p => post .action (.unlockDist p)
  | .unlockDist p => post .dist (.motor p)
  | .motor p => mem fun g => (g, .space g.princpEngine p)
  | .space on p => mem fun g => (g, .format g.gasoline on p)
  | .format h on p => mem fun g => (g, .send (.combustible h g.gasoline on p) .lock)
  | .send m p => sendMesg m (.send m) .waitMsg p
  | .waitMsg => wait (.msg 6) .head
  | .finished => ret

def goUp30m : GoUpPc → Instr GoUpPc
  | .callFirst => mem fun g => (g, .firstPause)
  | .firstPause => pause (.head 0)
  | .head time => mem fun g => (g, if g.isOn then .testcancel time else .finished)
  | .testcancel time => testcancel (.sleep time)
  | .sleep time => sleep (.lockDist time)
  | .lockDist time => wait .dist (.test time)
  | .test time => mem fun g =>
      if time < 5 then ({ g with distance := g.distance + rateGoUp }, .unlockClimb (time + 1))
      else (g, .unlockTop)
  | .unlockClimb time => post .dist (.head time)
  | .unlockTop => post .dist (.create (.copySem 0))
  | .create p => createSignalsGyros false .create (.change .lock) p
  | .change p => changeAction .event1 .change .callPause p
  | .callPause => mem fun g => (g, .pause)
  | .pause => pause (.head 0)
  | .finished => ret

/-- Its signals may find a handle that is not stored yet, as that of `signalGyro`. -/
def signalRestartLanding : RestartPc → Instr RestartPc
  | .head => mem fun g => (g, if g.isOn then .testcancel else .finished)
  | .testcancel => testcancel .lockDist
  | .lockDist => wait .dist .lockAction
  | .lockAction => wait .action (.lockGs 0)
  | .lockGs i => wait (.gs i) (if i = 0 then .lockGs 1 else .testAction)
  | .testAction => mem fun g =>
      (g, if g.currentAction ≠ .event4 ∧ g.distance < 5 then .testGyro 0 else .unlockAction false)
  | .testGyro i => mem fun g =>
      (g, if g.gyros i ≠ 0 then .unlockAction true
        else if i = 0 then .testGyro 1 else .unlockAction false)
  | .unlockAction climb => post .action (if climb then .change .lock else .unlockGs 0 false)
  | .change p => changeAction .event3 .change (.unlockGs 0 true) p
  | .unlockGs i climb => post (.gs i) (if i = 0 then .unlockGs 1 climb else .unlockDist climb)
  | .unlockDist climb => post .dist (if climb then .cancelGyro 0 else .send .enCurso .lock)
  | .cancelGyro i => terminateEvent1 .cancelGyro .testEngine i
  | .testEngine => mem fun g => (g, if g.princpEngine then .contGoUp else .startEngine)
  | .startEngine => mem fun g => ({ g with princpEngine := true }, .contEngine)
  | .contEngine => kill .cont (fun g => g.arrayThreads 2) .contGoUp
  | .contGoUp => kill .cont (fun g => g.arrayThreads 3) (.send .reiniciando .lock)
  | .send m p => sendMesg m (.send m) .waitMsg p
  | .waitMsg => wait (.msg 2) .head
  | .finished => ret

def signalExploteRocket : ExplotePc → Instr ExplotePc
  | .head => mem fun g => (g, if g.isOn then .testcancel else .finished)
  | .testcancel => testcancel .lockGas
  | .lockGas => wait .gas .testGas
  | .testGas => mem fun g => (g, .unlockGas (g.gasoline < 10 || g.manualExplote))
  | .unlockGas low => post .gas (if low then .clearManual else .lockAction)
  | .clearManual => mem fun g => ({ g with manualExplote := false }, .abort .lock)
  | .abort p => sendMesg .abortando .abort .waitAbort p
  | .waitAbort => wait (.msg 3) .sleep
  | .sleep => sleep .kill
  | .kill => kill .int (fun _ => some .main) .lockAction
  | .lockAction => wait .action .testAction
  | .testAction => mem fun g =>
      (g, .unlockAction (if g.currentAction = .event4 then .abortando else .sinAborto))
  | .unlockAction m => post .action (.send m .lock)
  | .send m p => sendMesg m (.send m) .waitMsg p
  | .waitMsg => wait (.msg 3) .head
  | .finished => ret

def signalLandingCheck : LandingPc → Instr LandingPc
  | .head => mem fun g => (g, if g.isOn then .testcancel else .sleep)
  | .testcancel => testcancel .lockDist
  | .lockDist => wait .dist .readDist
  | .readDist => mem fun g => (g, .unlockDist g.distance)
  | .unlockDist d => post .dist (.lockGs 0 d)
  | .lockGs i d => wait (.gs i) (if i = 0 then .lockGs 1 d else .testDown 0 d)
  | .testDown i d => mem fun g =>
      (g, if d ≤ 0 ∧ g.gyros i = 0 then (if i = 0 then .testDown 1 d else .touch d)
        else .testLow 0 d)
  | .touch d => mem fun g => ({ g with isOn := false }, .unlockTouch 0 d)
  | .unlockTouch i d => post (.gs i) (if i = 0 then .unlockTouch 1 d else .report d .lock)
  | .report d p => sendMesg (.distancia d .satisfactorio) (.report d) .sleep p
  | .testLow i d => mem fun g =>
      (g, if d ≤ 1 then
            if g.gyros i = 0 then .change d .lock
            else if i = 0 then .testLow 1 d else .unlockGs 0 d .none
          else .unlockGs 0 d .none)
  | .change d p => changeAction .event5 (.change d) (.cancelGyro 0 d) p
  | .cancelGyro i d => terminateEvent1 (.cancelGyro · d) (.engineOff d) i
  | .engineOff d => mem fun g => ({ g with princpEngine := false }, .unlockGs 0 d .apagando)
  | .unlockGs i d act =>
      post (.gs i) (if i = 0 then .unlockGs 1 d act else .send (.distancia d act) .lock)
  | .send m p => sendMesg m (.send m) .waitMsg p
  | .waitMsg => wait (.msg 4) .head
  | .sleep => sleep .kill
  | .kill => kill .int (fun _ => some .main) .finished
  | .finished => ret

def Alarm.code : Alarm → Int
  | c101 => 101
  | c102 => 102
  | c103 => 103
  | c104 => 104

/-- The `else if` after a failed comparison; after the last one no branch is left. -/
def Alarm.next : Alarm → Option Alarm
  | c101 => some c102
  | c102 => some c103
  | c103 => some c104
  | c104 => none

/-- The first statement of the branch of a code. -/
def Alarm.branch : Alarm → ManualPc
  | c101 => .manage .c101 .cancel
  | c102 => .manage .c102 .cancel
  | c103 => .cancelGyro .c103 0
  | c104 => .alarm .c104 .lock

def sigHandlerManual : ManualPc → Instr ManualPc
  | .head => mem fun g => (g, if g.isOn then .testcancel else .finished)
  | .testcancel => testcancel .test
  | .test => mem fun g => (g, if g.lastAlamra ≠ g.alarma then .testCode .c101 else .send .lock)
  | .testCode a => mem fun g =>
      (g, if g.alarma = a.code then a.branch
        else match a.next with
          | some b => .testCode b
          | none => .reset)
  | .manage a p =>
      managePrincipalEngine (.manage a) (if a = .c101 then .cancelGyro a 0 else .alarm a .lock) p
  | .cancelGyro a i => terminateEvent1 (.cancelGyro a) (.create a (.copySem 0)) i
  | .create a p => createSignalsGyros false (.create a) (.alarm a .lock) p
  | .alarm a p => sendMesg (.alarma a) (.alarm a) (if a = .c104 then .sleep else .reset) p
  | .sleep => sleep .kill
  | .kill => kill .int (fun _ => some .main) .reset
  | .reset => mem fun g => ({ g with alarma := 0 }, .reread)
  | .reread => mem fun g => ({ g with lastAlamra := g.alarma }, .waitMsg)
  | .send p => sendMesg .sinAlarmas .send .waitMsg p
  | .waitMsg => wait (.msg 5) .head
  | .finished => ret

def code : (t : Tid) → Loc t → Instr (Loc t)
  | .main => main
  | .signalGyro i => signalGyro i
  | .gyroscopeThread i n => gyroscopeThread i n
  | .pricipalEngineThread _ => pricipalEngineThread
  | .signalRestartLanding => signalRestartLanding
  | .goUp30m => goUp30m
  | .signalExploteRocket => signalExploteRocket
  | .signalLandingCheck => signalLandingCheck
  | .sigHandlerManual => sigHandlerManual

def start : (t : Tid) → Loc t
  | .main => .createGyros (.copySem 0)
  | .signalGyro _ => .copySem
  | .gyroscopeThread _ _ => .copySem
  | .pricipalEngineThread _ => .head
  | .signalRestartLanding => .head
  | .goUp30m => .callFirst
  | .signalExploteRocket => .head
  | .signalLandingCheck => .head
  | .sigHandlerManual => .head

/-- `sig_handler_main`, masked while it runs. No other thread is sent `SIGINT`. -/
def onInt : (t : Tid) → Loc t → Option (Loc t)
  | .main, .handler _ _ => none
  | .main, l => some (.handler l (.cancelThread 0))
  | _, _ => none

def Write.apply : Write → Shared → Shared
  | gyro i v, g => { g with gyros := put g.gyros i v }
  | alarma v, g => { g with alarma := v }

def sistema : Threads.Program Sem Shared Msg Write Tid Loc where
  code := code
  start := start
  onInt := onInt
  env := Write.apply
  lock := Sem.lock

/-- What the simulator left in the shared blocks before the controller starts. -/
structure Input where
  distancia : Int
  nivel : Int
  giros : Gyro → Int
  alarma : Int

/-- After `sem_init` and `init_shared_memory`, before the first thread is created. -/
def init (inp : Input) : State where
  thr := fun t => { Threads.Thread.unborn (start t) with
    life := if t = .main then .running else .unborn }
  sem := fun x => match x with
    | .msg _ | .arg _ | .gyro _ => 0
    | _ => 1
  glob :=
    { currentAction := .event1, manualExplote := false, lastAlamra := 0, msgRead := 0
      isOn := true, landscape := false, princpEngine := true, stateGyros := fun _ => false
      distance := inp.distancia, ditBlock := inp.distancia, gasoline := inp.nivel
      gyros := inp.giros, alarma := inp.alarma, arrayThreads := fun _ => none
      arrayThreadsSignals := fun _ => none, engines := 0, corrections := fun _ => 0 }
  ended := false

end Sistema
