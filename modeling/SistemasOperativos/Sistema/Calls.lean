import SistemasOperativos.Sistema.Writes
import SistemasOperativos.Threads.Effect

/-! Every operation on other threads or on a whole semaphore, said once. -/
namespace Sistema

open Threads

/-- The end of a routine. -/
def atEnd : (t : Tid) → Loc t → Bool
  | .signalGyro _, .finished => true
  | .gyroscopeThread _ _, .finished => true
  | .pricipalEngineThread _, .finished => true
  | .signalRestartLanding, .finished => true
  | .goUp30m, .finished => true
  | .signalExploteRocket, .finished => true
  | .signalLandingCheck, .finished => true
  | .sigHandlerManual, .finished => true
  | _, _ => false

/-- Threads of the gyroscopes. -/
def Tid.ofGyro : Tid → Bool
  | .signalGyro _ | .gyroscopeThread _ _ => true
  | _ => false

/-- `main` is about to end the process, or is in the handler that will. -/
def MainPc.leaves : MainPc → Bool
  | .exit | .handler _ _ => true
  | _ => false

/-- `pthread_kill(main_id, SIGINT)`. -/
def interrupts : (t : Tid) → Loc t → Bool
  | .signalExploteRocket, .kill => true
  | .signalLandingCheck, .kill => true
  | .sigHandlerManual, .kill => true
  | _, _ => false

/-- The operation of a thread at a location. -/
inductive Calls : (t : Tid) → (l : Loc t) → Instr (Loc t) → Prop
  | plain {t l o} (h : o.Plain) : Calls t l o
  | ret {t l} (h : atEnd t l = true) : Calls t l .ret
  | copyArg {t l i k} (h : inGyros t l = some (.copySem i)) : Calls t l (.copy (.arg i) (.gs i) k)
  | copySignal {i k} : Calls (.signalGyro i) .copySem (.copy (.gyro (.signalGyro i)) (.arg i) k)
  | copyThread {i n k} : Calls (.gyroscopeThread i n) .copySem
      (.copy (.gyro (.gyroscopeThread i n)) (.arg i) k)
  | createSignal {t l i k} (h : inGyros t l = some (.createSignal i)) :
    Calls t l (.create (fun g => (g, .signalGyro i)) k)
  | createThread {t l i k} (h : inGyros t l = some (.createThread i)) :
    Calls t l (.create (freshCorrection i) k)
  | createPe {k} : Calls .main .createPe (.create freshEngine k)
  | createOther {l u k} (h : u.ofGyro = false) : Calls .main l (.create (fun g => (g, u)) k)
  | manageCreate {a k} : Calls .sigHandlerManual (.manage a .create) (.create freshEngine k)
  | manageCancel {a k} : Calls .sigHandlerManual (.manage a .cancel)
      (.cancel (fun g => g.arrayThreads 2) k)
  | cancelGyro {t l i k} : Calls t l (.cancel (fun g => g.arrayThreads (threadOf i)) k)
  | terminate {saved p f k} : Calls .main (.handler saved p) (.cancel f k)
  | wake {i f k} : Calls (.signalGyro i) .wake (.kill .cont f k)
  | contEngine {f k} : Calls .signalRestartLanding .contEngine (.kill .cont f k)
  | contGoUp {k} : Calls .signalRestartLanding .contGoUp
      (.kill .cont (fun g => g.arrayThreads 3) k)
  | int {t l f k} (h : interrupts t l = true) : Calls t l (.kill .int f k)
  | exit {l} (h : MainPc.leaves l = true) : Calls .main l .exit

theorem sendMesg_plain {L : Type} {m : Msg} {pc : SendPc → L} {k : L} (p : SendPc) :
    (sendMesg m pc k p).Plain := by
  cases p <;> trivial

theorem changeAction_plain {L : Type} {e : Event} {pc : ChangePc → L} {k : L} (p : ChangePc) :
    (changeAction e pc k p).Plain := by
  cases p <;> trivial

theorem createSignalsGyros_calls {t : Tid} {l k : Loc t} {all : Bool} {pc : CreatePc → Loc t}
    {p : CreatePc} (hl : inGyros t l = some p) : Calls t l (createSignalsGyros all pc k p) := by
  cases p with
  | copySem i => exact .copyArg hl
  | createSignal i => exact .createSignal hl
  | createThread i => exact .createThread hl
  | _ => exact .plain trivial

theorem code_calls (t : Tid) (l : Loc t) : Calls t l (code t l) := by
  cases t with
  | main =>
    cases l with
    | createGyros p => exact createSignalsGyros_calls rfl
    | createPe => exact .createPe
    | createRest | createGoUp | createExplo | createLand | createManual => exact .createOther rfl
    | exit => exact .exit rfl
    | handler saved p =>
      cases p with
      | cancelThread | cancelSignal => exact .terminate
      | postMsg => exact .plain trivial
      | exit => exact .exit rfl
    | _ => exact .plain trivial
  | signalGyro i =>
    cases l with
    | copySem => exact .copySignal
    | send m p => exact .plain (sendMesg_plain p)
    | wake => exact .wake
    | finished => exact .ret rfl
    | _ => exact .plain trivial
  | gyroscopeThread i n =>
    cases l with
    | copySem => exact .copyThread
    | finished => exact .ret rfl
    | _ => exact .plain trivial
  | pricipalEngineThread n =>
    cases l with
    | send m p => exact .plain (sendMesg_plain p)
    | finished => exact .ret rfl
    | _ => exact .plain trivial
  | signalRestartLanding =>
    cases l with
    | send m p => exact .plain (sendMesg_plain p)
    | change p => exact .plain (changeAction_plain p)
    | cancelGyro i => exact .cancelGyro
    | contEngine => exact .contEngine
    | contGoUp => exact .contGoUp
    | finished => exact .ret rfl
    | _ => exact .plain trivial
  | goUp30m =>
    cases l with
    | create p => exact createSignalsGyros_calls rfl
    | change p => exact .plain (changeAction_plain p)
    | finished => exact .ret rfl
    | _ => exact .plain trivial
  | signalExploteRocket =>
    cases l with
    | send m p => exact .plain (sendMesg_plain p)
    | abort p => exact .plain (sendMesg_plain p)
    | kill => exact .int rfl
    | finished => exact .ret rfl
    | _ => exact .plain trivial
  | signalLandingCheck =>
    cases l with
    | send m p => exact .plain (sendMesg_plain p)
    | report d p => exact .plain (sendMesg_plain p)
    | change d p => exact .plain (changeAction_plain p)
    | cancelGyro i d => exact .cancelGyro
    | kill => exact .int rfl
    | finished => exact .ret rfl
    | _ => exact .plain trivial
  | sigHandlerManual =>
    cases l with
    | send p => exact .plain (sendMesg_plain p)
    | alarm a p => exact .plain (sendMesg_plain p)
    | create a p => exact createSignalsGyros_calls rfl
    | manage a p =>
      cases p with
      | cancel => exact .manageCancel
      | create => exact .manageCreate
      | _ => exact .plain trivial
    | cancelGyro a i => exact .cancelGyro
    | kill => exact .int rfl
    | finished => exact .ret rfl
    | _ => exact .plain trivial

theorem signals_int {t u : Tid} {l : Loc t} {g : Shared}
    (h : (code t l).signals .int g = some u) : interrupts t l = true := by
  have hc := code_calls t l
  generalize code t l = o at hc h
  cases hc with
  | plain hp => cases (hp.signals .int g).symm.trans h
  | int hi => exact hi
  | _ => cases h

end Sistema
