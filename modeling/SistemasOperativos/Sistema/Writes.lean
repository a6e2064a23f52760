import SistemasOperativos.Sistema.Code

/-! Every write to shared memory, said once. -/
namespace Sistema

open Threads

/-- `++msg_read` in `send_mesg`. -/
def atCount : (t : Tid) → Loc t → Bool
  | .signalGyro _, .send _ .count => true
  | .pricipalEngineThread _, .send _ .count => true
  | .signalRestartLanding, .send _ .count => true
  | .signalExploteRocket, .send _ .count => true
  | .signalExploteRocket, .abort .count => true
  | .signalLandingCheck, .send _ .count => true
  | .signalLandingCheck, .report _ .count => true
  | .sigHandlerManual, .send .count => true
  | .sigHandlerManual, .alarm _ .count => true
  | _, _ => false

/-- The location inside `create_signals_gyros`, which runs in three threads. -/
def inGyros : (t : Tid) → Loc t → Option CreatePc
  | .main, .createGyros p => some p
  | .goUp30m, .create p => some p
  | .sigHandlerManual, .create _ p => some p
  | _, _ => none

/-- The write of a thread at a location. -/
inductive Writes : (t : Tid) → Loc t → Shared → Shared → Prop
  | none {t l g} : Writes t l g g
  | count {t l g} (h : atCount t l = true) : Writes t l g { g with msgRead := g.msgRead + 1 }
  | reset {g} : Writes .main .reset g { g with msgRead := 0 }
  | clearPe {g} : Writes .main .clearPe g { g with arrayThreads := put g.arrayThreads 2 none }
  | createPe {g} : Writes .main .createPe g { g with engines := g.engines + 1 }
  | storePe {g u} : Writes .main (.storePe u) g (storeThread 2 u g)
  | storeGoUp {g u} : Writes .main (.storeGoUp u) g (storeThread 3 u g)
  | storeSignal {t l g i u} : Writes t l g (storeSignal i u g)
  | clearState {t l g i} : Writes t l g { g with stateGyros := put g.stateGyros i false }
  | createGyro {t l g i} : Writes t l g { g with
      corrections := put g.corrections i (g.corrections i + 1) }
  | storeGyro {t l g i u} (h : inGyros t l = some (.storeThread i u)) :
    Writes t l g (storeThread (threadOf i) u g)
  | setOn {i n g} : Writes (.gyroscopeThread i n) .setOn g
      { g with stateGyros := put g.stateGyros i true }
  | setOff {i n g} : Writes (.gyroscopeThread i n) .setOff g
      { g with stateGyros := put g.stateGyros i false }
  | correct {i n g} : Writes (.gyroscopeThread i n) .burn g { g with gasoline := g.gasoline - 1 }
  | turn {i n g v} : Writes (.gyroscopeThread i n) (.store v) g { g with gyros := put g.gyros i v }
  | descend {n g} : Writes (.pricipalEngineThread n) .descend g (descend g)
  | burn {n g p} : Writes (.pricipalEngineThread n) (.burn p) g
      { g with gasoline := p.burn g.gasoline }
  | climb {time g} (h : time < 5) : Writes .goUp30m (.test time) g
      { g with distance := g.distance + rateGoUp }
  | assign1 {g} : Writes .goUp30m (.change .assign) g { g with currentAction := .event1 }
  | assign3 {g} : Writes .signalRestartLanding (.change .assign) g
      { g with currentAction := .event3 }
  | assign5 {d g} : Writes .signalLandingCheck (.change d .assign) g
      { g with currentAction := .event5 }
  | startEngine {g} : Writes .signalRestartLanding .startEngine g { g with princpEngine := true }
  | engineOff {d g} : Writes .signalLandingCheck (.engineOff d) g { g with princpEngine := false }
  | manageOff {a g} : Writes .sigHandlerManual (.manage a .off) g { g with princpEngine := false }
  | manageClear {a g} : Writes .sigHandlerManual (.manage a .clear) g
      { g with arrayThreads := put g.arrayThreads 2 none }
  | manageCreate {a g} : Writes .sigHandlerManual (.manage a .create) g
      { g with engines := g.engines + 1 }
  | manageStore {a u g} : Writes .sigHandlerManual (.manage a (.store u)) g (storeThread 2 u g)
  | manageOn {a g} : Writes .sigHandlerManual (.manage a .on) g { g with princpEngine := true }
  | clearManual {g} : Writes .signalExploteRocket .clearManual g { g with manualExplote := false }
  | touch {d g} : Writes .signalLandingCheck (.touch d) g { g with isOn := false }
  | resetAlarm {g} : Writes .sigHandlerManual .reset g { g with alarma := 0 }
  | reread {g} : Writes .sigHandlerManual .reread g { g with lastAlamra := g.alarma }

theorem sendMesg_writes {t : Tid} {l k : Loc t} {m : Msg} {pc : SendPc → Loc t} {p : SendPc}
    (hl : p = .count → atCount t l = true) (g : Shared) :
    Writes t l g ((sendMesg m pc k p).glob g) := by
  cases p with
  | count => exact .count (hl rfl)
  | _ => exact .none

theorem createSignalsGyros_writes {t : Tid} {l k : Loc t} {all : Bool} {pc : CreatePc → Loc t}
    {p : CreatePc} (hl : inGyros t l = some p) (g : Shared) :
    Writes t l g ((createSignalsGyros all pc k p).glob g) := by
  cases p with
  | clearState i => exact .clearState
  | storeSignal i u => exact .storeSignal
  | createThread i => exact .createGyro
  | storeThread i u => exact .storeGyro hl
  | _ => exact .none

theorem code_writes (t : Tid) (l : Loc t) (g : Shared) : Writes t l g ((code t l).glob g) := by
  cases t with
  | main =>
    cases l with
    | createGyros p => exact createSignalsGyros_writes rfl g
    | clearPe => exact .clearPe
    | createPe => exact .createPe
    | storePe u => exact .storePe
    | storeGoUp u => exact .storeGoUp
    | storeRest u | storeExplo u | storeLand u | storeManual u => exact .storeSignal
    | reset => exact .reset
    | handler saved p => cases p <;> exact .none
    | _ => exact .none
  | signalGyro i =>
    cases l with
    | send m p => exact sendMesg_writes (fun h => h ▸ rfl) g
    | _ => exact .none
  | gyroscopeThread i n =>
    cases l with
    | setOn => exact .setOn
    | setOff => exact .setOff
    | burn => exact .correct
    | store v => exact .turn
    | _ => exact .none
  | pricipalEngineThread n =>
    cases l with
    | send m p => exact sendMesg_writes (fun h => h ▸ rfl) g
    | descend => exact .descend
    | burn p => exact .burn
    | _ => exact .none
  | signalRestartLanding =>
    cases l with
    | send m p => exact sendMesg_writes (fun h => h ▸ rfl) g
    | change p =>
      cases p with
      | assign => exact .assign3
      | _ => exact .none
    | startEngine => exact .startEngine
    | _ => exact .none
  | goUp30m =>
    cases l with
    | create p => exact createSignalsGyros_writes rfl g
    | change p =>
      cases p with
      | assign => exact .assign1
      | _ => exact .none
    | test time =>
      by_cases h : time < 5
      · simpa only [code, goUp30m, Op.glob, h, if_true] using Writes.climb h
      · simpa only [code, goUp30m, Op.glob, h, if_false] using Writes.none
    | _ => exact .none
  | signalExploteRocket =>
    cases l with
    | send m p => exact sendMesg_writes (fun h => h ▸ rfl) g
    | abort p => exact sendMesg_writes (fun h => h ▸ rfl) g
    | clearManual => exact .clearManual
    | _ => exact .none
  | signalLandingCheck =>
    cases l with
    | send m p => exact sendMesg_writes (fun h => h ▸ rfl) g
    | report d p => exact sendMesg_writes (fun h => h ▸ rfl) g
    | change d p =>
      cases p with
      | assign => exact .assign5
      | _ => exact .none
    | engineOff d => exact .engineOff
    | touch d => exact .touch
    | _ => exact .none
  | sigHandlerManual =>
    cases l with
    | send p => exact sendMesg_writes (fun h => h ▸ rfl) g
    | alarm a p => exact sendMesg_writes (fun h => h ▸ rfl) g
    | create a p => exact createSignalsGyros_writes rfl g
    | manage a p =>
      cases p with
      | off => exact .manageOff
      | clear => exact .manageClear
      | create => exact .manageCreate
      | store u => exact .manageStore
      | on => exact .manageOn
      | _ => exact .none
    | reset => exact .resetAlarm
    | reread => exact .reread
    | _ => exact .none

/-- What a step does to shared memory. -/
theorem step_writes {s s' : State} {a : Label} (hs : sistema.Step s a s') :
    (∃ t l ok, a = .exec t l ok ∧ s.Running t ∧ s.loc t = l ∧ Writes t l s.glob s'.glob) ∨
      (∃ w, a = .env w ∧ s'.glob = w.apply s.glob) ∨ s'.glob = s.glob := by
  cases hs with
  | @exec t ok hr _ _ => exact .inl ⟨t, s.loc t, ok, rfl, hr, rfl, code_writes t (s.loc t) s.glob⟩
  | env w => exact .inr (.inl ⟨w, rfl, rfl⟩)
  | _ => exact .inr (.inr rfl)

end Sistema
