import SistemasOperativos.Sistema.Engines
import SistemasOperativos.Sistema.Rounds
import SistemasOperativos.Sistema.Schedules

/-!
# Semaphores across restarts of the engine

Where an engine may be cancelled so that it dies with no semaphore, and what then
becomes of the semaphores.
-/
namespace Sistema

open Threads Threads.Program

variable {s s' : State} {a : Label} {t u : Tid} {ok : Bool}

/-! ## The threads in the arrays -/

def Tid.isGyroscope : Tid → Bool
  | .gyroscopeThread _ _ => true
  | _ => false

/-- The thread about to be stored by `create_signals_gyros` is a correction thread. -/
def CreatePc.Fits : CreatePc → Prop
  | .storeThread _ t => t.isGyroscope = true
  | _ => True

def Fits (t : Tid) (l : Loc t) : Prop := ∀ p, inGyros t l = some p → p.Fits

theorem fits_of_none {l : Loc t} (h : inGyros t l = none) : Fits t l := by
  intro p hp
  rw [h] at hp
  cases hp

/-- One location of `create_signals_gyros` follows another. -/
inductive CreatePc.Next (g : Shared) : CreatePc → CreatePc → Prop
  | copied {i} : Next g (.copySem i) (.clearState i)
  | clearedAll {i} : Next g (.clearState i) (.createSignal i)
  | cleared {i} : Next g (.clearState i) (.createThread i)
  | createdSignal {i} : Next g (.createSignal i) (.storeSignal i (.signalGyro i))
  | storedSignal {i u} : Next g (.storeSignal i u) (.createThread i)
  | created {i} : Next g (.createThread i) (.storeThread i (.gyroscopeThread i (g.corrections i)))
  | stored {i j u} : Next g (.storeThread i u) (.copySem j)

/-- The location inside `create_signals_gyros` is its entry, or comes after another. -/
def Proceeds (g : Shared) (o o' : Option CreatePc) : Prop :=
  ∀ p, o' = some p → p = .copySem 0 ∨ ∃ q, o = some q ∧ q.Next g p

theorem proceeds_none {g : Shared} {o o' : Option CreatePc} (h : o' = none) : Proceeds g o o' := by
  rintro p rfl
  cases h

theorem createSignalsGyros_proceeds {k l : Loc t} {all : Bool} {pc : CreatePc → Loc t}
    {g : Shared} (hpc : ∀ p, inGyros t (pc p) = some p) (hk : inGyros t k = none) (p : CreatePc) :
    Proceeds g (inGyros t (pc p)) (inGyros t ((createSignalsGyros all pc k p).dest l g ok)) := by
  have hnext : ∀ q, p.Next g q → Proceeds g (inGyros t (pc p)) (inGyros t (pc q)) := by
    intro q hq r hr
    rw [hpc] at hr
    cases hr
    exact .inr ⟨p, hpc p, hq⟩
  cases p with
  | copySem i => exact hnext _ .copied
  | clearState i =>
    cases all with
    | true => exact hnext _ .clearedAll
    | false => exact hnext _ .cleared
  | createSignal i => exact hnext _ .createdSignal
  | storeSignal i u => exact hnext _ .storedSignal
  | createThread i => exact hnext _ .created
  | storeThread i u =>
    simp only [createSignalsGyros, Op.dest]
    split
    · exact hnext _ .stored
    · exact proceeds_none hk

theorem inGyros_dest (t : Tid) (l : Loc t) (g : Shared) (ok : Bool) :
    Proceeds g (inGyros t l) (inGyros t ((code t l).dest l g ok)) := by
  have hout : ∀ {l' : Loc t}, inGyros t l' = none → Proceeds g (inGyros t l) (inGyros t l') :=
    proceeds_none
  have henter : ∀ {o : Option CreatePc}, Proceeds g o (some (.copySem 0)) := by
    rintro o p ⟨⟩
    exact .inl rfl
  cases t with
  | main =>
    cases l with
    | createGyros p => exact createSignalsGyros_proceeds (fun _ => rfl) rfl p
    | handler saved p =>
      cases p with
      | exit => exact hout rfl
      | _ =>
        simp only [code, main, terminteProgram, Op.dest]
        split <;> exact hout rfl
    | head | test | post i =>
      simp only [code, main, Op.dest]
      split <;> exact hout rfl
    | _ => exact hout rfl
  | goUp30m =>
    cases l with
    | create p => exact createSignalsGyros_proceeds (fun _ => rfl) rfl p
    | change p => cases p <;> exact hout rfl
    | unlockTop => exact henter
    | head time | test time =>
      simp only [code, goUp30m, Op.dest]
      split <;> exact hout rfl
    | _ => exact hout rfl
  | sigHandlerManual =>
    cases l with
    | create a p => exact createSignalsGyros_proceeds (fun _ => rfl) rfl p
    | send p =>
      exact sendMesg_dest (A := fun l => Proceeds g none (inGyros .sigHandlerManual l))
        (fun _ => proceeds_none rfl) (proceeds_none rfl) p
    | alarm a p =>
      refine sendMesg_dest (A := fun l => Proceeds g none (inGyros .sigHandlerManual l))
        (fun _ => proceeds_none rfl) ?_ p
      split <;> exact proceeds_none rfl
    | manage a p =>
      cases p with
      | on => cases a <;> exact hout rfl
      | _ => exact hout rfl
    | cancelGyro a i =>
      obtain rfl | rfl := gyro_cases i
      · exact hout rfl
      · exact henter
    | testCode a =>
      simp only [code, sigHandlerManual, Op.dest]
      split <;> cases a <;> exact hout rfl
    | head | test =>
      simp only [code, sigHandlerManual, Op.dest]
      split <;> exact hout rfl
    | _ => exact hout rfl
  | _ => exact hout rfl

theorem fits_dest (t : Tid) (l : Loc t) (g : Shared) (ok : Bool) : Fits t ((code t l).dest l g ok) := by
  intro p hp
  obtain rfl | ⟨q, -, hq⟩ := inGyros_dest t l g ok p hp
  · trivial
  · cases hq with
    | created => exact rfl
    | _ => trivial

theorem fits_start (t : Tid) : Fits t (start t) := by
  cases t with
  | main =>
    intro p hp
    cases hp
    trivial
  | _ => exact fits_of_none rfl

theorem fits_step (hs : sistema.Step s a s') (h : ∀ t, Fits t (s.loc t)) (t : Tid) :
    Fits t (s'.loc t) := by
  obtain he | ⟨ok, he⟩ | he := step_loc hs t
  · exact he ▸ h t
  · exact he ▸ fits_dest t _ _ ok
  · cases t with
    | main =>
      generalize s.loc .main = l at he
      generalize s'.loc .main = l' at he
      cases l <;> cases he <;> exact fits_of_none rfl
    | _ => cases he

/-- The first two cells hold correction threads, and the third one an engine. -/
structure ArraysOk (g : Shared) : Prop where
  gyros : ∀ i u, g.arrayThreads (threadOf i) = some u → u.isGyroscope = true
  engine : ∀ u, g.arrayThreads 2 = some u → ∃ n, u = .pricipalEngineThread n

theorem arraysOk_init (inp : Input) : ArraysOk (init inp).glob := ⟨nofun, nofun⟩

theorem threadOf_ne_two (i : Gyro) : threadOf i ≠ 2 := by
  revert i
  decide

theorem threadOf_ne_three (i : Gyro) : threadOf i ≠ 3 := by
  revert i
  decide

theorem ArraysOk.congr {g g' : Shared} (h : ArraysOk g) (he : g'.arrayThreads = g.arrayThreads) :
    ArraysOk g' := by
  refine ⟨fun i u => ?_, fun u => ?_⟩ <;> rw [he]
  · exact h.gyros i u
  · exact h.engine u

/-- Stores to the third cell. -/
theorem ArraysOk.putEngine {g : Shared} (h : ArraysOk g) {o : Option Tid}
    (ho : ∀ u, o = some u → ∃ n, u = .pricipalEngineThread n) :
    ArraysOk { g with arrayThreads := put g.arrayThreads 2 o } := by
  refine ⟨fun i u hu => h.gyros i u ?_, fun u hu => ho u ?_⟩
  · simpa [put, threadOf_ne_two] using hu
  · simpa [put] using hu

theorem arraysOk_step (hs : sistema.Step s a s') (hi : EngineInv s) (hf : ∀ t, Fits t (s.loc t))
    (h : ArraysOk s.glob) : ArraysOk s'.glob := by
  obtain ⟨t, l, ok, -, hr, hl, hw⟩ | ⟨w, -, hw⟩ | hw := step_writes hs
  · have hfit := hf t
    rw [hl] at hfit
    generalize s'.glob = g' at hw
    cases hw with
    | clearPe | manageClear => exact h.putEngine nofun
    | storePe =>
      have hslot := hi.slot
      rw [hl] at hslot
      exact h.putEngine fun u hu => ⟨0, by cases hu; exact hslot.2⟩
    | manageStore =>
      have hslot := (engineSlot_late (hi.late hr)).mp hi.slot
      rw [hl] at hslot
      exact h.putEngine fun u hu => ⟨_, by cases hu; exact hslot.2⟩
    | storeGoUp =>
      refine ⟨fun i u hu => h.gyros i u ?_, fun u hu => h.engine u ?_⟩
      · simpa [storeThread, put, threadOf_ne_three] using hu
      · simpa [storeThread, put] using hu
    | @storeGyro _ _ _ i u hin =>
      have hu := hfit _ hin
      refine ⟨fun j v hv => ?_, fun v hv => h.engine v ?_⟩
      · by_cases hj : threadOf j = threadOf i
        · have : v = u := by simpa [storeThread, put, hj] using hv.symm
          exact this ▸ hu
        · exact h.gyros j v (by simpa [storeThread, put, hj] using hv)
      · simpa [storeThread, put, Ne.symm (threadOf_ne_two i)] using hv
    | descend =>
      refine h.congr ?_
      unfold descend
      split <;> rfl
    | _ => exact h.congr rfl
  · rw [hw]
    cases w <;> exact h.congr rfl
  · rw [hw]
    exact h

/-! ## Deaths -/

/-- Outside of `terminte_program`. -/
def plain : (t : Tid) → Loc t → Bool
  | .main => MainPc.plain
  | _ => fun _ => true

/-- Before `terminte_program` only correction threads and engines are cancelled. -/
theorem cancels_cases {l : Loc t} {g : Shared} (ok : Bool) (hp : plain t l = true)
    (h : (code t l).cancels g = some u) : (∃ i, g.arrayThreads (threadOf i) = some u) ∨
      (t = .sigHandlerManual ∧ cancelsEngine (.exec t l ok) = true ∧ g.arrayThreads 2 = some u) := by
  have hc := code_calls t l
  generalize code t l = o at h hc
  cases hc with
  | plain ho => cases (ho.cancels g).symm.trans h
  | cancelGyro => exact .inl ⟨_, h⟩
  | manageCancel => exact .inr ⟨rfl, rfl, h⟩
  | terminate => cases hp
  | _ => cases h

/-- An engine cancelled here holds nothing at the next point of cancellation. -/
def EnginePc.Restartable : EnginePc → Prop
  | .lockAction | .descend | .lockGs _ | .lockGas => False
  | .send _ (.sendto _) | .send _ (.sleep _) | .send _ .lockRead => False
  | _ => True

instance : DecidablePred EnginePc.Restartable
  | .lockAction | .descend | .lockGs _ | .lockGas => isFalse not_false
  | .send _ (.sendto _) | .send _ (.sleep _) | .send _ .lockRead => isFalse not_false
  | .send _ .lock | .send _ .count | .send _ .unlockRead | .send _ .unlockSock => isTrue trivial
  | .head | .testcancel | .sleep | .lockDist | .mode | .state _ | .burn _ => isTrue trivial
  | .unlockGas _ | .unlockGs _ _ | .unlockAction _ | .unlockDist _ => isTrue trivial
  | .motor _ | .space _ _ | .format _ _ _ | .waitMsg | .finished => isTrue trivial

theorem restartable_kept (l : EnginePc) (g : Shared) (ok : Bool) (h : l.Restartable)
    (hp : (pricipalEngineThread l).cancelPoint = false ∨
      (pricipalEngineThread l).interruptible = true) :
    ((pricipalEngineThread l).dest l g ok).Restartable := by
  cases l with
  | send m p =>
    cases p with
    | sendto | sleep | lockRead => exact h.elim
    | lock => obtain hp | hp := hp <;> cases hp
    | count | unlockRead | unlockSock => trivial
  | lockAction | descend | lockGs | lockGas => exact h.elim
  | unlockGs i p => obtain rfl | rfl := gyro_cases i <;> trivial
  | head | mode =>
    simp only [pricipalEngineThread, Op.dest]
    split <;> trivial
  | state i =>
    simp only [pricipalEngineThread, Op.dest]
    split
    · trivial
    · split <;> trivial
  | lockDist | waitMsg | testcancel => obtain hp | hp := hp <;> cases hp
  | _ => trivial

theorem restartable_holds {l : EnginePc} (h : l.Restartable)
    (hp : (pricipalEngineThread l).cancelPoint = true) : l.holds = [] := by
  cases l with
  | send m p =>
    cases p with
    | sendto | sleep | lockRead => exact h.elim
    | lock => rfl
    | count | unlockRead | unlockSock => cases hp
  | lockAction | lockGs | lockGas => exact h.elim
  | testcancel | sleep | lockDist | waitMsg => rfl
  | _ => cases hp

/-- At its points of cancellation a correction thread has its own copy at most. -/
theorem gyroscope_holds {i : Gyro} {n : ℕ} {l : GyroscopePc}
    (hp : (gyroscopeThread i n l).cancelPoint = true) {x : Sem} (hx : x.shared = true) :
    x ∉ l.holds i n := by
  cases l with
  | firstPause | testcancel | lockGyro | sleep | pause => exact List.not_mem_nil
  | lockGas =>
    intro hm
    obtain rfl := List.mem_singleton.mp hm
    cases hx
  | _ => cases hp

theorem ret_holds {l : Loc t} (h : (code t l).isRet = true) : holds t l = [] := by
  have hc := code_calls t l
  generalize code t l = o at h hc
  cases hc with
  | plain hp => cases hp.isRet.symm.trans h
  | ret he =>
    unfold atEnd at he
    split at he <;> first | rfl | cases he
  | _ => cases h

/-- Nothing is lost: threads that are over hold no shared semaphore, and none that
is cancelled will die with one. -/
structure NothingLost (s : State) : Prop where
  cancelled : ∀ u, s.cancelled u = true →
    u.isGyroscope = true ∨ ∃ n, u = .pricipalEngineThread n ∧
      (s.loc (.pricipalEngineThread n)).Restartable
  finished : ∀ u, s.life u = .finished → ∀ x, x.shared = true → x ∉ s.held u
  unborn : ∀ u, s.life u = .unborn → s.held u = []
  plain : (s.loc .main).plain = true

theorem nothingLost_init (inp : Input) : NothingLost (init inp) where
  cancelled _ h := by cases h
  finished u h := by
    simp only [init, State.life] at h
    split at h <;> cases h
  unborn _ _ := rfl
  plain := rfl

theorem cancelled_lost (hs : sistema.Step s a s') (hc : CancelsAt EnginePc.Restartable s a)
    (ha : ArraysOk s.glob) (h : NothingLost s) (hu : s'.cancelled u = true) :
    u.isGyroscope = true ∨ ∃ n, u = .pricipalEngineThread n ∧
      (s'.loc (.pricipalEngineThread n)).Restartable := by
  by_cases hold : s.cancelled u = true
  · obtain hg | ⟨n, rfl, hl⟩ := h.cancelled u hold
    · exact .inl hg
    · exact .inr ⟨n, rfl, cancelled_step restartable_kept hs hold hl⟩
  · obtain ⟨t, ok, rfl, rfl, ho⟩ := newly_cancelled hs (by simpa using hold) hu
    have hplain : plain t (s.loc t) = true := by
      cases t with
      | main => exact h.plain
      | _ => rfl
    obtain ⟨i, hi⟩ | ⟨rfl, hl, h2⟩ := cancels_cases ok hplain ho
    · exact .inl (ha.gyros i u hi)
    · obtain ⟨n, rfl⟩ := ha.engine u h2
      refine .inr ⟨n, rfl, ?_⟩
      rw [effect_loc_of_ne (engine_ne_manual n)]
      exact hc hl n (by rw [h2]; rfl)

/-- What dies holds no shared semaphore. -/
theorem death_holds (h : NothingLost s) (hh : ∀ t, s.held t = holds t (s.loc t))
    (hp : (sistema.op s t).cancelPoint = true) (hc : s.cancelled t = true) {x : Sem}
    (hx : x.shared = true) : x ∉ s.held t := by
  rw [hh]
  obtain hg | ⟨n, rfl, hl⟩ := h.cancelled t hc
  · cases t with
    | gyroscopeThread i n => exact gyroscope_holds hp hx
    | _ => cases hg
  · have : holds (.pricipalEngineThread n) (s.loc (.pricipalEngineThread n)) = [] :=
      restartable_holds hl hp
    rw [this]
    exact List.not_mem_nil

theorem nothingLost_step (hs : sistema.Step s a s') (hc : CancelsAt EnginePc.Restartable s a)
    (hn : NoInt a) (ha : ArraysOk s.glob) (hh : ∀ t, s.held t = holds t (s.loc t))
    (h : NothingLost s) : NothingLost s' := by
  have hcancelled := fun u => cancelled_lost (u := u) hs hc ha h
  cases hs with
  | @exec t ok hr _ _ =>
    refine ⟨hcancelled, fun u hu x hx => ?_, fun u hu => ?_, ?_⟩
    · obtain ⟨hu, hne⟩ | ⟨rfl, hret | hover⟩ := effect_finished hu
      · rw [effect_held_of_ne hne]
        exact h.finished u hu x hx
      · have hnil : s.held u = [] := (hh u).trans (ret_holds hret)
        rw [effect_held_self, hnil]
        cases hop : sistema.op s u <;> rw [hop] at hret <;> cases hret
        exact List.not_mem_nil
      · cases hover.symm.trans hr.2
    · obtain ⟨hu, hne⟩ := effect_unborn hr hu
      rw [effect_held_of_ne hne]
      exact h.unborn u hu
    · by_cases htm : t = .main
      · subst htm
        rw [effect_loc_self]
        exact main_plain h.plain _ _
      · rw [effect_loc_of_ne (Ne.symm htm)]
        exact h.plain
  | @die t hr hp hcc =>
    refine ⟨hcancelled, fun u hu x hx => ?_, fun u hu => ?_, ?_⟩
    · rw [die_held]
      by_cases hut : u = t
      · subst hut
        exact death_holds h hh hp hcc hx
      · exact h.finished u (by rwa [die_life_of_ne hut] at hu) x hx
    · rw [die_held]
      exact h.unborn u (die_unborn hu)
    · rw [die_loc]
      exact h.plain
  | cont =>
    refine ⟨hcancelled, fun u hu x hx => ?_, fun u hu => ?_, ?_⟩
    · rw [wake_held]
      exact h.finished u (by rwa [wake_life] at hu) x hx
    · rw [wake_held]
      exact h.unborn u (by rwa [wake_life] at hu)
    · rw [main_wake]
      exact h.plain
  | int => exact hn.elim
  | env => exact ⟨hcancelled, h.finished, h.unborn, h.plain⟩

variable {C : State → Label → Prop} {inp : Input} {tr : List Label}

theorem arraysOk (h : sistema.Run C (init inp) tr s) : (∀ t, Fits t (s.loc t)) ∧ ArraysOk s.glob := by
  have hI : EngineInv s ∧ (∀ t, Fits t (s.loc t)) ∧ ArraysOk s.glob := by
    refine h.invariant (I := fun s => EngineInv s ∧ (∀ t, Fits t (s.loc t)) ∧ ArraysOk s.glob)
      ⟨engineInv_init inp, fits_start, arraysOk_init inp⟩ ?_
    intro s a s' ⟨hi, hf, ha⟩ hs _
    exact ⟨engineInv_step hs hi, fits_step hs hf, arraysOk_step hs hi hf ha⟩
  exact hI.2

theorem nothingLost_run (h : sistema.Run C (init inp) tr s)
    (hC : ∀ s a, C s a → CancelsAt EnginePc.Restartable s a ∧ NoInt a) : NothingLost s := by
  induction h with
  | nil => exact nothingLost_init inp
  | @snoc tr s s' a hrun hs hc ih =>
    exact nothingLost_step hs (hC s a hc).1 (hC s a hc).2 (arraysOk hrun).2 (held_eq hrun) ih

/-- Before `terminte_program` every shared semaphore is free or held by a thread that
is still running. -/
theorem semaphore_or_owner (h : sistema.Run C (init inp) tr s)
    (hC : ∀ s a, C s a → CancelsAt EnginePc.Restartable s a ∧ NoInt a) {x : Sem}
    (hx : x.shared = true) : s.sem x = 1 ∨ ∃ t, s.life t = .running ∧ x ∈ s.held t := by
  have hn := nothingLost_run h hC
  obtain ⟨h1, _⟩ | ⟨_, t, ht, _⟩ := mutex h hx
  · exact .inl h1
  · refine .inr ⟨t, ?_, ht⟩
    cases hl : s.life t with
    | unborn =>
      rw [hn.unborn t hl] at ht
      cases ht
    | finished => exact absurd ht (hn.finished t hl x hx)
    | running => rfl

/-- `manage_principal_engine` has cancelled this engine. -/
def Restarted (s : State) (n : ℕ) : Prop :=
  n + 1 < s.glob.engines ∨ n + 1 = s.glob.engines ∧ (s.loc .sigHandlerManual).replacing = true

/-- No semaphore is lost when every engine is cancelled at a restartable location. -/
theorem restart_loses_nothing
    (h : sistema.Run (CancelsAt EnginePc.Restartable) (init inp) tr s) :
    (∀ n l s', sistema.Step s (.die (.pricipalEngineThread n) l) s' → Restarted s n →
      s.held (.pricipalEngineThread n) = []) ∧
    ((∀ a ∈ tr, NoInt a) → ∀ x, x.shared = true →
      s.sem x = 1 ∨ ∃ t, s.life t = .running ∧ x ∈ s.held t) := by
  refine ⟨fun n l s' hs hn => ?_, fun hn x hx => ?_⟩
  · have hr := replaced_run restartable_kept (fun _ _ => id) h
    have hl : (s.loc (.pricipalEngineThread n)).Restartable := by
      obtain hlt | ⟨heq, hrep⟩ := hn
      · exact hr.stale n hlt
      · obtain rfl : n = s.glob.engines - 1 := by omega
        exact hr.current hrep
    rw [held_eq h]
    exact restartable_holds hl hs.die_inv.2.2.1
  · exact semaphore_or_owner (h.and hn) (fun _ _ => id) hx

/-- The engine is replaced at the head of its loop. -/
theorem restart_at_head : ∃ tr s, sistema.Run (CancelsAt EnginePc.Restartable)
    (init ⟨10, 100, fun _ => 0, 0⟩) tr s ∧
    (∃ l s', sistema.Step s (.die (.pricipalEngineThread 0) l) s') ∧
    s.held (.pricipalEngineThread 0) = [] ∧
    (s.sem .dist = 1 ∨ ∃ t, s.life t = .running ∧ .dist ∈ s.held t) := by
  have hrun : ∃ tr s, sistema.Run (CancelsAt EnginePc.Restartable)
      (init ⟨10, 100, fun _ => 0, 0⟩) tr s ∧ (∀ a ∈ tr, NoInt a) ∧ 0 + 1 < s.glob.engines ∧
      s.Running (.pricipalEngineThread 0) ∧
      (sistema.op s (.pricipalEngineThread 0)).cancelPoint = true ∧
      s.cancelled (.pricipalEngineThread 0) = true := by
    refine run_of_check (boot ++ [.env (.alarma 102)] ++ burst .sigHandlerManual 11 ++
      burst (.pricipalEngineThread 0) 1) ?_
    decide +kernel
  obtain ⟨tr, s, hr, hn, he, hrun, hp, hc⟩ := hrun
  have hs : sistema.Step s (.die (.pricipalEngineThread 0) (s.loc _)) (die s _) := .die hrun hp hc
  obtain ⟨hdie, hsem⟩ := restart_loses_nothing hr
  exact ⟨tr, s, hr, ⟨_, _, hs⟩, hdie 0 _ _ hs (.inl he), hsem hn .dist rfl⟩

/-- The engine is replaced while it waits for `sem_action` with `sem_dist`. -/
theorem dist_lost : ∃ inp tr s l s', sistema.Run (fun _ a => NoInt a) (init inp) tr s ∧
    Restarted s 0 ∧ sistema.Step s (.die (.pricipalEngineThread 0) l) s' ∧
    .dist ∈ s.held (.pricipalEngineThread 0) ∧
    ¬ (s'.sem .dist = 1 ∨ ∃ t, s'.life t = .running ∧ .dist ∈ s'.held t) := by
  have hrun : ∃ tr s, sistema.Run (fun _ a => NoInt a) (init ⟨10, 100, fun _ => 0, 0⟩) tr s ∧
      0 + 1 < s.glob.engines ∧ s.Running (.pricipalEngineThread 0) ∧
      (sistema.op s (.pricipalEngineThread 0)).cancelPoint = true ∧
      s.cancelled (.pricipalEngineThread 0) = true ∧
      .dist ∈ s.held (.pricipalEngineThread 0) ∧ s.sem .dist = 0 := by
    refine run_of_check (boot ++ burst (.pricipalEngineThread 0) 4 ++ [.env (.alarma 102)] ++
      burst .sigHandlerManual 11) ?_
    decide +kernel
  obtain ⟨tr, s, hr, he, hrun, hp, hc, hd, h0⟩ := hrun
  have hs : sistema.Step s (.die (.pricipalEngineThread 0) (s.loc _)) (die s _) := .die hrun hp hc
  refine ⟨_, tr, s, _, _, hr, .inl he, hs, hd, ?_⟩
  rintro (h1 | ⟨t, ht, hheld⟩)
  · cases h0.symm.trans h1
  · rw [die_held] at hheld
    obtain rfl := (mutex hr rfl).unique hd hheld
    rw [die_life_self] at ht
    cases ht

end Sistema
