import SistemasOperativos.Sistema.Locks
import SistemasOperativos.Threads.Barrier

/-!
# Reporters at the barrier

Each of the seven slots belongs to one reporter. The phase of a location says how
far its thread is in the round.
-/
namespace Sistema

open Threads Threads.Program

/-- `sent` is between `sendto` and `++msg_read`; a thread that is `gone` never
waits again. -/
inductive Phase
  | work
  | sent
  | atCount
  | counted
  | atWait
  | gone
  deriving DecidableEq, Repr

def Phase.next : Phase → Phase → Bool
  | .work, q => q = .work || q = .sent || q = .gone
  | .sent, q => q = .atCount
  | .atCount, q => q = .counted
  | .counted, q => q = .counted || q = .atWait || q = .gone
  | .atWait, q => q = .work
  | .gone, q => q = .gone

def SendPc.phase : SendPc → Phase
  | .lock | .sendto _ | .sleep _ => .work
  | .lockRead => .sent
  | .count => .atCount
  | .unlockRead | .unlockSock => .counted

def SignalGyroPc.phase : SignalGyroPc → Phase
  | .send _ p => p.phase
  | .waitMsg => .atWait
  | _ => .work

def EnginePc.phase : EnginePc → Phase
  | .send _ p => p.phase
  | .waitMsg => .atWait
  | _ => .work

def RestartPc.phase : RestartPc → Phase
  | .send _ p => p.phase
  | .waitMsg => .atWait
  | _ => .work

def ExplotePc.phase : ExplotePc → Phase
  | .abort p | .send _ p => p.phase
  | .waitAbort | .waitMsg => .atWait
  | _ => .work

def LandingPc.phase : LandingPc → Phase
  | .report _ p | .send _ p => p.phase
  | .waitMsg => .atWait
  | .sleep | .kill | .finished => .gone
  | _ => .work

def ManualPc.phase : ManualPc → Phase
  | .alarm _ p | .send p => p.phase
  | .sleep | .kill | .reset | .reread => .counted
  | .waitMsg => .atWait
  | _ => .work

def phase : (t : Tid) → Loc t → Phase
  | .signalGyro _ => SignalGyroPc.phase
  | .pricipalEngineThread _ => EnginePc.phase
  | .signalRestartLanding => RestartPc.phase
  | .signalExploteRocket => ExplotePc.phase
  | .signalLandingCheck => LandingPc.phase
  | .sigHandlerManual => ManualPc.phase
  | _ => fun _ => .gone

def slotOf : Tid → Option Slot
  | .signalGyro i => some (if i = 0 then 0 else 1)
  | .signalRestartLanding => some 2
  | .signalExploteRocket => some 3
  | .signalLandingCheck => some 4
  | .sigHandlerManual => some 5
  | .pricipalEngineThread _ => some 6
  | _ => none

def MainPc.event : MainPc → Option (Barrier.Event Slot)
  | .reset => some .release
  | .post i => some (.post i)
  | _ => none

/-- The barrier event of a step. -/
def event : Label → Option (Barrier.Event Slot)
  | .exec .main l _ => MainPc.event l
  | .exec t l _ =>
    match phase t l with
    | .atCount => (slotOf t).map .count
    | .atWait => (slotOf t).map .take
    | _ => none
  | _ => none

/-- The handler of alarms is at the last code it knows. -/
def lastCode : (t : Tid) → Loc t → Bool
  | .sigHandlerManual, .testCode .c104 => true
  | _, _ => false

def Unknown (g : Shared) (t : Tid) (l : Loc t) : Prop := lastCode t l = true ∧ g.alarma ≠ 104

instance (g : Shared) (t : Tid) (l : Loc t) : Decidable (Unknown g t l) :=
  inferInstanceAs (Decidable (_ ∧ _))

section Calls
variable {L : Type} {f : L → Phase} {k l : L} {g : Shared} {ok : Bool}

theorem sendLoop_phase (numsec : ℕ) : Phase.next .work (sendLoop numsec).phase = true := by
  obtain h | h := sendLoop_cases numsec <;> rw [h] <;> rfl

theorem sendMesg_phase {m : Msg} {pc : SendPc → L} (hpc : ∀ q, f (pc q) = q.phase)
    (hk : Phase.next .counted (f k) = true) (p : SendPc) :
    p.phase.next (f ((sendMesg m pc k p).dest l g ok)) = true := by
  cases p with
  | sendto numsec =>
    simp only [sendMesg, Op.dest]
    split
    · rw [hpc]
      rfl
    · split
      · rw [hpc]
        rfl
      · rw [hpc]
        exact sendLoop_phase _
  | sleep numsec =>
    simp only [sendMesg, Op.dest]
    rw [hpc]
    exact sendLoop_phase _
  | unlockSock => exact hk
  | _ =>
    simp only [sendMesg, Op.dest]
    rw [hpc]
    rfl

theorem changeAction_phase {e : Event} {pc : ChangePc → L} (hpc : ∀ p, f (pc p) = .work)
    (hk : f k = .work) (p : ChangePc) : f ((changeAction e pc k p).dest l g ok) = .work := by
  cases p with
  | unlock => exact hk
  | _ => exact hpc _

theorem createSignalsGyros_phase {all : Bool} {pc : CreatePc → L} (hpc : ∀ p, f (pc p) = .work)
    (hk : f k = .work) (p : CreatePc) :
    f ((createSignalsGyros all pc k p).dest l g ok) = .work := by
  cases p with
  | storeThread i t =>
    simp only [createSignalsGyros, Op.dest]
    split
    · exact hpc _
    · exact hk
  | _ => exact hpc _

theorem managePrincipalEngine_phase {pc : ManagePc → L} (hpc : ∀ p, f (pc p) = .work)
    (hk : f k = .work) (p : ManagePc) :
    f ((managePrincipalEngine pc k p).dest l g ok) = .work := by
  cases p with
  | on => exact hk
  | _ => exact hpc _

end Calls

theorem signalGyro_phase (i : Gyro) (l : SignalGyroPc) (g : Shared) (ok : Bool) :
    l.phase.next ((signalGyro i l).dest l g ok).phase = true := by
  cases l with
  | send m p => exact sendMesg_phase (f := SignalGyroPc.phase) (fun _ => rfl) rfl p
  | head | check =>
    simp only [signalGyro, Op.dest]
    split <;> rfl
  | _ => rfl

theorem pricipalEngineThread_phase (l : EnginePc) (g : Shared) (ok : Bool) :
    l.phase.next ((pricipalEngineThread l).dest l g ok).phase = true := by
  cases l with
  | send m p => exact sendMesg_phase (f := EnginePc.phase) (fun _ => rfl) rfl p
  | lockGs i | unlockGs i p => obtain rfl | rfl := gyro_cases i <;> rfl
  | head | mode =>
    simp only [pricipalEngineThread, Op.dest]
    split <;> rfl
  | state i =>
    simp only [pricipalEngineThread, Op.dest]
    split
    · rfl
    · split <;> rfl
  | _ => rfl

theorem signalRestartLanding_phase (l : RestartPc) (g : Shared) (ok : Bool) :
    l.phase.next ((signalRestartLanding l).dest l g ok).phase = true := by
  cases l with
  | send m p => exact sendMesg_phase (f := RestartPc.phase) (fun _ => rfl) rfl p
  | change p =>
    have : ((signalRestartLanding (.change p)).dest (.change p) g ok).phase = .work :=
      changeAction_phase (f := RestartPc.phase) (fun _ => rfl) rfl p
    rw [this]
    rfl
  | cancelGyro i => obtain rfl | rfl := gyro_cases i <;> rfl
  | lockGs i | unlockGs i climb => obtain rfl | rfl := gyro_cases i <;> rfl
  | testGyro i =>
    simp only [signalRestartLanding, Op.dest]
    split
    · rfl
    · split <;> rfl
  | unlockAction climb | unlockDist climb => cases climb <;> rfl
  | head | testAction | testEngine =>
    simp only [signalRestartLanding, Op.dest]
    split <;> rfl
  | _ => rfl

theorem signalExploteRocket_phase (l : ExplotePc) (g : Shared) (ok : Bool) :
    l.phase.next ((signalExploteRocket l).dest l g ok).phase = true := by
  cases l with
  | send m p => exact sendMesg_phase (f := ExplotePc.phase) (fun _ => rfl) rfl p
  | abort p => exact sendMesg_phase (f := ExplotePc.phase) (fun _ => rfl) rfl p
  | unlockGas low => cases low <;> rfl
  | head =>
    simp only [signalExploteRocket, Op.dest]
    split <;> rfl
  | _ => rfl

theorem signalLandingCheck_phase (l : LandingPc) (g : Shared) (ok : Bool) :
    l.phase.next ((signalLandingCheck l).dest l g ok).phase = true := by
  cases l with
  | send m p => exact sendMesg_phase (f := LandingPc.phase) (fun _ => rfl) rfl p
  | report d p => exact sendMesg_phase (f := LandingPc.phase) (fun _ => rfl) rfl p
  | change d p =>
    have : ((signalLandingCheck (.change d p)).dest (.change d p) g ok).phase = .work :=
      changeAction_phase (f := LandingPc.phase) (fun _ => rfl) rfl p
    rw [this]
    rfl
  | lockGs i d | unlockTouch i d | unlockGs i d act | cancelGyro i d =>
    obtain rfl | rfl := gyro_cases i <;> rfl
  | testDown i d =>
    simp only [signalLandingCheck, Op.dest]
    split
    · split <;> rfl
    · rfl
  | testLow i d =>
    simp only [signalLandingCheck, Op.dest]
    split
    · split
      · rfl
      · split <;> rfl
    · rfl
  | head =>
    simp only [signalLandingCheck, Op.dest]
    split <;> rfl
  | _ => rfl

theorem sigHandlerManual_phase (l : ManualPc) (g : Shared) (ok : Bool)
    (h : ¬ Unknown g .sigHandlerManual l) :
    l.phase.next ((sigHandlerManual l).dest l g ok).phase = true := by
  cases l with
  | send p => exact sendMesg_phase (f := ManualPc.phase) (fun _ => rfl) rfl p
  | alarm a p =>
    exact sendMesg_phase (f := ManualPc.phase) (fun _ => rfl) (by split <;> rfl) p
  | manage a p =>
    have : ((sigHandlerManual (.manage a p)).dest (.manage a p) g ok).phase = .work :=
      managePrincipalEngine_phase (f := ManualPc.phase) (fun _ => rfl) (by split <;> rfl) p
    rw [this]
    rfl
  | create a p =>
    have : ((sigHandlerManual (.create a p)).dest (.create a p) g ok).phase = .work :=
      createSignalsGyros_phase (f := ManualPc.phase) (fun _ => rfl) rfl p
    rw [this]
    rfl
  | cancelGyro a i => obtain rfl | rfl := gyro_cases i <;> rfl
  | testCode a =>
    simp only [sigHandlerManual, Op.dest]
    split
    · cases a <;> rfl
    · rename_i hne
      cases a with
      | c104 => exact absurd ⟨rfl, hne⟩ h
      | _ => rfl
  | head | test =>
    simp only [sigHandlerManual, Op.dest]
    split <;> rfl
  | _ => rfl

/-- Rounds go through the phases in order, but for an alarm of unknown code. -/
theorem phase_dest (t : Tid) (l : Loc t) (g : Shared) (ok : Bool) (h : ¬ Unknown g t l) :
    (phase t l).next (phase t ((code t l).dest l g ok)) = true := by
  cases t with
  | main => rfl
  | signalGyro i => exact signalGyro_phase i l g ok
  | gyroscopeThread i n => rfl
  | pricipalEngineThread n => exact pricipalEngineThread_phase l g ok
  | signalRestartLanding => exact signalRestartLanding_phase l g ok
  | goUp30m => rfl
  | signalExploteRocket => exact signalExploteRocket_phase l g ok
  | signalLandingCheck => exact signalLandingCheck_phase l g ok
  | sigHandlerManual => exact sigHandlerManual_phase l g ok h

theorem unknown_thread {g : Shared} {t : Tid} {l : Loc t} (h : Unknown g t l) :
    t = .sigHandlerManual ∧ phase t l = .work ∧ (∀ ok, phase t ((code t l).dest l g ok) = .counted) ∧
      (code t l).interruptible = false := by
  obtain ⟨hl, hg⟩ := h
  unfold lastCode at hl
  split at hl
  · refine ⟨rfl, rfl, fun ok => ?_, rfl⟩
    simp [code, sigHandlerManual, Op.dest, Alarm.code, Alarm.next, hg, phase, ManualPc.phase]
  · cases hl

/-! ## Tokens and the counter -/

theorem sendMesg_quiet {L : Type} {m : Msg} {pc : SendPc → L} {k : L} {i : Slot} (p : SendPc) :
    (sendMesg m pc k p).Quiet (.msg i) := by
  cases p <;> first | trivial | exact nofun

theorem createSignalsGyros_quiet {L : Type} {all : Bool} {pc : CreatePc → L} {k : L} {i : Slot}
    (p : CreatePc) : (createSignalsGyros all pc k p).Quiet (.msg i) := by
  cases p <;> first | trivial | exact nofun

/-- A token is taken only at the wait of its own slot. -/
theorem quiet_msg {t : Tid} (ht : t ≠ .main) (l : Loc t) {i : Slot}
    (h : ¬ (phase t l = .atWait ∧ slotOf t = some i)) : (code t l).Quiet (.msg i) := by
  cases t with
  | main => exact absurd rfl ht
  | signalGyro j =>
    cases l with
    | send m p => exact sendMesg_quiet p
    | waitMsg =>
      intro he
      exact h ⟨rfl, by cases he; rfl⟩
    | _ => first | trivial | exact nofun
  | gyroscopeThread j n => cases l <;> first | trivial | exact nofun
  | pricipalEngineThread n =>
    cases l with
    | send m p => exact sendMesg_quiet p
    | waitMsg =>
      intro he
      exact h ⟨rfl, by cases he; rfl⟩
    | _ => first | trivial | exact nofun
  | signalRestartLanding =>
    cases l with
    | send m p => exact sendMesg_quiet p
    | change p => cases p <;> first | trivial | exact nofun
    | waitMsg =>
      intro he
      exact h ⟨rfl, by cases he; rfl⟩
    | _ => first | trivial | exact nofun
  | goUp30m =>
    cases l with
    | create p => exact createSignalsGyros_quiet p
    | change p => cases p <;> first | trivial | exact nofun
    | _ => first | trivial | exact nofun
  | signalExploteRocket =>
    cases l with
    | send m p => exact sendMesg_quiet p
    | abort p => exact sendMesg_quiet p
    | waitMsg | waitAbort =>
      intro he
      exact h ⟨rfl, by cases he; rfl⟩
    | _ => first | trivial | exact nofun
  | signalLandingCheck =>
    cases l with
    | send m p => exact sendMesg_quiet p
    | report d p => exact sendMesg_quiet p
    | change d p => cases p <;> first | trivial | exact nofun
    | waitMsg =>
      intro he
      exact h ⟨rfl, by cases he; rfl⟩
    | _ => first | trivial | exact nofun
  | sigHandlerManual =>
    cases l with
    | send p => exact sendMesg_quiet p
    | alarm a p => exact sendMesg_quiet p
    | manage a p => cases p <;> trivial
    | create a p => exact createSignalsGyros_quiet p
    | waitMsg =>
      intro he
      exact h ⟨rfl, by cases he; rfl⟩
    | _ => trivial

theorem sendPc_phase_ne (p : SendPc) : p.phase ≠ .atWait := by
  cases p <;> nofun

theorem atWait_op {t : Tid} {l : Loc t} {i : Slot} (h : phase t l = .atWait)
    (hi : slotOf t = some i) : ∃ k, code t l = .wait (.msg i) k := by
  cases t with
  | main | gyroscopeThread | goUp30m => cases h
  | signalGyro j =>
    cases l with
    | send m p => exact absurd h (sendPc_phase_ne p)
    | waitMsg => cases hi; exact ⟨_, rfl⟩
    | _ => cases h
  | pricipalEngineThread n =>
    cases l with
    | send m p => exact absurd h (sendPc_phase_ne p)
    | waitMsg => cases hi; exact ⟨_, rfl⟩
    | _ => cases h
  | signalRestartLanding =>
    cases l with
    | send m p => exact absurd h (sendPc_phase_ne p)
    | waitMsg => cases hi; exact ⟨_, rfl⟩
    | _ => cases h
  | signalExploteRocket =>
    cases l with
    | send m p => exact absurd h (sendPc_phase_ne p)
    | abort p => exact absurd h (sendPc_phase_ne p)
    | waitMsg | waitAbort => cases hi; exact ⟨_, rfl⟩
    | _ => cases h
  | signalLandingCheck =>
    cases l with
    | send m p => exact absurd h (sendPc_phase_ne p)
    | report d p => exact absurd h (sendPc_phase_ne p)
    | waitMsg => cases hi; exact ⟨_, rfl⟩
    | _ => cases h
  | sigHandlerManual =>
    cases l with
    | send p => exact absurd h (sendPc_phase_ne p)
    | alarm a p => exact absurd h (sendPc_phase_ne p)
    | waitMsg => cases hi; exact ⟨_, rfl⟩
    | _ => cases h

theorem sendMesg_atCount {L : Type} {m : Msg} {pc : SendPc → L} {k : L} {p : SendPc}
    (h : p.phase = .atCount) (g : Shared) :
    (sendMesg m pc k p).glob g = { g with msgRead := g.msgRead + 1 } ∧ .read ∈ p.holds := by
  cases p with
  | count => exact ⟨rfl, by simp [SendPc.holds]⟩
  | _ => cases h

theorem atCount_op {t : Tid} {l : Loc t} (h : phase t l = .atCount) (g : Shared) :
    (code t l).glob g = { g with msgRead := g.msgRead + 1 } ∧ .read ∈ holds t l := by
  cases t with
  | main | gyroscopeThread | goUp30m => cases h
  | signalGyro j | pricipalEngineThread n | signalRestartLanding =>
    cases l with
    | send m p => exact sendMesg_atCount h g
    | _ => cases h
  | signalExploteRocket =>
    cases l with
    | send m p => exact sendMesg_atCount h g
    | abort p => exact sendMesg_atCount h g
    | _ => cases h
  | signalLandingCheck =>
    cases l with
    | send m p => exact sendMesg_atCount h g
    | report d p => exact sendMesg_atCount h g
    | _ => cases h
  | sigHandlerManual =>
    cases l with
    | send p => exact sendMesg_atCount h g
    | alarm a p => exact sendMesg_atCount h g
    | _ => cases h

theorem phase_atCount {t : Tid} {l : Loc t} (h : atCount t l = true) : phase t l = .atCount := by
  unfold atCount at h
  split at h <;> first | rfl | cases h

theorem msgRead_other {t : Tid} (ht : t ≠ .main) {l : Loc t} (h : phase t l ≠ .atCount)
    (g : Shared) : ((code t l).glob g).msgRead = g.msgRead := by
  have hw := code_writes t l g
  generalize (code t l).glob g = g' at hw
  cases hw with
  | count hc => exact absurd (phase_atCount hc) h
  | reset => exact absurd rfl ht
  | descend =>
    unfold descend
    split <;> rfl
  | _ => rfl

theorem slotOf_some {t : Tid} {l : Loc t} (h : phase t l ≠ .gone) : ∃ i, slotOf t = some i := by
  cases t with
  | main | gyroscopeThread | goUp30m => exact absurd rfl h
  | _ => exact ⟨_, rfl⟩

/-! ## The releases of `main` -/

/-- The token of a slot is still to be posted in the current release. -/
def MainPc.due : MainPc → Slot → Bool
  | .post j, i => j ≤ i
  | _, _ => false

/-- `terminte_program` has not started. -/
def MainPc.plain : MainPc → Bool
  | .handler _ _ => false
  | _ => true

theorem main_plain {l : MainPc} (h : l.plain = true) (g : Shared) (ok : Bool) :
    ((main l).dest l g ok).plain = true := by
  cases l with
  | handler => cases h
  | createGyros p =>
    cases p with
    | storeThread i t => obtain rfl | rfl := gyro_cases i <;> rfl
    | _ => rfl
  | head | test | post i =>
    simp only [main, Op.dest]
    split <;> rfl
  | _ => rfl

theorem main_quiet {l : MainPc} (hp : l.plain = true) (h : l.event = none) (i : Slot) :
    (main l).Quiet (.msg i) := by
  cases l with
  | handler => cases hp
  | reset | post => cases h
  | createGyros p => exact createSignalsGyros_quiet p
  | _ => first | trivial | exact nofun

theorem main_msgRead {l : MainPc} (h : l.event = none) (g : Shared) :
    ((main l).glob g).msgRead = g.msgRead := by
  cases l with
  | reset | post => cases h
  | createGyros p => cases p <;> rfl
  | handler saved p => cases p <;> rfl
  | _ => rfl

/-- The step before a release is the test of the counter. -/
theorem main_due {l : MainPc} (h : l.event = none) (g : Shared) (ok : Bool) (i : Slot) :
    ((main l).dest l g ok).due i = l.due i := by
  cases l with
  | reset | post => cases h
  | createGyros p =>
    cases p with
    | storeThread i t => obtain rfl | rfl := gyro_cases i <;> rfl
    | _ => rfl
  | handler saved p =>
    cases p with
    | exit => rfl
    | _ =>
      simp only [main, terminteProgram, Op.dest]
      split <;> rfl
  | head | test =>
    simp only [main, Op.dest]
    split <;> rfl
  | _ => rfl

theorem main_due_post (j i : Slot) (g : Shared) (ok : Bool) :
    ((main (.post j)).dest (.post j) g ok).due i = decide (j < i) := by
  revert i j
  simp only [main, Op.dest]
  decide

theorem main_reset {l : MainPc} {g : Shared} {ok : Bool} (h : (main l).dest l g ok = .reset) :
    l = .test ∧ g.msgRead = 7 := by
  cases l with
  | createGyros p =>
    cases p with
    | storeThread i t => obtain rfl | rfl := gyro_cases i <;> cases h
    | _ => cases h
  | handler saved p =>
    cases p with
    | exit => cases h
    | _ =>
      simp only [main, terminteProgram, Op.dest] at h
      split at h <;> cases h
  | test =>
    refine ⟨rfl, ?_⟩
    simp only [main, Op.dest] at h
    split at h
    · assumption
    · cases h
  | head | post i =>
    simp only [main, Op.dest] at h
    split at h <;> cases h
  | _ => cases h

end Sistema
