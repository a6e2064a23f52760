import SistemasOperativos.Sistema.Schedules
import SistemasOperativos.Sistema.Ticks
import SistemasOperativos.Threads.Rank

/-!
# After the landing

Nobody sets `is_on` again. Each routine goes on to its next loop test and no further, so
that a thread has only a bounded number of steps left, and one message to send; the check
of the fuel has two.
-/
namespace Sistema

open Threads Threads.Program

variable {s s' : State} {a : Label} {t : Tid} {tr tr' : List Label} {inp : Input} {ok : Bool}
variable {C D : State → Label → Prop}

/-! ## Steps that are left with `is_on` at zero -/

/-- A try and its pause, for what is left of the doubling. -/
def SendPc.rank : SendPc → ℕ
  | .lock => 80
  | .sendto numsec => 2 * (33 - numsec) + 6
  | .sleep numsec => 2 * (33 - numsec) + 5
  | .lockRead => 4
  | .count => 3
  | .unlockRead => 2
  | .unlockSock => 1

def ChangePc.rank : ChangePc → ℕ
  | .lock => 3
  | .assign => 2
  | .unlock => 1

/-- What comes for the second gyroscope after the first. -/
def CreatePc.rank : CreatePc → ℕ
  | .copySem i => 6 + 6 * (1 - i.val)
  | .clearState i => 5 + 6 * (1 - i.val)
  | .createSignal i => 4 + 6 * (1 - i.val)
  | .storeSignal i _ => 3 + 6 * (1 - i.val)
  | .createThread i => 2 + 6 * (1 - i.val)
  | .storeThread i _ => 1 + 6 * (1 - i.val)

def ManagePc.rank : ManagePc → ℕ
  | .cancel => 6
  | .off => 5
  | .clear => 4
  | .create => 3
  | .store _ => 2
  | .on => 1

def TerminatePc.rank : TerminatePc → ℕ
  | .cancelThread i => 14 + (5 - i.val)
  | .postMsg i => 7 + (7 - i.val)
  | .cancelSignal i => 1 + (6 - i.val)
  | .exit => 1

def MainPc.rank : MainPc → ℕ
  | .createGyros p => 45 + p.rank
  | .clearPe => 45
  | .createPe => 44
  | .storePe _ => 43
  | .createRest => 42
  | .storeRest _ => 41
  | .createGoUp => 40
  | .storeGoUp _ => 39
  | .createExplo => 38
  | .storeExplo _ => 37
  | .createLand => 36
  | .storeLand _ => 35
  | .createManual => 34
  | .storeManual _ => 33
  | .lockRead => 32
  | .test => 31
  | .reset => 30
  | .post i => 22 + (7 - i.val)
  | .unlockRead => 22
  | .head => 21
  | .exit => 20
  | .handler _ p => p.rank

def SignalGyroPc.rank : SignalGyroPc → ℕ
  | .testcancel => 92
  | .lockAction => 91
  | .lockGyro => 90
  | .check => 89
  | .wake => 88
  | .unlockAction _ => 87
  | .space _ => 86
  | .format _ _ => 85
  | .unlockGyro _ => 84
  | .send _ p => 3 + p.rank
  | .waitMsg | .copySem => 3
  | .head => 2
  | .finished => 1

def GyroscopePc.rank : GyroscopePc → ℕ
  | .testcancel => 14
  | .lockGyro => 13
  | .test => 12
  | .setOn => 11
  | .lockGas => 10
  | .burn => 9
  | .unlockGas => 8
  | .sign => 7
  | .load _ | .setOff => 6
  | .store _ | .unlockOff | .copySem => 5
  | .unlockOn | .callPause | .callFirst => 4
  | .sleep | .pause | .firstPause => 3
  | .head => 2
  | .finished => 1

def EnginePc.rank : EnginePc → ℕ
  | .testcancel => 103
  | .sleep => 102
  | .lockDist => 101
  | .lockAction => 100
  | .descend => 99
  | .lockGs i => 97 + (1 - i.val)
  | .lockGas => 96
  | .mode => 95
  | .state i => 93 + (1 - i.val)
  | .burn _ => 92
  | .unlockGas _ => 91
  | .unlockGs i _ => 89 + (1 - i.val)
  | .unlockAction _ => 88
  | .unlockDist _ => 87
  | .motor _ => 86
  | .space _ _ => 85
  | .format _ _ _ => 84
  | .send _ p => 3 + p.rank
  | .waitMsg => 3
  | .head => 2
  | .finished => 1

def GoUpPc.rank : GoUpPc → ℕ
  | .testcancel _ => 24
  | .sleep _ => 23
  | .lockDist _ => 22
  | .test _ => 21
  | .unlockTop => 20
  | .create p => 7 + p.rank
  | .change p => 4 + p.rank
  | .callPause | .callFirst => 4
  | .unlockClimb _ | .pause | .firstPause => 3
  | .head _ => 2
  | .finished => 1

def RestartPc.rank : RestartPc → ℕ
  | .testcancel => 104
  | .lockDist => 103
  | .lockAction => 102
  | .lockGs i => 100 + (1 - i.val)
  | .testAction => 99
  | .testGyro i => 97 + (1 - i.val)
  | .unlockAction _ => 96
  | .change p => 92 + p.rank
  | .unlockGs i _ => 91 + (1 - i.val)
  | .unlockDist _ => 90
  | .cancelGyro i => 88 + (1 - i.val)
  | .testEngine => 87
  | .startEngine => 86
  | .contEngine => 85
  | .contGoUp => 84
  | .send _ p => 3 + p.rank
  | .waitMsg => 3
  | .head => 2
  | .finished => 1

def ExplotePc.rank : ExplotePc → ℕ
  | .testcancel => 174
  | .lockGas => 173
  | .testGas => 172
  | .unlockGas _ => 171
  | .clearManual => 170
  | .abort p => 89 + p.rank
  | .waitAbort => 89
  | .sleep => 88
  | .kill => 87
  | .lockAction => 86
  | .testAction => 85
  | .unlockAction _ => 84
  | .send _ p => 3 + p.rank
  | .waitMsg => 3
  | .head => 2
  | .finished => 1

def LandingPc.rank : LandingPc → ℕ
  | .testcancel => 103
  | .lockDist => 102
  | .readDist => 101
  | .unlockDist _ => 100
  | .lockGs i _ => 98 + (1 - i.val)
  | .testDown i _ => 96 + (1 - i.val)
  | .testLow i _ => 94 + (1 - i.val)
  | .change _ p => 90 + p.rank
  | .cancelGyro i _ => 89 + (1 - i.val)
  | .engineOff _ => 88
  | .unlockGs i _ _ => 86 + (1 - i.val)
  | .send _ p => 5 + p.rank
  | .waitMsg => 5
  | .head => 4
  | .touch _ => 86
  | .unlockTouch i _ => 84 + (1 - i.val)
  | .report _ p => 3 + p.rank
  | .sleep => 3
  | .kill => 2
  | .finished => 1

/-- The comparisons from a code on. -/
def Alarm.rank : Alarm → ℕ
  | c101 => 3
  | c102 => 2
  | c103 => 1
  | c104 => 0

def ManualPc.rank : ManualPc → ℕ
  | .testcancel => 113
  | .test => 112
  | .testCode a => 108 + a.rank
  | .manage _ p => 101 + p.rank
  | .cancelGyro _ i => 100 + (1 - i.val)
  | .create _ p => 87 + p.rank
  | .alarm _ p => 7 + p.rank
  | .sleep => 7
  | .kill => 6
  | .reset => 5
  | .reread => 4
  | .send p => 3 + p.rank
  | .waitMsg => 3
  | .head => 2
  | .finished => 1

def rank : (t : Tid) → Loc t → ℕ
  | .main => MainPc.rank
  | .signalGyro _ => SignalGyroPc.rank
  | .gyroscopeThread _ _ => GyroscopePc.rank
  | .pricipalEngineThread _ => EnginePc.rank
  | .signalRestartLanding => RestartPc.rank
  | .goUp30m => GoUpPc.rank
  | .signalExploteRocket => ExplotePc.rank
  | .signalLandingCheck => LandingPc.rank
  | .sigHandlerManual => ManualPc.rank

/-! ## Each call and each routine -/

/-- The seconds between two tries are positive. -/
def Doubling (p : SendPc) : Prop := ∀ numsec, p = .sendto numsec ∨ p = .sleep numsec → 0 < numsec

section Calls
variable {L : Type} {f : L → ℕ} {k l : L} {g : Shared}

theorem sendLoop_rank {numsec : ℕ} (h : 0 < numsec) :
    (sendLoop (numsec * 2)).rank < (SendPc.sleep numsec).rank := by
  unfold sendLoop maxtry
  split <;> simp only [SendPc.rank] <;> omega

theorem sendMesg_rank {m : Msg} {pc : SendPc → L} {b : ℕ} (hpc : ∀ p, f (pc p) = b + p.rank)
    (hk : f k ≤ b) {p : SendPc} (hp : Doubling p) : f ((sendMesg m pc k p).dest l g ok) < b + p.rank := by
  cases p with
  | sendto numsec =>
    have hloop := sendLoop_rank (hp numsec (.inl rfl))
    simp only [sendMesg, Op.dest]
    split
    · rw [hpc]
      simp only [SendPc.rank]
      omega
    · split <;> rw [hpc] <;> simp only [SendPc.rank] at hloop ⊢ <;> omega
  | sleep numsec =>
    have hloop := sendLoop_rank (hp numsec (.inr rfl))
    simpa only [sendMesg, Op.dest, hpc, Nat.add_lt_add_iff_left] using hloop
  | unlockSock => exact Nat.lt_succ_of_le hk
  | _ => simp [sendMesg, Op.dest, hpc, SendPc.rank]

theorem changeAction_rank {e : Event} {pc : ChangePc → L} {b : ℕ}
    (hpc : ∀ p, f (pc p) = b + p.rank) (hk : f k ≤ b) (p : ChangePc) :
    f ((changeAction e pc k p).dest l g ok) < b + p.rank := by
  cases p with
  | unlock => exact Nat.lt_succ_of_le hk
  | _ => simp [changeAction, Op.dest, hpc, ChangePc.rank]

theorem createSignalsGyros_rank {all : Bool} {pc : CreatePc → L} {b : ℕ}
    (hpc : ∀ p, f (pc p) = b + p.rank) (hk : f k ≤ b) (p : CreatePc) :
    f ((createSignalsGyros all pc k p).dest l g ok) < b + p.rank := by
  cases p with
  | clearState i => cases all <;> simp [createSignalsGyros, Op.dest, hpc, CreatePc.rank]
  | storeThread i u =>
    obtain rfl | rfl := gyro_cases i
    · simp [createSignalsGyros, Op.dest, after, hpc, CreatePc.rank]
    · exact Nat.lt_succ_of_le hk
  | _ => simp [createSignalsGyros, Op.dest, hpc, CreatePc.rank]

theorem managePrincipalEngine_rank {pc : ManagePc → L} {b : ℕ}
    (hpc : ∀ p, f (pc p) = b + p.rank) (hk : f k ≤ b) (p : ManagePc) :
    f ((managePrincipalEngine pc k p).dest l g ok) < b + p.rank := by
  cases p with
  | on => exact Nat.lt_succ_of_le hk
  | _ => simp [managePrincipalEngine, Op.dest, hpc, ManagePc.rank]

theorem terminateEvent1_rank {pc : Gyro → L} {b : ℕ} (hpc : ∀ i, f (pc i) = b + (1 - i.val))
    (hk : f k < b) (i : Gyro) : f ((terminateEvent1 pc k i).dest l g ok) < b + (1 - i.val) := by
  obtain rfl | rfl := gyro_cases i
  · simp [terminateEvent1, Op.dest, after, hpc]
  · simpa [terminateEvent1, Op.dest, after] using hk

theorem terminteProgram_rank {pc : TerminatePc → L} (hpc : ∀ p, f (pc p) = p.rank) {p : TerminatePc}
    (hp : p ≠ .exit) : f ((terminteProgram pc p).dest l g ok) < p.rank := by
  cases p with
  | exit => exact absurd rfl hp
  | cancelThread i | postMsg i | cancelSignal i =>
    simp only [terminteProgram, Op.dest]
    unfold after
    split <;> rename_i hi <;> split at hi <;> cases hi <;>
      simp only [hpc, TerminatePc.rank, Fin.val_zero] <;> omega

end Calls

section Routines
variable {g : Shared}

theorem main_rank {l : MainPc} (hg : g.isOn = false) (he : l ≠ .exit)
    (hh : ∀ saved, l ≠ .handler saved .exit) : ((main l).dest l g ok).rank < l.rank := by
  cases l with
  | createGyros p => exact createSignalsGyros_rank (f := MainPc.rank) (fun _ => rfl) (by decide) p
  | head => simp [main, Op.dest, hg, MainPc.rank]
  | test =>
    simp only [main, Op.dest]
    split <;> simp [MainPc.rank]
  | post i =>
    simp only [main, Op.dest]
    unfold after
    split <;> rename_i hi <;> split at hi <;> cases hi <;> simp only [MainPc.rank] <;> omega
  | handler saved p =>
    refine terminteProgram_rank (f := MainPc.rank) (fun _ => rfl) ?_
    rintro rfl
    exact hh saved rfl
  | exit => exact absurd rfl he
  | _ => simp [main, Op.dest, MainPc.rank]

theorem signalGyro_rank {i : Gyro} {l : SignalGyroPc} (hg : g.isOn = false)
    (hp : ∀ p, inSend (.signalGyro i) l = some p → Doubling p) (he : l ≠ .finished) :
    ((signalGyro i l).dest l g ok).rank < l.rank := by
  cases l with
  | send m p => exact sendMesg_rank (f := SignalGyroPc.rank) (fun _ => rfl) (by decide) (hp p rfl)
  | head => simp [signalGyro, Op.dest, hg, SignalGyroPc.rank]
  | check =>
    simp only [signalGyro, Op.dest]
    split <;> simp [SignalGyroPc.rank]
  | finished => exact absurd rfl he
  | _ => simp [signalGyro, Op.dest, SignalGyroPc.rank, SendPc.rank]

theorem gyroscopeThread_rank {i : Gyro} {n : ℕ} {l : GyroscopePc} (hg : g.isOn = false)
    (he : l ≠ .finished) : ((gyroscopeThread i n l).dest l g ok).rank < l.rank := by
  cases l with
  | head => simp [gyroscopeThread, Op.dest, hg, GyroscopePc.rank]
  | test =>
    simp only [gyroscopeThread, Op.dest]
    split <;> simp [GyroscopePc.rank]
  | finished => exact absurd rfl he
  | _ => simp [gyroscopeThread, Op.dest, GyroscopePc.rank]

theorem pricipalEngineThread_rank {n : ℕ} {l : EnginePc} (hg : g.isOn = false)
    (hp : ∀ p, inSend (.pricipalEngineThread n) l = some p → Doubling p) (he : l ≠ .finished) :
    ((pricipalEngineThread l).dest l g ok).rank < l.rank := by
  cases l with
  | send m p => exact sendMesg_rank (f := EnginePc.rank) (fun _ => rfl) (by decide) (hp p rfl)
  | head => simp [pricipalEngineThread, Op.dest, hg, EnginePc.rank]
  | lockGs i | unlockGs i p =>
    obtain rfl | rfl := gyro_cases i <;> simp [pricipalEngineThread, Op.dest, EnginePc.rank]
  | mode =>
    simp only [pricipalEngineThread, Op.dest]
    split <;> simp [EnginePc.rank]
  | state i =>
    simp only [pricipalEngineThread, Op.dest]
    split
    · simp only [EnginePc.rank]
      omega
    · obtain rfl | rfl := gyro_cases i <;> simp [EnginePc.rank]
  | finished => exact absurd rfl he
  | _ => simp [pricipalEngineThread, Op.dest, EnginePc.rank, SendPc.rank]

theorem goUp30m_rank {l : GoUpPc} (hg : g.isOn = false) (he : l ≠ .finished) :
    ((goUp30m l).dest l g ok).rank < l.rank := by
  cases l with
  | create p => exact createSignalsGyros_rank (f := GoUpPc.rank) (fun _ => rfl) (by decide) p
  | change p => exact changeAction_rank (f := GoUpPc.rank) (fun _ => rfl) (by decide) p
  | head time => simp [goUp30m, Op.dest, hg, GoUpPc.rank]
  | test time =>
    simp only [goUp30m, Op.dest]
    split <;> simp [GoUpPc.rank]
  | finished => exact absurd rfl he
  | _ => simp [goUp30m, Op.dest, GoUpPc.rank, CreatePc.rank]

theorem signalRestartLanding_rank {l : RestartPc} (hg : g.isOn = false)
    (hp : ∀ p, inSend .signalRestartLanding l = some p → Doubling p) (he : l ≠ .finished) :
    ((signalRestartLanding l).dest l g ok).rank < l.rank := by
  cases l with
  | send m p => exact sendMesg_rank (f := RestartPc.rank) (fun _ => rfl) (by decide) (hp p rfl)
  | change p => exact changeAction_rank (f := RestartPc.rank) (fun _ => rfl) (by decide) p
  | cancelGyro i => exact terminateEvent1_rank (f := RestartPc.rank) (fun _ => rfl) (by decide) i
  | head => simp [signalRestartLanding, Op.dest, hg, RestartPc.rank]
  | lockGs i | unlockGs i climb =>
    obtain rfl | rfl := gyro_cases i <;> simp [signalRestartLanding, Op.dest, RestartPc.rank]
  | testAction | testEngine =>
    simp only [signalRestartLanding, Op.dest]
    split <;> simp [RestartPc.rank]
  | testGyro i =>
    simp only [signalRestartLanding, Op.dest]
    split
    · simp only [RestartPc.rank]
      omega
    · obtain rfl | rfl := gyro_cases i <;> simp [RestartPc.rank]
  | unlockAction climb | unlockDist climb =>
    cases climb <;> simp [signalRestartLanding, Op.dest, RestartPc.rank, ChangePc.rank, SendPc.rank]
  | finished => exact absurd rfl he
  | _ => simp [signalRestartLanding, Op.dest, RestartPc.rank, SendPc.rank]

theorem signalExploteRocket_rank {l : ExplotePc} (hg : g.isOn = false)
    (hp : ∀ p, inSend .signalExploteRocket l = some p → Doubling p) (he : l ≠ .finished) :
    ((signalExploteRocket l).dest l g ok).rank < l.rank := by
  cases l with
  | send m p | abort p =>
    exact sendMesg_rank (f := ExplotePc.rank) (fun _ => rfl) (by decide) (hp p rfl)
  | head => simp [signalExploteRocket, Op.dest, hg, ExplotePc.rank]
  | unlockGas low => cases low <;> simp [signalExploteRocket, Op.dest, ExplotePc.rank]
  | finished => exact absurd rfl he
  | _ => simp [signalExploteRocket, Op.dest, ExplotePc.rank, SendPc.rank]

theorem signalLandingCheck_rank {l : LandingPc} (hg : g.isOn = false)
    (hp : ∀ p, inSend .signalLandingCheck l = some p → Doubling p) (he : l ≠ .finished) :
    ((signalLandingCheck l).dest l g ok).rank < l.rank := by
  cases l with
  | send m p | report d p =>
    exact sendMesg_rank (f := LandingPc.rank) (fun _ => rfl) (by decide) (hp p rfl)
  | change d p => exact changeAction_rank (f := LandingPc.rank) (fun _ => rfl) (Nat.le_refl 90) p
  | cancelGyro i d =>
    exact terminateEvent1_rank (f := LandingPc.rank) (fun _ => rfl) (by decide : 88 < 89) i
  | head => simp [signalLandingCheck, Op.dest, hg, LandingPc.rank]
  | lockGs i d | unlockGs i d act | unlockTouch i d =>
    obtain rfl | rfl := gyro_cases i <;>
      simp [signalLandingCheck, Op.dest, LandingPc.rank, SendPc.rank]
  | testDown i d =>
    simp only [signalLandingCheck, Op.dest]
    split
    · obtain rfl | rfl := gyro_cases i <;> simp [LandingPc.rank]
    · simp only [LandingPc.rank, Fin.val_zero]
      omega
  | testLow i d =>
    simp only [signalLandingCheck, Op.dest]
    obtain rfl | rfl := gyro_cases i <;> split <;> (try split) <;>
      simp [LandingPc.rank, ChangePc.rank]
  | finished => exact absurd rfl he
  | _ => simp [signalLandingCheck, Op.dest, LandingPc.rank]

theorem sigHandlerManual_rank {l : ManualPc} (hg : g.isOn = false)
    (hp : ∀ p, inSend .sigHandlerManual l = some p → Doubling p) (he : l ≠ .finished) :
    ((sigHandlerManual l).dest l g ok).rank < l.rank := by
  cases l with
  | send p => exact sendMesg_rank (f := ManualPc.rank) (fun _ => rfl) (by decide) (hp p rfl)
  | alarm a p =>
    refine sendMesg_rank (f := ManualPc.rank) (fun _ => rfl) ?_ (hp p rfl)
    split <;> decide
  | create a p => exact createSignalsGyros_rank (f := ManualPc.rank) (fun _ => rfl) (Nat.le_refl 87) p
  | manage a p =>
    refine managePrincipalEngine_rank (f := ManualPc.rank) (fun _ => rfl) ?_ p
    split
    · exact Nat.le_refl 101
    · exact (by decide : 87 ≤ 101)
  | cancelGyro a i =>
    exact terminateEvent1_rank (f := ManualPc.rank) (fun _ => rfl) (by decide : 99 < 100) i
  | head => simp [sigHandlerManual, Op.dest, hg, ManualPc.rank]
  | test =>
    simp only [sigHandlerManual, Op.dest]
    split <;> decide
  | testCode a =>
    simp only [sigHandlerManual, Op.dest]
    split <;> cases a <;> decide
  | finished => exact absurd rfl he
  | _ => simp [sigHandlerManual, Op.dest, ManualPc.rank]

end Routines

theorem rank_dest {l : Loc t} {g : Shared} (hg : g.isOn = false)
    (hp : ∀ p, inSend t l = some p → Doubling p) (hr : (code t l).isRet = false)
    (hx : (code t l).isExit = false) : rank t ((code t l).dest l g ok) < rank t l := by
  cases t with
  | main =>
    refine main_rank hg ?_ ?_
    · rintro rfl
      cases hx
    · rintro saved rfl
      cases hx
  | gyroscopeThread i n =>
    refine gyroscopeThread_rank hg ?_
    rintro rfl
    cases hr
  | goUp30m =>
    refine goUp30m_rank hg ?_
    rintro rfl
    cases hr
  | signalGyro i =>
    refine signalGyro_rank hg hp ?_
    rintro rfl
    cases hr
  | pricipalEngineThread n =>
    refine pricipalEngineThread_rank hg hp ?_
    rintro rfl
    cases hr
  | signalRestartLanding =>
    refine signalRestartLanding_rank hg hp ?_
    rintro rfl
    cases hr
  | signalExploteRocket =>
    refine signalExploteRocket_rank hg hp ?_
    rintro rfl
    cases hr
  | signalLandingCheck =>
    refine signalLandingCheck_rank hg hp ?_
    rintro rfl
    cases hr
  | sigHandlerManual =>
    refine sigHandlerManual_rank hg hp ?_
    rintro rfl
    cases hr

theorem SendPc.rank_le (p : SendPc) : p.rank ≤ 80 := by
  cases p <;> simp only [SendPc.rank] <;> omega

theorem ChangePc.rank_le (p : ChangePc) : p.rank ≤ 3 := by
  cases p <;> decide

theorem CreatePc.rank_le (p : CreatePc) : p.rank ≤ 12 := by
  cases p <;> simp only [CreatePc.rank] <;> omega

theorem ManagePc.rank_le (p : ManagePc) : p.rank ≤ 6 := by
  cases p <;> simp only [ManagePc.rank] <;> omega

theorem TerminatePc.rank_le (p : TerminatePc) : p.rank ≤ 19 := by
  cases p <;> simp only [TerminatePc.rank] <;> omega

theorem Alarm.rank_le (a : Alarm) : a.rank ≤ 3 := by
  cases a <;> decide

theorem rank_le (t : Tid) (l : Loc t) : rank t l ≤ 174 := by
  cases t with
  | main =>
    show MainPc.rank l ≤ 174
    cases l <;> grind [MainPc.rank, CreatePc.rank_le, TerminatePc.rank_le]
  | signalGyro =>
    show SignalGyroPc.rank l ≤ 174
    cases l <;> grind [SignalGyroPc.rank, SendPc.rank_le]
  | gyroscopeThread =>
    show GyroscopePc.rank l ≤ 174
    cases l <;> grind [GyroscopePc.rank]
  | pricipalEngineThread =>
    show EnginePc.rank l ≤ 174
    cases l <;> grind [EnginePc.rank, SendPc.rank_le]
  | goUp30m =>
    show GoUpPc.rank l ≤ 174
    cases l <;> grind [GoUpPc.rank, CreatePc.rank_le, ChangePc.rank_le]
  | signalRestartLanding =>
    show RestartPc.rank l ≤ 174
    cases l <;> grind [RestartPc.rank, SendPc.rank_le, ChangePc.rank_le]
  | signalExploteRocket =>
    show ExplotePc.rank l ≤ 174
    cases l <;> grind [ExplotePc.rank, SendPc.rank_le]
  | signalLandingCheck =>
    show LandingPc.rank l ≤ 174
    cases l <;> grind [LandingPc.rank, SendPc.rank_le, ChangePc.rank_le]
  | sigHandlerManual =>
    show ManualPc.rank l ≤ 174
    cases l <;> grind [ManualPc.rank, SendPc.rank_le, CreatePc.rank_le, ManagePc.rank_le,
      Alarm.rank_le]

/-! ## Messages that are left with `is_on` at zero -/

def SendPc.pending : SendPc → ℕ
  | .lock | .sendto _ | .sleep _ => 1
  | _ => 0

def SignalGyroPc.pending : SignalGyroPc → ℕ
  | .copySem | .head | .waitMsg | .finished => 0
  | .send _ p => p.pending
  | _ => 1

def EnginePc.pending : EnginePc → ℕ
  | .head | .waitMsg | .finished => 0
  | .send _ p => p.pending
  | _ => 1

def RestartPc.pending : RestartPc → ℕ
  | .head | .waitMsg | .finished => 0
  | .send _ p => p.pending
  | _ => 1

/-- An abort comes before the message of the second test. -/
def ExplotePc.pending : ExplotePc → ℕ
  | .head | .waitMsg | .finished => 0
  | .send _ p => p.pending
  | .abort p => p.pending + 1
  | .waitAbort | .sleep | .kill | .lockAction | .testAction | .unlockAction _ => 1
  | _ => 2

def LandingPc.pending : LandingPc → ℕ
  | .head | .waitMsg | .sleep | .kill | .finished => 0
  | .report _ p | .send _ p => p.pending
  | _ => 1

def ManualPc.pending : ManualPc → ℕ
  | .head | .waitMsg | .sleep | .kill | .reset | .reread | .finished => 0
  | .alarm _ p | .send p => p.pending
  | _ => 1

def pending : (t : Tid) → Loc t → ℕ
  | .signalGyro _ => SignalGyroPc.pending
  | .pricipalEngineThread _ => EnginePc.pending
  | .signalRestartLanding => RestartPc.pending
  | .signalExploteRocket => ExplotePc.pending
  | .signalLandingCheck => LandingPc.pending
  | .sigHandlerManual => ManualPc.pending
  | _ => fun _ => 0

theorem sendLoop_pending (numsec : ℕ) : (sendLoop numsec).pending ≤ 1 := by
  obtain h | h := sendLoop_cases numsec <;> rw [h] <;> simp [SendPc.pending]

/-- What is handed over is no longer pending. -/
theorem sendMesg_pending {L : Type} {f : L → ℕ} {k l : L} {g : Shared} {m : Msg}
    {pc : SendPc → L} {b : ℕ} (hpc : ∀ p, f (pc p) = p.pending + b) (hk : f k ≤ b) (p : SendPc) :
    ((sendMesg m pc k p).sent ok).isSome.toNat + f ((sendMesg m pc k p).dest l g ok) ≤
      p.pending + b := by
  cases p with
  | sendto numsec =>
    have hnext := sendLoop_pending (numsec * 2)
    cases ok with
    | true => simp [sendMesg, Op.dest, Op.sent, hpc, SendPc.pending, Nat.add_comm]
    | false =>
      have hsleep : (if numsec ≤ maxtry / 2 then SendPc.sleep numsec else
          sendLoop (numsec * 2)).pending ≤ (SendPc.sendto numsec).pending := by
        split
        · exact Nat.le_refl 1
        · exact hnext
      have hrest : (sendMesg m pc k (.sendto numsec)).dest l g false =
          pc (if numsec ≤ maxtry / 2 then .sleep numsec else sendLoop (numsec * 2)) := by
        simp only [sendMesg, Op.dest, Bool.false_eq_true, if_false]
        split <;> rfl
      rw [hrest, hpc]
      simpa [sendMesg, Op.sent] using hsleep
  | sleep numsec =>
    have hnext : (sendLoop (numsec * 2)).pending ≤ (SendPc.sleep numsec).pending :=
      sendLoop_pending (numsec * 2)
    simpa [sendMesg, Op.dest, Op.sent, hpc] using hnext
  | unlockSock => simpa [sendMesg, Op.dest, Op.sent, SendPc.pending] using hk
  | _ => simp [sendMesg, Op.dest, Op.sent, hpc, SendPc.pending]

section Routines
variable {g : Shared}

theorem signalGyro_pending {i : Gyro} (l : SignalGyroPc) (hg : g.isOn = false) :
    ((signalGyro i l).sent ok).isSome.toNat + ((signalGyro i l).dest l g ok).pending ≤ l.pending := by
  cases l with
  | send m p => exact sendMesg_pending (f := SignalGyroPc.pending) (b := 0) (fun _ => rfl) (by decide) p
  | head => simp [signalGyro, Op.dest, Op.sent, hg, SignalGyroPc.pending]
  | check =>
    simp only [signalGyro, Op.dest, Op.sent]
    split <;> simp [SignalGyroPc.pending]
  | _ => simp [signalGyro, Op.dest, Op.sent, SignalGyroPc.pending, SendPc.pending]

theorem pricipalEngineThread_pending (l : EnginePc) (hg : g.isOn = false) :
    ((pricipalEngineThread l).sent ok).isSome.toNat +
      ((pricipalEngineThread l).dest l g ok).pending ≤ l.pending := by
  cases l with
  | send m p => exact sendMesg_pending (f := EnginePc.pending) (b := 0) (fun _ => rfl) (by decide) p
  | head => simp [pricipalEngineThread, Op.dest, Op.sent, hg, EnginePc.pending]
  | lockGs i | unlockGs i p =>
    obtain rfl | rfl := gyro_cases i <;> simp [pricipalEngineThread, Op.dest, Op.sent, EnginePc.pending]
  | mode =>
    simp only [pricipalEngineThread, Op.dest, Op.sent]
    split <;> simp [EnginePc.pending]
  | state i =>
    simp only [pricipalEngineThread, Op.dest, Op.sent]
    split
    · simp [EnginePc.pending]
    · split <;> simp [EnginePc.pending]
  | _ => simp [pricipalEngineThread, Op.dest, Op.sent, EnginePc.pending, SendPc.pending]

theorem signalRestartLanding_pending (l : RestartPc) (hg : g.isOn = false) :
    ((signalRestartLanding l).sent ok).isSome.toNat +
      ((signalRestartLanding l).dest l g ok).pending ≤ l.pending := by
  cases l with
  | send m p => exact sendMesg_pending (f := RestartPc.pending) (b := 0) (fun _ => rfl) (by decide) p
  | head => simp [signalRestartLanding, Op.dest, Op.sent, hg, RestartPc.pending]
  | lockGs i | unlockGs i climb | cancelGyro i =>
    obtain rfl | rfl := gyro_cases i <;>
      simp [signalRestartLanding, terminateEvent1, Op.dest, Op.sent, after, RestartPc.pending]
  | testAction | testEngine =>
    simp only [signalRestartLanding, Op.dest, Op.sent]
    split <;> simp [RestartPc.pending]
  | testGyro i =>
    simp only [signalRestartLanding, Op.dest, Op.sent]
    split
    · simp [RestartPc.pending]
    · split <;> simp [RestartPc.pending]
  | unlockAction climb | unlockDist climb =>
    cases climb <;> simp [signalRestartLanding, Op.dest, Op.sent, RestartPc.pending, SendPc.pending]
  | change p => cases p <;> simp [signalRestartLanding, changeAction, Op.dest, Op.sent, RestartPc.pending]
  | _ => simp [signalRestartLanding, Op.dest, Op.sent, RestartPc.pending, SendPc.pending]

theorem signalExploteRocket_pending (l : ExplotePc) (hg : g.isOn = false) :
    ((signalExploteRocket l).sent ok).isSome.toNat +
      ((signalExploteRocket l).dest l g ok).pending ≤ l.pending := by
  cases l with
  | send m p => exact sendMesg_pending (f := ExplotePc.pending) (b := 0) (fun _ => rfl) (by decide) p
  | abort p => exact sendMesg_pending (f := ExplotePc.pending) (b := 1) (fun _ => rfl) (by decide) p
  | head => simp [signalExploteRocket, Op.dest, Op.sent, hg, ExplotePc.pending]
  | unlockGas low => cases low <;> simp [signalExploteRocket, Op.dest, Op.sent, ExplotePc.pending]
  | _ => simp [signalExploteRocket, Op.dest, Op.sent, ExplotePc.pending, SendPc.pending]

theorem signalLandingCheck_pending (l : LandingPc) (hg : g.isOn = false) :
    ((signalLandingCheck l).sent ok).isSome.toNat +
      ((signalLandingCheck l).dest l g ok).pending ≤ l.pending := by
  cases l with
  | send m p | report d p =>
    exact sendMesg_pending (f := LandingPc.pending) (b := 0) (fun _ => rfl) (by decide) p
  | head => simp [signalLandingCheck, Op.dest, Op.sent, hg, LandingPc.pending]
  | lockGs i d | unlockGs i d act | unlockTouch i d | cancelGyro i d =>
    obtain rfl | rfl := gyro_cases i <;>
      simp [signalLandingCheck, terminateEvent1, Op.dest, Op.sent, after, LandingPc.pending,
        SendPc.pending]
  | change d p =>
    cases p <;> simp [signalLandingCheck, changeAction, Op.dest, Op.sent, LandingPc.pending]
  | testDown i d =>
    simp only [signalLandingCheck, Op.dest, Op.sent]
    split <;> (try split) <;> simp [LandingPc.pending]
  | testLow i d =>
    simp only [signalLandingCheck, Op.dest, Op.sent]
    split <;> (try split) <;> (try split) <;> simp [LandingPc.pending]
  | _ => simp [signalLandingCheck, Op.dest, Op.sent, LandingPc.pending]

theorem sigHandlerManual_pending (l : ManualPc) (hg : g.isOn = false) :
    ((sigHandlerManual l).sent ok).isSome.toNat +
      ((sigHandlerManual l).dest l g ok).pending ≤ l.pending := by
  cases l with
  | send p => exact sendMesg_pending (f := ManualPc.pending) (b := 0) (fun _ => rfl) (by decide) p
  | alarm a p =>
    refine sendMesg_pending (f := ManualPc.pending) (b := 0) (fun _ => rfl) ?_ p
    split <;> decide
  | head => simp [sigHandlerManual, Op.dest, Op.sent, hg, ManualPc.pending]
  | test =>
    simp only [sigHandlerManual, Op.dest, Op.sent]
    split <;> decide
  | testCode a =>
    simp only [sigHandlerManual, Op.dest, Op.sent]
    split <;> cases a <;> decide
  | manage a p =>
    cases p with
    | on =>
      cases a <;> simp [sigHandlerManual, managePrincipalEngine, Op.dest, Op.sent, ManualPc.pending,
        SendPc.pending]
    | _ => simp [sigHandlerManual, managePrincipalEngine, Op.dest, Op.sent, ManualPc.pending]
  | cancelGyro a i =>
    obtain rfl | rfl := gyro_cases i <;>
      simp [sigHandlerManual, terminateEvent1, Op.dest, Op.sent, after, ManualPc.pending]
  | create a p =>
    cases p with
    | storeThread i u => obtain rfl | rfl := gyro_cases i <;>
        simp [sigHandlerManual, createSignalsGyros, Op.dest, Op.sent, after, ManualPc.pending,
          SendPc.pending]
    | _ => simp [sigHandlerManual, createSignalsGyros, Op.dest, Op.sent, ManualPc.pending]
  | _ => simp [sigHandlerManual, Op.dest, Op.sent, ManualPc.pending]

end Routines

theorem pending_dest (l : Loc t) {g : Shared} (hg : g.isOn = false) :
    ((code t l).sent ok).isSome.toNat + pending t ((code t l).dest l g ok) ≤ pending t l := by
  cases t with
  | main | gyroscopeThread | goUp30m =>
    have hs : (code _ l).sent ok = none := sent_none (inSend_sendto rfl) ok
    rw [hs]
    exact Nat.le_refl 0
  | signalGyro => exact signalGyro_pending l hg
  | pricipalEngineThread => exact pricipalEngineThread_pending l hg
  | signalRestartLanding => exact signalRestartLanding_pending l hg
  | signalExploteRocket => exact signalExploteRocket_pending l hg
  | signalLandingCheck => exact signalLandingCheck_pending l hg
  | sigHandlerManual => exact sigHandlerManual_pending l hg

theorem pending_le (t : Tid) (l : Loc t) : pending t l ≤ if t = .signalExploteRocket then 2 else 1 := by
  have hsend : ∀ p : SendPc, p.pending ≤ 1 := by
    intro p
    cases p <;> simp [SendPc.pending]
  cases t with
  | main | gyroscopeThread | goUp30m => exact Nat.zero_le _
  | signalGyro =>
    show SignalGyroPc.pending l ≤ 1
    cases l <;> grind [SignalGyroPc.pending]
  | pricipalEngineThread =>
    show EnginePc.pending l ≤ 1
    cases l <;> grind [EnginePc.pending]
  | signalRestartLanding =>
    show RestartPc.pending l ≤ 1
    cases l <;> grind [RestartPc.pending]
  | signalExploteRocket =>
    show ExplotePc.pending l ≤ 2
    cases l <;> grind [ExplotePc.pending]
  | signalLandingCheck =>
    show LandingPc.pending l ≤ 1
    cases l <;> grind [LandingPc.pending]
  | sigHandlerManual =>
    show ManualPc.pending l ≤ 1
    cases l <;> grind [ManualPc.pending]

/-! ## Runs -/

theorem off_step (hs : sistema.Step s a s') (h : s.glob.isOn = false) : s'.glob.isOn = false := by
  obtain ⟨t, l, ok, -, -, -, hw⟩ | ⟨w, -, hw⟩ | hw := step_writes hs
  · generalize s'.glob = g' at hw
    cases hw with
    | descend => rwa [descend_eq]
    | touch => rfl
    | _ => exact h
  · rw [hw]
    cases w <;> exact h
  · rwa [hw]

theorem off_run (h : sistema.Run C s tr s') (hoff : s.glob.isOn = false) : s'.glob.isOn = false :=
  h.invariant hoff fun _ _ _ hi hs _ => off_step hs hi

theorem doubling_lock : Doubling .lock := by
  rintro numsec (h | h) <;> cases h

/-- The seconds start at one and are doubled. -/
theorem doubling_dest {l : Loc t} {g : Shared} (h : ∀ p, inSend t l = some p → Doubling p) :
    ∀ p, inSend t ((code t l).dest l g ok) = some p → Doubling p := by
  intro q hq
  cases hin : inSend t l with
  | none =>
    obtain he | he := (inSend_none hin g ok).2
    · cases he.symm.trans hq
    · obtain rfl := Option.some.inj (he.symm.trans hq)
      exact doubling_lock
  | some p =>
    obtain ⟨m, pc, k, hcode, hpc, hk⟩ := inSend_code hin
    have hp := h p hin
    have hloop : ∀ numsec, 0 < numsec → Doubling (sendLoop (numsec * 2)) := by
      rintro numsec hpos n hn
      unfold sendLoop at hn
      split at hn <;> simp at hn
      omega
    rw [hcode] at hq
    cases p with
    | lock =>
      obtain rfl := Option.some.inj ((hpc _).symm.trans hq)
      rintro n (hn | hn) <;> cases hn
      exact Nat.one_pos
    | sendto numsec =>
      simp only [sendMesg, Op.dest] at hq
      split at hq
      · obtain rfl := Option.some.inj ((hpc _).symm.trans hq)
        rintro n (hn | hn) <;> cases hn
      · split at hq
        · obtain rfl := Option.some.inj ((hpc _).symm.trans hq)
          rintro n (hn | hn) <;> cases hn
          exact hp numsec (.inl rfl)
        · obtain rfl := Option.some.inj ((hpc _).symm.trans hq)
          exact hloop numsec (hp numsec (.inl rfl))
    | sleep numsec =>
      obtain rfl := Option.some.inj ((hpc _).symm.trans hq)
      exact hloop numsec (hp numsec (.inr rfl))
    | unlockSock => cases hk.symm.trans hq
    | _ =>
      obtain rfl := Option.some.inj ((hpc _).symm.trans hq)
      rintro n (hn | hn) <;> cases hn

theorem doubling (h : sistema.Run C (init inp) tr s) (t : Tid) :
    ∀ p, inSend t (s.loc t) = some p → Doubling p := by
  refine h.invariant (I := fun s => ∀ p, inSend t (s.loc t) = some p → Doubling p) ?_ ?_
  · intro p hp
    cases t <;> cases hp
  · intro s a s' hi hs _
    obtain hl | ⟨ok, hl⟩ | hl := step_loc hs t
    · exact hl ▸ hi
    · rw [hl]
      exact doubling_dest hi
    · cases t with
      | main =>
        intro p hp
        cases hp
      | _ => cases hl

/-- The thread hands a message over. -/
def sends (t : Tid) : Label → Bool
  | .exec u l ok => u = t && ((code u l).sent ok).isSome
  | _ => false

/-- The invariant of a run that goes on after a landing. -/
def Landed (s : State) : Prop :=
  s.glob.isOn = false ∧ ∀ t p, inSend t (s.loc t) = some p → Doubling p

theorem rank_int {t : Tid} {l l' : Loc t} (h : onInt t l = some l') : rank t l' ≤ rank t l := by
  cases t with
  | main =>
    cases l with
    | handler => cases h
    | _ =>
      obtain rfl := Option.some.inj h
      simp only [rank, MainPc.rank, TerminatePc.rank, Fin.val_zero]
      omega
  | _ => cases h

theorem steps_ranks (t : Tid) : Ranks sistema Landed t (rank t) (sistema.goesOn t) :=
  goesOn_ranks (fun _ _ hi _ hr hx => rank_dest hi.1 (hi.2 t) hr hx) fun _ _ => rank_int

theorem sends_ranks (t : Tid) : Ranks sistema Landed t (pending t) (sends t) where
  own a ha := by
    unfold sends at ha
    split at ha
    · rename_i u l ok
      obtain rfl : u = t := by simp_all
      exact ⟨l, ok, rfl⟩
    · cases ha
  step s ok hi _ := by
    have hle : ((code t (s.loc t)).sent ok).isSome.toNat +
        pending t ((code t (s.loc t)).dest (s.loc t) s.glob ok) ≤ pending t (s.loc t) :=
      pending_dest (s.loc t) hi.1
    show _ + pending t ((code t (s.loc t)).dest (s.loc t) s.glob ok) ≤ _
    simpa [sends] using hle
  int l l' h := by
    cases t with
    | main => exact Nat.le_refl 0
    | _ => cases h

/-- After a landing is declared every thread has at most 174 steps before its last one, and
at most one message to hand over; the check of the fuel may have two. -/
theorem wound_up (h : sistema.Run C (init inp) tr s) (hoff : s.glob.isOn = false)
    (h' : sistema.Run D s tr' s') (t : Tid) : s'.glob.isOn = false ∧
      tr'.countP (sistema.goesOn t) ≤ 174 ∧
      tr'.countP (sends t) ≤ if t = .signalExploteRocket then 2 else 1 := by
  have hI : ∀ tr s', sistema.Run D s tr s' → Landed s' := by
    intro tr s' hr
    have hrun : sistema.Run Any (init inp) _ s' :=
      (h.mono fun _ _ _ => trivial).append (hr.mono fun _ _ _ => trivial)
    exact ⟨off_run hr hoff, doubling hrun⟩
  have hsteps := (steps_ranks t).bound h' hI
  have hsent := (sends_ranks t).bound h' hI
  have h1 := rank_le t (s.loc t)
  have h2 := pending_le t (s.loc t)
  exact ⟨off_run h' hoff, by omega, by omega⟩

/-- A rocket that starts on the ground: the landing check reports once more, and ends. -/
theorem wound_up_on_ground : ∃ tr s tr' s', sistema.Run Any (init ⟨0, 100, fun _ => 0, 0⟩) tr s ∧
    s.glob.isOn = false ∧ sistema.Run Any s tr' s' ∧
    tr'.countP (sistema.goesOn .signalLandingCheck) = 10 ∧ tr'.countP (sends .signalLandingCheck) = 1 ∧
    s'.glob.isOn = false ∧ tr'.countP (sistema.goesOn .signalLandingCheck) ≤ 174 ∧
    tr'.countP (sends .signalLandingCheck) ≤ 1 := by
  have hrun : ∃ tr s, sistema.Run Any (init ⟨0, 100, fun _ => 0, 0⟩) tr s ∧ s.glob.isOn = false ∧
      ((sistema.play Any (burst .signalLandingCheck 11) [] s).any fun r =>
        r.1.countP (sistema.goesOn .signalLandingCheck) = 10 ∧
          r.1.countP (sends .signalLandingCheck) = 1) = true := by
    refine run_of_check (boot ++ burst .signalLandingCheck 10) ?_
    decide +kernel
  obtain ⟨tr, s, h, hoff, hplay⟩ := hrun
  obtain ⟨tr', s', h', h1, h2⟩ := run_of_check (Q := fun tr _ =>
    tr.countP (sistema.goesOn .signalLandingCheck) = 10 ∧ tr.countP (sends .signalLandingCheck) = 1) _ hplay
  exact ⟨tr, s, tr', s', h, hoff, h', h1, h2, wound_up h hoff h' .signalLandingCheck⟩

end Sistema
