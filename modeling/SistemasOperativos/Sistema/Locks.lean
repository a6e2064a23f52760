import SistemasOperativos.Sistema.Calls
import SistemasOperativos.Threads.Locks

/-! The locks that each routine holds at each of its locations. -/
namespace Sistema

open Threads Threads.Program

def SendPc.holds : SendPc → List Sem
  | .sendto _ | .sleep _ | .lockRead | .unlockSock => [.sock]
  | .count | .unlockRead => [.read, .sock]
  | .lock => []

def ChangePc.holds : ChangePc → List Sem
  | .lock => []
  | .assign | .unlock => [.action]

def MainPc.holds : MainPc → List Sem
  | .test | .reset | .post _ | .unlockRead => [.read]
  | .handler saved _ => saved.holds
  | _ => []

def SignalGyroPc.holds (i : Gyro) : SignalGyroPc → List Sem
  | .lockGyro => [.action]
  | .check | .wake | .unlockAction _ => [.gyro (.signalGyro i), .action]
  | .space _ | .format _ _ | .unlockGyro _ => [.gyro (.signalGyro i)]
  | .send _ p => p.holds
  | _ => []

def GyroscopePc.holds (i : Gyro) (n : ℕ) : GyroscopePc → List Sem
  | .test | .setOn | .lockGas | .sign | .load _ | .store _ | .unlockOn | .setOff | .unlockOff =>
    [.gyro (.gyroscopeThread i n)]
  | .burn | .unlockGas => [.gas, .gyro (.gyroscopeThread i n)]
  | _ => []

def EnginePc.holds : EnginePc → List Sem
  | .lockAction | .unlockDist _ => [.dist]
  | .descend | .unlockAction _ => [.action, .dist]
  | .lockGs i => if i = 0 then [.action, .dist] else [.gs 0, .action, .dist]
  | .lockGas => [.gs 1, .gs 0, .action, .dist]
  | .mode | .state _ | .burn _ | .unlockGas _ => [.gas, .gs 1, .gs 0, .action, .dist]
  | .unlockGs i _ => if i = 0 then [.gs 1, .gs 0, .action, .dist] else [.gs 1, .action, .dist]
  | .send _ p => p.holds
  | _ => []

def GoUpPc.holds : GoUpPc → List Sem
  | .test _ | .unlockClimb _ | .unlockTop => [.dist]
  | .change p => p.holds
  | _ => []

def RestartPc.holds : RestartPc → List Sem
  | .lockAction | .unlockDist _ => [.dist]
  | .lockGs i => if i = 0 then [.action, .dist] else [.gs 0, .action, .dist]
  | .testAction | .testGyro _ | .unlockAction _ => [.gs 1, .gs 0, .action, .dist]
  | .change p => p.holds ++ [.gs 1, .gs 0, .dist]
  | .unlockGs i _ => if i = 0 then [.gs 1, .gs 0, .dist] else [.gs 1, .dist]
  | .send _ p => p.holds
  | _ => []

def ExplotePc.holds : ExplotePc → List Sem
  | .testGas | .unlockGas _ => [.gas]
  | .testAction | .unlockAction _ => [.action]
  | .abort p | .send _ p => p.holds
  | _ => []

def LandingPc.holds : LandingPc → List Sem
  | .readDist | .unlockDist _ => [.dist]
  | .lockGs i _ => if i = 0 then [] else [.gs 0]
  | .testDown _ _ | .touch _ | .testLow _ _ | .cancelGyro _ _ | .engineOff _ => [.gs 1, .gs 0]
  | .unlockTouch i _ | .unlockGs i _ _ => if i = 0 then [.gs 1, .gs 0] else [.gs 1]
  | .change _ p => p.holds ++ [.gs 1, .gs 0]
  | .report _ p | .send _ p => p.holds
  | _ => []

def ManualPc.holds : ManualPc → List Sem
  | .alarm _ p | .send p => p.holds
  | _ => []

def holds : (t : Tid) → Loc t → List Sem
  | .main => MainPc.holds
  | .signalGyro i => SignalGyroPc.holds i
  | .gyroscopeThread i n => GyroscopePc.holds i n
  | .pricipalEngineThread _ => EnginePc.holds
  | .signalRestartLanding => RestartPc.holds
  | .goUp30m => GoUpPc.holds
  | .signalExploteRocket => ExplotePc.holds
  | .signalLandingCheck => LandingPc.holds
  | .sigHandlerManual => ManualPc.holds

theorem gyro_cases : ∀ i : Gyro, i = 0 ∨ i = 1 := by
  decide

theorem sendLoop_cases (numsec : ℕ) : sendLoop numsec = .sendto numsec ∨ sendLoop numsec = .lockRead := by
  unfold sendLoop
  split <;> simp

@[simp] theorem sendLoop_holds (numsec : ℕ) : (sendLoop numsec).holds = [.sock] := by
  obtain h | h := sendLoop_cases numsec <;> rw [h] <;> rfl

section Calls
variable {L : Type} {h : L → List Sem} {k l : L} {g : Shared} {ok : Bool}

/-- A call goes on inside, or returns. -/
theorem sendMesg_dest {A : L → Prop} {m : Msg} {pc : SendPc → L} (hpc : ∀ q, A (pc q)) (hk : A k)
    (p : SendPc) : A ((sendMesg m pc k p).dest l g ok) := by
  cases p with
  | sendto numsec =>
    simp only [sendMesg, Op.dest]
    split
    · exact hpc _
    · split <;> exact hpc _
  | unlockSock => exact hk
  | _ => exact hpc _

/-- A call balances its locks if its locations hold what it took. -/
theorem sendMesg_balanced {m : Msg} {pc : SendPc → L} (hpc : ∀ p, h (pc p) = p.holds)
    (hk : h k = []) (p : SendPc) :
    h ((sendMesg m pc k p).dest l g ok) = (sendMesg m pc k p).held Sem.lock (h (pc p)) := by
  rw [hpc]
  cases p with
  | sendto numsec =>
    simp only [sendMesg, Op.dest, Op.held]
    split
    · exact hpc _
    · split
      · exact hpc _
      · rw [hpc, sendLoop_holds]
        rfl
  | sleep numsec =>
    simp only [sendMesg, Op.dest, Op.held]
    rw [hpc, sendLoop_holds]
    rfl
  | unlockSock => exact hk
  | _ => exact hpc _

theorem changeAction_balanced {e : Event} {pc : ChangePc → L} {b : List Sem}
    (hpc : ∀ p, h (pc p) = p.holds ++ b) (hk : h k = b) (p : ChangePc) :
    h ((changeAction e pc k p).dest l g ok) = (changeAction e pc k p).held Sem.lock (h (pc p)) := by
  rw [hpc]
  cases p with
  | unlock => exact hk.trans (by simp [changeAction, Op.held, ChangePc.holds])
  | _ => exact hpc _

theorem createSignalsGyros_balanced {all : Bool} {pc : CreatePc → L} (hpc : ∀ p, h (pc p) = [])
    (hk : h k = []) (p : CreatePc) : h ((createSignalsGyros all pc k p).dest l g ok) =
      (createSignalsGyros all pc k p).held Sem.lock (h (pc p)) := by
  rw [hpc]
  cases p with
  | storeThread i t =>
    simp only [createSignalsGyros, Op.dest, Op.held]
    split
    · exact hpc _
    · exact hk
  | _ => exact hpc _

theorem managePrincipalEngine_balanced {pc : ManagePc → L} (hpc : ∀ p, h (pc p) = [])
    (hk : h k = []) (p : ManagePc) : h ((managePrincipalEngine pc k p).dest l g ok) =
      (managePrincipalEngine pc k p).held Sem.lock (h (pc p)) := by
  rw [hpc]
  cases p with
  | on => exact hk
  | _ => exact hpc _

theorem terminateEvent1_balanced {c : Gyro → L} {b : List Sem} (hpc : ∀ i, h (c i) = b)
    (hk : h k = b) (i : Gyro) : h ((terminateEvent1 c k i).dest l g ok) =
      (terminateEvent1 c k i).held Sem.lock (h (c i)) := by
  rw [hpc]
  simp only [terminateEvent1, Op.dest, Op.held]
  split
  · exact hpc _
  · exact hk

theorem terminteProgram_balanced {c : TerminatePc → L} {b : List Sem} (hpc : ∀ p, h (c p) = b)
    (hb : ∀ i, .msg i ∉ b) (p : TerminatePc) : h ((terminteProgram c p).dest (c p) g ok) =
      (terminteProgram c p).held Sem.lock (h (c p)) := by
  rw [hpc]
  cases p with
  | postMsg i =>
    simp only [terminteProgram, Op.dest, Op.held, List.erase_of_not_mem (hb i)]
    split <;> exact hpc _
  | exit => exact hpc _
  | _ =>
    simp only [terminteProgram, Op.dest, Op.held]
    split <;> exact hpc _

end Calls

theorem main_holds (l : MainPc) : l.holds = [] ∨ l.holds = [.read] := by
  induction l with
  | handler saved p ih => exact ih
  | _ => simp [MainPc.holds]

theorem main_balanced (l : MainPc) (g : Shared) (ok : Bool) :
    ((main l).dest l g ok).holds = (main l).held Sem.lock l.holds := by
  cases l with
  | createGyros p => exact createSignalsGyros_balanced (h := MainPc.holds) (fun _ => rfl) rfl p
  | handler saved p =>
    refine terminteProgram_balanced (h := MainPc.holds) (c := .handler saved) (fun _ => rfl) ?_ p
    intro i
    obtain h | h := main_holds saved <;> simp [h]
  | head =>
    simp only [main, Op.dest, Op.held]
    split <;> rfl
  | test =>
    simp only [main, Op.dest, Op.held]
    split <;> rfl
  | post i =>
    simp only [main, Op.dest, Op.held]
    split <;> rfl
  | _ => rfl

theorem signalGyro_balanced (i : Gyro) (l : SignalGyroPc) (g : Shared) (ok : Bool) :
    ((signalGyro i l).dest l g ok).holds i = (signalGyro i l).held Sem.lock (l.holds i) := by
  cases l with
  | send m p => exact sendMesg_balanced (h := SignalGyroPc.holds i) (fun _ => rfl) rfl p
  | head =>
    simp only [signalGyro, Op.dest, Op.held]
    split <;> rfl
  | check =>
    simp only [signalGyro, Op.dest, Op.held]
    split <;> rfl
  | unlockAction on => simp [signalGyro, Op.dest, Op.held, SignalGyroPc.holds]
  | unlockGyro m => simp [signalGyro, Op.dest, Op.held, SignalGyroPc.holds, SendPc.holds]
  | _ => rfl

theorem gyroscopeThread_balanced (i : Gyro) (n : ℕ) (l : GyroscopePc) (g : Shared) (ok : Bool) :
    ((gyroscopeThread i n l).dest l g ok).holds i n =
      (gyroscopeThread i n l).held Sem.lock (l.holds i n) := by
  cases l with
  | head | test =>
    simp only [gyroscopeThread, Op.dest, Op.held]
    split <;> rfl
  | unlockGas | unlockOn | unlockOff => simp [gyroscopeThread, Op.dest, Op.held, GyroscopePc.holds]
  | _ => rfl

theorem pricipalEngineThread_balanced (l : EnginePc) (g : Shared) (ok : Bool) :
    ((pricipalEngineThread l).dest l g ok).holds =
      (pricipalEngineThread l).held Sem.lock l.holds := by
  cases l with
  | send m p => exact sendMesg_balanced (h := EnginePc.holds) (fun _ => rfl) rfl p
  | lockGs i | unlockGs i p => obtain rfl | rfl := gyro_cases i <;> rfl
  | head | mode =>
    simp only [pricipalEngineThread, Op.dest, Op.held]
    split <;> rfl
  | state i =>
    simp only [pricipalEngineThread, Op.dest, Op.held]
    split
    · rfl
    · split <;> rfl
  | _ => rfl

theorem goUp30m_balanced (l : GoUpPc) (g : Shared) (ok : Bool) :
    ((goUp30m l).dest l g ok).holds = (goUp30m l).held Sem.lock l.holds := by
  cases l with
  | create p => exact createSignalsGyros_balanced (h := GoUpPc.holds) (fun _ => rfl) rfl p
  | change p =>
    exact changeAction_balanced (h := GoUpPc.holds) (b := []) (fun q => by cases q <;> rfl) rfl p
  | head time | test time =>
    simp only [goUp30m, Op.dest, Op.held]
    split <;> rfl
  | _ => rfl

theorem signalRestartLanding_balanced (l : RestartPc) (g : Shared) (ok : Bool) :
    ((signalRestartLanding l).dest l g ok).holds =
      (signalRestartLanding l).held Sem.lock l.holds := by
  cases l with
  | send m p => exact sendMesg_balanced (h := RestartPc.holds) (fun _ => rfl) rfl p
  | change p => exact changeAction_balanced (h := RestartPc.holds) (fun _ => rfl) rfl p
  | cancelGyro i => exact terminateEvent1_balanced (c := RestartPc.cancelGyro) (fun _ => rfl) rfl i
  | lockGs i | unlockGs i climb => obtain rfl | rfl := gyro_cases i <;> rfl
  | testGyro i =>
    simp only [signalRestartLanding, Op.dest, Op.held]
    split
    · rfl
    · split <;> rfl
  | unlockAction climb | unlockDist climb => cases climb <;> rfl
  | head | testAction | testEngine =>
    simp only [signalRestartLanding, Op.dest, Op.held]
    split <;> rfl
  | _ => rfl

theorem signalExploteRocket_balanced (l : ExplotePc) (g : Shared) (ok : Bool) :
    ((signalExploteRocket l).dest l g ok).holds =
      (signalExploteRocket l).held Sem.lock l.holds := by
  cases l with
  | send m p => exact sendMesg_balanced (h := ExplotePc.holds) (fun _ => rfl) rfl p
  | abort p => exact sendMesg_balanced (h := ExplotePc.holds) (fun _ => rfl) rfl p
  | unlockGas low => cases low <;> rfl
  | head =>
    simp only [signalExploteRocket, Op.dest, Op.held]
    split <;> rfl
  | _ => rfl

theorem signalLandingCheck_balanced (l : LandingPc) (g : Shared) (ok : Bool) :
    ((signalLandingCheck l).dest l g ok).holds =
      (signalLandingCheck l).held Sem.lock l.holds := by
  cases l with
  | send m p => exact sendMesg_balanced (h := LandingPc.holds) (fun _ => rfl) rfl p
  | report d p => exact sendMesg_balanced (h := LandingPc.holds) (fun _ => rfl) rfl p
  | change d p => exact changeAction_balanced (h := LandingPc.holds) (fun _ => rfl) rfl p
  | cancelGyro i d => exact terminateEvent1_balanced (c := (LandingPc.cancelGyro · d)) (fun _ => rfl) rfl i
  | lockGs i d | unlockTouch i d | unlockGs i d act => obtain rfl | rfl := gyro_cases i <;> rfl
  | testDown i d =>
    simp only [signalLandingCheck, Op.dest, Op.held]
    split
    · split <;> rfl
    · rfl
  | testLow i d =>
    simp only [signalLandingCheck, Op.dest, Op.held]
    split
    · split
      · rfl
      · split <;> rfl
    · rfl
  | head =>
    simp only [signalLandingCheck, Op.dest, Op.held]
    split <;> rfl
  | _ => rfl

theorem sigHandlerManual_balanced (l : ManualPc) (g : Shared) (ok : Bool) :
    ((sigHandlerManual l).dest l g ok).holds = (sigHandlerManual l).held Sem.lock l.holds := by
  cases l with
  | send p => exact sendMesg_balanced (h := ManualPc.holds) (fun _ => rfl) rfl p
  | alarm a p =>
    exact sendMesg_balanced (h := ManualPc.holds) (fun _ => rfl) (by split <;> rfl) p
  | manage a p =>
    exact managePrincipalEngine_balanced (h := ManualPc.holds) (fun _ => rfl) (by split <;> rfl) p
  | cancelGyro a i => exact terminateEvent1_balanced (c := ManualPc.cancelGyro a) (fun _ => rfl) rfl i
  | create a p => exact createSignalsGyros_balanced (h := ManualPc.holds) (fun _ => rfl) rfl p
  | testCode a =>
    simp only [sigHandlerManual, Op.dest, Op.held]
    split
    · cases a <;> rfl
    · cases a <;> rfl
  | head | test =>
    simp only [sigHandlerManual, Op.dest, Op.held]
    split <;> rfl
  | _ => rfl

theorem code_balanced (t : Tid) (l : Loc t) (g : Shared) (ok : Bool) :
    holds t ((code t l).dest l g ok) = (code t l).held Sem.lock (holds t l) := by
  cases t with
  | main => exact main_balanced l g ok
  | signalGyro i => exact signalGyro_balanced i l g ok
  | gyroscopeThread i n => exact gyroscopeThread_balanced i n l g ok
  | pricipalEngineThread n => exact pricipalEngineThread_balanced l g ok
  | signalRestartLanding => exact signalRestartLanding_balanced l g ok
  | goUp30m => exact goUp30m_balanced l g ok
  | signalExploteRocket => exact signalExploteRocket_balanced l g ok
  | signalLandingCheck => exact signalLandingCheck_balanced l g ok
  | sigHandlerManual => exact sigHandlerManual_balanced l g ok

/-! A location that posts a lock holds it. -/

theorem sendMesg_posts {L : Type} {m : Msg} {pc : SendPc → L} {k k' : L} {p : SendPc} {x : Sem}
    (h : sendMesg m pc k p = .post x k') : x ∈ p.holds := by
  cases p <;> cases h <;> simp [SendPc.holds]

theorem changeAction_posts {L : Type} {e : Event} {pc : ChangePc → L} {k k' : L} {p : ChangePc}
    {x : Sem} (h : changeAction e pc k p = .post x k') : x ∈ p.holds := by
  cases p <;> cases h
  simp [ChangePc.holds]

theorem code_posts (t : Tid) (l : Loc t) (x : Sem) (k : Loc t) (h : code t l = .post x k)
    (hx : x.lock = true) : x ∈ holds t l := by
  cases t with
  | main =>
    cases l with
    | createGyros p => cases p <;> cases h
    | handler saved p =>
      cases p <;> cases h
      cases hx
    | post i =>
      cases h
      cases hx
    | unlockRead =>
      cases h
      simp [holds, MainPc.holds]
    | _ => cases h
  | signalGyro i =>
    cases l with
    | send m p => exact sendMesg_posts h
    | _ => cases h <;> simp [holds, SignalGyroPc.holds]
  | gyroscopeThread i n => cases l <;> cases h <;> simp [holds, GyroscopePc.holds]
  | pricipalEngineThread n =>
    cases l with
    | send m p => exact sendMesg_posts h
    | unlockGs i p => obtain rfl | rfl := gyro_cases i <;> cases h <;> simp [holds, EnginePc.holds]
    | _ => cases h <;> simp [holds, EnginePc.holds]
  | signalRestartLanding =>
    cases l with
    | send m p => exact sendMesg_posts h
    | change p => exact List.mem_append_left _ (changeAction_posts h)
    | unlockGs i climb => obtain rfl | rfl := gyro_cases i <;> cases h <;> simp [holds, RestartPc.holds]
    | _ => cases h <;> simp [holds, RestartPc.holds]
  | goUp30m =>
    cases l with
    | create p => cases p <;> cases h
    | change p => exact changeAction_posts h
    | _ => cases h <;> simp [holds, GoUpPc.holds]
  | signalExploteRocket =>
    cases l with
    | send m p => exact sendMesg_posts h
    | abort p => exact sendMesg_posts h
    | _ => cases h <;> simp [holds, ExplotePc.holds]
  | signalLandingCheck =>
    cases l with
    | send m p => exact sendMesg_posts h
    | report d p => exact sendMesg_posts h
    | change d p => exact List.mem_append_left _ (changeAction_posts h)
    | unlockTouch i d | unlockGs i d act => obtain rfl | rfl := gyro_cases i <;> cases h <;> simp [holds, LandingPc.holds]
    | _ => cases h <;> simp [holds, LandingPc.holds]
  | sigHandlerManual =>
    cases l with
    | alarm a p => exact sendMesg_posts h
    | send p => exact sendMesg_posts h
    | manage a p => cases p <;> cases h
    | create a p => cases p <;> cases h
    | _ => cases h

theorem sendPc_nodup (p : SendPc) : p.holds.Nodup := by
  cases p <;> simp [SendPc.holds]

theorem holds_nodup (t : Tid) (l : Loc t) : (holds t l).Nodup := by
  cases t with
  | main => obtain h | h := main_holds l <;> simp [holds, h]
  | signalGyro i =>
    cases l with
    | send m p => exact sendPc_nodup p
    | _ => simp [holds, SignalGyroPc.holds]
  | gyroscopeThread i n => cases l <;> simp [holds, GyroscopePc.holds]
  | pricipalEngineThread n =>
    cases l with
    | send m p => exact sendPc_nodup p
    | lockGs i | unlockGs i p => obtain rfl | rfl := gyro_cases i <;> simp [holds, EnginePc.holds]
    | _ => simp [holds, EnginePc.holds]
  | signalRestartLanding =>
    cases l with
    | send m p => exact sendPc_nodup p
    | change p => cases p <;> simp [holds, RestartPc.holds, ChangePc.holds]
    | lockGs i | unlockGs i climb =>
      obtain rfl | rfl := gyro_cases i <;> simp [holds, RestartPc.holds]
    | _ => simp [holds, RestartPc.holds]
  | goUp30m =>
    cases l with
    | change p => cases p <;> simp [holds, GoUpPc.holds, ChangePc.holds]
    | _ => simp [holds, GoUpPc.holds]
  | signalExploteRocket =>
    cases l with
    | send m p => exact sendPc_nodup p
    | abort p => exact sendPc_nodup p
    | _ => simp [holds, ExplotePc.holds]
  | signalLandingCheck =>
    cases l with
    | send m p => exact sendPc_nodup p
    | report d p => exact sendPc_nodup p
    | change d p => cases p <;> simp [holds, LandingPc.holds, ChangePc.holds]
    | lockGs i d | unlockTouch i d | unlockGs i d act =>
      obtain rfl | rfl := gyro_cases i <;> simp [holds, LandingPc.holds]
    | _ => simp [holds, LandingPc.holds]
  | sigHandlerManual =>
    cases l with
    | alarm a p => exact sendPc_nodup p
    | send p => exact sendPc_nodup p
    | _ => simp [holds, ManualPc.holds]

theorem holds_int (t : Tid) (l l' : Loc t) (h : onInt t l = some l') : holds t l' = holds t l := by
  cases t with
  | main => cases l <;> cases h <;> rfl
  | _ => cases h

def discipline : Discipline sistema where
  holds := holds
  start t := by cases t <;> rfl
  step := code_balanced
  int := holds_int
  posts := code_posts
  nodup := holds_nodup

/-- The seven semaphores that several threads share. -/
def Sem.shared : Sem → Bool
  | .dist | .action | .gs _ | .gas | .sock | .read => true
  | _ => false

theorem Sem.shared_lock {x : Sem} (h : x.shared = true) : x.lock = true := by
  cases x <;> simp_all [Sem.shared, Sem.lock]

/-- Semaphore assignments only write the copies for the correction threads. -/
theorem copy_not_shared {x : Sem} (hx : x.shared = true) (t : Tid) (l : Loc t) (y : Sem)
    (k : Loc t) : code t l ≠ .copy x y k := by
  intro h
  have hc := code_calls t l
  rw [h] at hc
  cases hc with
  | plain hp => exact hp
  | _ => cases hx

theorem tracks_init (inp : Input) : Tracks discipline (init inp) := by
  intro t
  exact (discipline.start t).symm

theorem mutex_init (inp : Input) {x : Sem} (hx : x.shared = true) : Mutex (init inp) x := by
  refine .inl ⟨?_, fun t => List.not_mem_nil⟩
  cases x <;> first | rfl | cases hx

variable {C : State → Label → Prop} {inp : Input} {tr : List Label} {s : State}

/-- In every run each thread holds what its location says. -/
theorem held_eq (h : sistema.Run C (init inp) tr s) (t : Tid) : s.held t = holds t (s.loc t) :=
  tracks_run discipline h (tracks_init inp) t

/-- In every run each shared semaphore is free or has one holder. -/
theorem mutex (h : sistema.Run C (init inp) tr s) {x : Sem} (hx : x.shared = true) : Mutex s x :=
  mutex_run discipline h (tracks_init inp) (Sem.shared_lock hx) (copy_not_shared hx)
    (mutex_init inp hx)

end Sistema
