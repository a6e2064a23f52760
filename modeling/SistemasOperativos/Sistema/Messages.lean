import SistemasOperativos.Sistema.Dashboard

/-!
# Who sends what

The dashboard tells the reporters apart by what they write. A location may carry any
datagram, and those that a run comes to carry one of their own thread.
-/
namespace Sistema

open Threads Threads.Program

variable {s s' : State} {a : Label} {t : Tid} {tr : List Label} {inp : Input} {ok : Bool}
variable {C : State → Label → Prop}

/-- The datagram that a thread is about to send. -/
def carried : (t : Tid) → Loc t → Option Msg
  | .signalGyro _, .unlockGyro m => some m
  | .signalGyro _, .send m _ => some m
  | .pricipalEngineThread _, .send m _ => some m
  | .signalRestartLanding, .send m _ => some m
  | .signalExploteRocket, .abort _ => some .abortando
  | .signalExploteRocket, .unlockAction m => some m
  | .signalExploteRocket, .send m _ => some m
  | .signalLandingCheck, .report d _ => some (.distancia d .satisfactorio)
  | .signalLandingCheck, .send m _ => some m
  | .sigHandlerManual, .alarm a _ => some (.alarma a)
  | .sigHandlerManual, .send _ => some .sinAlarmas
  | _, _ => none

def Own (t : Tid) (l : Loc t) : Prop := ∀ m, carried t l = some m → slotOf t = some m.slot

theorem own_of_none {l : Loc t} (h : carried t l = none) : Own t l := by
  intro m hm
  cases h.symm.trans hm

theorem own_of_slot {l : Loc t} {m : Msg} (hl : carried t l = some m)
    (h : slotOf t = some m.slot) : Own t l := by
  intro m' hm
  cases hl.symm.trans hm
  exact h

/-- A location that carries what an own one carries. -/
theorem Own.congr {l l' : Loc t} (h : Own t l) (hl : carried t l' = carried t l) : Own t l' := by
  intro m hm
  exact h m (hl ▸ hm)

theorem signalGyro_own {i : Gyro} {l : SignalGyroPc} (h : Own (.signalGyro i) l) (g : Shared)
    (ok : Bool) : Own (.signalGyro i) ((signalGyro i l).dest l g ok) := by
  cases l with
  | format w on => exact own_of_slot rfl rfl
  | unlockGyro m => exact h.congr rfl
  | send m p =>
    refine sendMesg_dest (A := Own (.signalGyro i)) ?_ ?_ p
    · exact fun _ => h.congr rfl
    · exact own_of_none rfl
  | head | check =>
    simp only [signalGyro, Op.dest]
    split <;> exact own_of_none rfl
  | _ => exact own_of_none rfl

theorem pricipalEngineThread_own {n : ℕ} {l : EnginePc} (h : Own (.pricipalEngineThread n) l)
    (g : Shared) (ok : Bool) :
    Own (.pricipalEngineThread n) ((pricipalEngineThread l).dest l g ok) := by
  cases l with
  | format h on p => exact own_of_slot rfl rfl
  | send m p =>
    refine sendMesg_dest (A := Own (.pricipalEngineThread n)) ?_ ?_ p
    · exact fun _ => h.congr rfl
    · exact own_of_none rfl
  | lockGs i | unlockGs i p => obtain rfl | rfl := gyro_cases i <;> exact own_of_none rfl
  | head | mode =>
    simp only [pricipalEngineThread, Op.dest]
    split <;> exact own_of_none rfl
  | state i =>
    simp only [pricipalEngineThread, Op.dest]
    split
    · exact own_of_none rfl
    · split <;> exact own_of_none rfl
  | _ => exact own_of_none rfl

theorem signalRestartLanding_own {l : RestartPc} (h : Own .signalRestartLanding l) (g : Shared)
    (ok : Bool) : Own .signalRestartLanding ((signalRestartLanding l).dest l g ok) := by
  cases l with
  | contGoUp => exact own_of_slot rfl rfl
  | unlockDist climb => cases climb <;> [exact own_of_slot rfl rfl; exact own_of_none rfl]
  | send m p =>
    refine sendMesg_dest (A := Own .signalRestartLanding) ?_ ?_ p
    · exact fun _ => h.congr rfl
    · exact own_of_none rfl
  | lockGs i | unlockGs i climb | cancelGyro i =>
    obtain rfl | rfl := gyro_cases i <;> exact own_of_none rfl
  | unlockAction climb => cases climb <;> exact own_of_none rfl
  | change p => cases p <;> exact own_of_none rfl
  | head | testAction | testEngine =>
    simp only [signalRestartLanding, Op.dest]
    split <;> exact own_of_none rfl
  | testGyro i =>
    simp only [signalRestartLanding, Op.dest]
    split
    · exact own_of_none rfl
    · split <;> exact own_of_none rfl
  | _ => exact own_of_none rfl

theorem signalExploteRocket_own {l : ExplotePc} (h : Own .signalExploteRocket l) (g : Shared)
    (ok : Bool) : Own .signalExploteRocket ((signalExploteRocket l).dest l g ok) := by
  cases l with
  | clearManual => exact own_of_slot rfl rfl
  | testAction =>
    simp only [signalExploteRocket, Op.dest]
    split <;> exact own_of_slot rfl rfl
  | unlockAction m => exact h.congr rfl
  | abort p =>
    refine sendMesg_dest (A := Own .signalExploteRocket) ?_ ?_ p
    · exact fun _ => own_of_slot rfl rfl
    · exact own_of_none rfl
  | send m p =>
    refine sendMesg_dest (A := Own .signalExploteRocket) ?_ ?_ p
    · exact fun _ => h.congr rfl
    · exact own_of_none rfl
  | head =>
    simp only [signalExploteRocket, Op.dest]
    split <;> exact own_of_none rfl
  | unlockGas low => cases low <;> exact own_of_none rfl
  | _ => exact own_of_none rfl

theorem signalLandingCheck_own {l : LandingPc} (h : Own .signalLandingCheck l) (g : Shared)
    (ok : Bool) : Own .signalLandingCheck ((signalLandingCheck l).dest l g ok) := by
  cases l with
  | unlockTouch i d =>
    obtain rfl | rfl := gyro_cases i <;> [exact own_of_none rfl; exact own_of_slot rfl rfl]
  | unlockGs i d act =>
    obtain rfl | rfl := gyro_cases i <;> [exact own_of_none rfl; exact own_of_slot rfl rfl]
  | report d p =>
    refine sendMesg_dest (A := Own .signalLandingCheck) ?_ ?_ p
    · exact fun _ => own_of_slot rfl rfl
    · exact own_of_none rfl
  | send m p =>
    refine sendMesg_dest (A := Own .signalLandingCheck) ?_ ?_ p
    · exact fun _ => h.congr rfl
    · exact own_of_none rfl
  | lockGs i d | cancelGyro i d => obtain rfl | rfl := gyro_cases i <;> exact own_of_none rfl
  | change d p => cases p <;> exact own_of_none rfl
  | head =>
    simp only [signalLandingCheck, Op.dest]
    split <;> exact own_of_none rfl
  | testDown i d =>
    simp only [signalLandingCheck, Op.dest]
    split
    · split <;> exact own_of_none rfl
    · exact own_of_none rfl
  | testLow i d =>
    simp only [signalLandingCheck, Op.dest]
    split
    · split
      · exact own_of_none rfl
      · split <;> exact own_of_none rfl
    · exact own_of_none rfl
  | _ => exact own_of_none rfl

theorem sigHandlerManual_own {l : ManualPc} (g : Shared) (ok : Bool) :
    Own .sigHandlerManual ((sigHandlerManual l).dest l g ok) := by
  have hall : ∀ l, Own .sigHandlerManual l := by
    intro l
    cases l with
    | alarm | send => exact own_of_slot rfl rfl
    | _ => exact own_of_none rfl
  exact hall _

theorem own_dest {l : Loc t} (h : Own t l) (g : Shared) (ok : Bool) :
    Own t ((code t l).dest l g ok) := by
  cases t with
  | main | gyroscopeThread | goUp30m => exact own_of_none rfl
  | signalGyro => exact signalGyro_own h g ok
  | pricipalEngineThread => exact pricipalEngineThread_own h g ok
  | signalRestartLanding => exact signalRestartLanding_own h g ok
  | signalExploteRocket => exact signalExploteRocket_own h g ok
  | signalLandingCheck => exact signalLandingCheck_own h g ok
  | sigHandlerManual => exact sigHandlerManual_own g ok

theorem own_start (t : Tid) : Own t (start t) := by
  cases t <;> exact own_of_none rfl

/-- In every run each thread carries its own datagrams. -/
theorem own (h : sistema.Run C (init inp) tr s) (t : Tid) : Own t (s.loc t) := by
  refine h.invariant (I := fun s => Own t (s.loc t)) (own_start t) ?_
  intro s a s' hi hs _
  obtain hl | ⟨ok, hl⟩ | hl := step_loc hs t
  · exact hi.congr (by rw [hl])
  · rw [hl]
    exact own_dest hi s.glob ok
  · cases t with
    | main => exact own_of_none rfl
    | _ => cases hl

theorem sent_carried {l : Loc t} {m : Msg} (h : (code t l).sent ok = some m) : carried t l = some m := by
  cases hin : inSend t l with
  | none =>
    rw [sent_none (inSend_sendto hin)] at h
    cases h
  | some p =>
    unfold inSend at hin
    split at hin <;> cases hin
    all_goals
      cases p with
      | sendto numsec =>
        cases ok with
        | true => exact h
        | false => cases h
      | _ => cases h

/-- A thread at its `sendto` can hand its message over. -/
theorem sendto_step {m : Msg} {k : Bool → Loc t} (hr : s.Running t) (hc : s.cancelled t = false)
    (ho : code t (s.loc t) = .sendto m k) :
    ∃ s', sistema.Step s (.exec t (s.loc t) true) s' ∧ sent (.exec t (s.loc t) true) = some m := by
  refine ⟨sistema.effect s t true, .exec true hr (fun _ => hc) ?_, ?_⟩
  · show (code t (s.loc t)).Enabled s.sem
    rw [ho]
    trivial
  · show (code t (s.loc t)).sent true = some m
    rw [ho]
    rfl

/-- A datagram that says it is of a reporter has been sent by this one, whatever the
alarms, the signals and the cancellations. -/
theorem sent_by_its_reporter (h : sistema.Run C (init inp) tr s) (hs : sistema.Step s a s')
    {m : Msg} (hm : sent a = some m) : sentBy a = some (m.slot, m) := by
  cases hs with
  | @exec t ok _ _ _ =>
    have hown := own h t m (sent_carried hm)
    have hsent : (code t (s.loc t)).sent ok = some m := hm
    simp [sentBy, hown, hsent]
  | _ => cases hm

/-- The first report of a gyroscope that is not level. -/
theorem tilt_sent_by_its_reporter : ∃ tr s s', sistema.Run Any (init ⟨100, 50, fun _ => 3, 0⟩) tr s ∧
    sistema.Step s (.exec (.signalGyro 1) (s.loc (.signalGyro 1)) true) s' ∧
    sent (.exec (.signalGyro 1) (s.loc (.signalGyro 1)) true) = some (.giroscopio 1 3 3 true) ∧
    sentBy (.exec (.signalGyro 1) (s.loc (.signalGyro 1)) true) = some (1, .giroscopio 1 3 3 true) := by
  have hrun : ∃ tr s, sistema.Run Any (init ⟨100, 50, fun _ => 3, 0⟩) tr s ∧
      s.Running (.signalGyro 1) ∧ s.cancelled (.signalGyro 1) = false ∧
      s.loc (.signalGyro 1) = .send (.giroscopio 1 3 3 true) (.sendto 1) := by
    refine run_of_check (boot ++ burst (.signalGyro 1) 12) ?_
    decide +kernel
  obtain ⟨tr, s, h, hr, hc, hl⟩ := hrun
  obtain ⟨s', hs, hm⟩ := sendto_step hr hc (congrArg (code (.signalGyro 1)) hl)
  exact ⟨tr, s, s', h, hs, hm, sent_by_its_reporter h hs hm⟩

end Sistema
