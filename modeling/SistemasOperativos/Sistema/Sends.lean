import SistemasOperativos.Sistema.Rounds

/-! The datagrams of the reporters, and the alarms that a run handles. -/
namespace Sistema

open Threads Threads.Program

variable {t : Tid} {s s' : State} {a : Label} {ok : Bool}

/-! ## Inside `send_mesg` -/

def inSend : (t : Tid) → Loc t → Option SendPc
  | .signalGyro _, .send _ p => some p
  | .pricipalEngineThread _, .send _ p => some p
  | .signalRestartLanding, .send _ p => some p
  | .signalExploteRocket, .send _ p => some p
  | .signalExploteRocket, .abort p => some p
  | .signalLandingCheck, .send _ p => some p
  | .signalLandingCheck, .report _ p => some p
  | .sigHandlerManual, .send p => some p
  | .sigHandlerManual, .alarm _ p => some p
  | _, _ => none

theorem inSend_code {l : Loc t} {p : SendPc} (h : inSend t l = some p) :
    ∃ m pc k, code t l = sendMesg m pc k p ∧ (∀ q, inSend t (pc q) = some q) ∧ inSend t k = none := by
  unfold inSend at h
  split at h <;> cases h
  case h_9 a => exact ⟨_, _, _, rfl, fun _ => rfl, by cases a <;> rfl⟩
  all_goals exact ⟨_, _, _, rfl, fun _ => rfl, rfl⟩

/-- A call of `send_mesg` starts at its first wait. -/
def Enters (o : Option SendPc) : Prop := o = none ∨ o = some .lock

theorem signalGyro_outside {i : Gyro} {l : SignalGyroPc} (h : inSend (.signalGyro i) l = none)
    (g : Shared) (ok : Bool) : (signalGyro i l).isSendto = false ∧
      Enters (inSend (.signalGyro i) ((signalGyro i l).dest l g ok)) := by
  cases l with
  | send m p => cases h
  | unlockGyro m => exact ⟨rfl, .inr rfl⟩
  | head | check =>
    refine ⟨rfl, .inl ?_⟩
    simp only [signalGyro, Op.dest]
    split <;> rfl
  | _ => exact ⟨rfl, .inl rfl⟩

theorem pricipalEngineThread_outside {n : ℕ} {l : EnginePc}
    (h : inSend (.pricipalEngineThread n) l = none) (g : Shared) (ok : Bool) :
    (pricipalEngineThread l).isSendto = false ∧
      Enters (inSend (.pricipalEngineThread n) ((pricipalEngineThread l).dest l g ok)) := by
  cases l with
  | send m p => cases h
  | format h on p => exact ⟨rfl, .inr rfl⟩
  | lockGs i | unlockGs i p =>
    refine ⟨rfl, .inl ?_⟩
    obtain rfl | rfl := gyro_cases i <;> rfl
  | head | mode =>
    refine ⟨rfl, .inl ?_⟩
    simp only [pricipalEngineThread, Op.dest]
    split <;> rfl
  | state i =>
    refine ⟨rfl, .inl ?_⟩
    simp only [pricipalEngineThread, Op.dest]
    split
    · rfl
    · split <;> rfl
  | _ => exact ⟨rfl, .inl rfl⟩

theorem signalRestartLanding_outside {l : RestartPc} (h : inSend .signalRestartLanding l = none)
    (g : Shared) (ok : Bool) : (signalRestartLanding l).isSendto = false ∧
      Enters (inSend .signalRestartLanding ((signalRestartLanding l).dest l g ok)) := by
  cases l with
  | send m p => cases h
  | contGoUp => exact ⟨rfl, .inr rfl⟩
  | change p => cases p <;> exact ⟨rfl, .inl rfl⟩
  | cancelGyro i | lockGs i | unlockGs i climb =>
    refine ⟨rfl, .inl ?_⟩
    obtain rfl | rfl := gyro_cases i <;> rfl
  | testGyro i =>
    refine ⟨rfl, .inl ?_⟩
    simp only [signalRestartLanding, Op.dest]
    split
    · rfl
    · split <;> rfl
  | unlockAction climb => exact ⟨rfl, .inl (by cases climb <;> rfl)⟩
  | unlockDist climb =>
    cases climb
    · exact ⟨rfl, .inr rfl⟩
    · exact ⟨rfl, .inl rfl⟩
  | head | testAction | testEngine =>
    refine ⟨rfl, .inl ?_⟩
    simp only [signalRestartLanding, Op.dest]
    split <;> rfl
  | _ => exact ⟨rfl, .inl rfl⟩

theorem signalExploteRocket_outside {l : ExplotePc} (h : inSend .signalExploteRocket l = none)
    (g : Shared) (ok : Bool) : (signalExploteRocket l).isSendto = false ∧
      Enters (inSend .signalExploteRocket ((signalExploteRocket l).dest l g ok)) := by
  cases l with
  | send m p | abort p => cases h
  | clearManual | unlockAction m => exact ⟨rfl, .inr rfl⟩
  | unlockGas low => exact ⟨rfl, .inl (by cases low <;> rfl)⟩
  | head =>
    refine ⟨rfl, .inl ?_⟩
    simp only [signalExploteRocket, Op.dest]
    split <;> rfl
  | _ => exact ⟨rfl, .inl rfl⟩

theorem signalLandingCheck_outside {l : LandingPc} (h : inSend .signalLandingCheck l = none)
    (g : Shared) (ok : Bool) : (signalLandingCheck l).isSendto = false ∧
      Enters (inSend .signalLandingCheck ((signalLandingCheck l).dest l g ok)) := by
  cases l with
  | send m p | report d p => cases h
  | change d p => cases p <;> exact ⟨rfl, .inl rfl⟩
  | lockGs i d | cancelGyro i d =>
    refine ⟨rfl, .inl ?_⟩
    obtain rfl | rfl := gyro_cases i <;> rfl
  | unlockTouch i d | unlockGs i d act =>
    obtain rfl | rfl := gyro_cases i
    · exact ⟨rfl, .inl rfl⟩
    · exact ⟨rfl, .inr rfl⟩
  | testDown i d =>
    refine ⟨rfl, .inl ?_⟩
    simp only [signalLandingCheck, Op.dest]
    split
    · split <;> rfl
    · rfl
  | testLow i d =>
    refine ⟨rfl, .inl ?_⟩
    simp only [signalLandingCheck, Op.dest]
    split
    · split
      · rfl
      · split <;> rfl
    · rfl
  | head =>
    refine ⟨rfl, .inl ?_⟩
    simp only [signalLandingCheck, Op.dest]
    split <;> rfl
  | _ => exact ⟨rfl, .inl rfl⟩

theorem sigHandlerManual_outside {l : ManualPc} (h : inSend .sigHandlerManual l = none)
    (g : Shared) (ok : Bool) : (sigHandlerManual l).isSendto = false ∧
      Enters (inSend .sigHandlerManual ((sigHandlerManual l).dest l g ok)) := by
  cases l with
  | send p | alarm a p => cases h
  | manage a p =>
    cases p with
    | on => cases a <;> first | exact ⟨rfl, .inl rfl⟩ | exact ⟨rfl, .inr rfl⟩
    | _ => exact ⟨rfl, .inl rfl⟩
  | create a p =>
    cases p with
    | storeThread i t =>
      obtain rfl | rfl := gyro_cases i
      · exact ⟨rfl, .inl rfl⟩
      · exact ⟨rfl, .inr rfl⟩
    | _ => exact ⟨rfl, .inl rfl⟩
  | cancelGyro a i =>
    refine ⟨rfl, .inl ?_⟩
    obtain rfl | rfl := gyro_cases i <;> rfl
  | testCode a =>
    refine ⟨rfl, ?_⟩
    simp only [sigHandlerManual, Op.dest]
    split <;> cases a <;> first | exact .inl rfl | exact .inr rfl
  | head =>
    refine ⟨rfl, .inl ?_⟩
    simp only [sigHandlerManual, Op.dest]
    split <;> rfl
  | test =>
    refine ⟨rfl, ?_⟩
    simp only [sigHandlerManual, Op.dest]
    split
    · exact .inl rfl
    · exact .inr rfl
  | _ => exact ⟨rfl, .inl rfl⟩

theorem inSend_none {l : Loc t} (h : inSend t l = none) (g : Shared) (ok : Bool) :
    (code t l).isSendto = false ∧ Enters (inSend t ((code t l).dest l g ok)) := by
  cases t with
  | main =>
    refine ⟨?_, .inl rfl⟩
    cases l with
    | createGyros p => cases p <;> rfl
    | handler saved p => cases p <;> rfl
    | _ => rfl
  | gyroscopeThread i n =>
    refine ⟨?_, .inl rfl⟩
    cases l <;> rfl
  | goUp30m =>
    refine ⟨?_, .inl rfl⟩
    cases l with
    | create p => cases p <;> rfl
    | change p => cases p <;> rfl
    | _ => rfl
  | signalGyro _ => exact signalGyro_outside h g ok
  | pricipalEngineThread _ => exact pricipalEngineThread_outside h g ok
  | signalRestartLanding => exact signalRestartLanding_outside h g ok
  | signalExploteRocket => exact signalExploteRocket_outside h g ok
  | signalLandingCheck => exact signalLandingCheck_outside h g ok
  | sigHandlerManual => exact sigHandlerManual_outside h g ok

theorem inSend_sendto {l : Loc t} (h : inSend t l = none) : (code t l).isSendto = false :=
  (inSend_none h (init ⟨0, 0, fun _ => 0, 0⟩).glob true).1

theorem phase_inSend {l : Loc t} {p : SendPc} (h : inSend t l = some p) : phase t l = p.phase := by
  unfold inSend at h
  split at h <;> cases h <;> rfl

theorem phase_outside {l : Loc t} (h : inSend t l = none) : phase t l ≠ .sent ∧ phase t l ≠ .atCount := by
  cases t with
  | main | gyroscopeThread | goUp30m => exact ⟨nofun, nofun⟩
  | _ => cases l <;> first | (cases h; done) | exact ⟨nofun, nofun⟩

/-- One for a thread whose message is sent and not counted. -/
def Phase.ahead : Phase → ℕ
  | .sent | .atCount => 1
  | _ => 0

theorem ahead_outside {l : Loc t} (h : inSend t l = none) : (phase t l).ahead = 0 := by
  obtain ⟨h1, h2⟩ := phase_outside h
  cases hp : phase t l <;> simp_all [Phase.ahead]

theorem ahead_enters {l : Loc t} (h : Enters (inSend t l)) : (phase t l).ahead = 0 := by
  obtain h | h := h
  · exact ahead_outside h
  · rw [phase_inSend h]
    rfl

theorem sent_none {S G M T L : Type} {o : Op S G M T L} (h : o.isSendto = false) (ok : Bool) :
    o.sent ok = none := by
  cases o <;> first | rfl | cases h

/-- A message that is sent at the first try is counted next. -/
theorem ahead_dest {l : Loc t} {g : Shared} (hr : ∀ n, inSend t l ≠ some (.sleep n))
    (hd : (code t l).isSendto = true → ok = true) :
    (phase t ((code t l).dest l g ok)).ahead + (if phase t l = .atCount then 1 else 0) =
      (phase t l).ahead + ((code t l).sent ok).toList.length := by
  cases h : inSend t l with
  | none =>
    obtain ⟨hs, he⟩ := inSend_none h g ok
    rw [ahead_enters he, ahead_outside h, sent_none hs, if_neg (phase_outside h).2]
    rfl
  | some p =>
    obtain ⟨m, pc, k, hcode, hpc, hk⟩ := inSend_code h
    have hphase : ∀ q, phase t (pc q) = q.phase := fun q => phase_inSend (hpc q)
    rw [phase_inSend h]
    rw [hcode] at hd ⊢
    cases p with
    | sendto numsec =>
      obtain rfl := hd rfl
      simp only [sendMesg, Op.dest, Op.sent, if_true, hphase]
      rfl
    | sleep n => exact absurd h (hr n)
    | unlockSock =>
      simp only [sendMesg, Op.dest, Op.sent, ahead_outside hk]
      rfl
    | _ =>
      simp only [sendMesg, Op.dest, Op.sent, hphase]
      rfl

/-- No call of `send_mesg` sleeps before another try. -/
def FirstTry (s : State) : Prop := ∀ t n, inSend t (s.loc t) ≠ some (.sleep n)

theorem enters_ne {o : Option SendPc} (h : Enters o) (n : ℕ) : o ≠ some (.sleep n) := by
  obtain rfl | rfl := h <;> nofun

theorem interruptible_outside {l : Loc t} (h : (code t l).interruptible = true)
    (hr : ∀ n, inSend t l ≠ some (.sleep n)) : inSend t l = none := by
  cases hin : inSend t l with
  | none => rfl
  | some p =>
    obtain ⟨m, pc, k, hcode, _⟩ := inSend_code hin
    rw [hcode] at h
    cases p with
    | sleep n => exact absurd hin (hr n)
    | _ => cases h

theorem firstTry_step (hs : sistema.Step s a s') (hd : Delivers a) (h : FirstTry s) :
    FirstTry s' := by
  intro u n
  refine step_slice hs u (I := fun l _ => inSend u l ≠ some (.sleep n)) (h u n) ?_ ?_ ?_ ?_ ?_
  · rintro ok rfl _ _
    have hop : sistema.op s u = code u (s.loc u) := rfl
    rw [hop]
    cases hin : inSend u (s.loc u) with
    | none => exact enters_ne (inSend_none hin s.glob ok).2 n
    | some p =>
      obtain ⟨m, pc, k, hcode, hpc, hk⟩ := inSend_code hin
      have hd : (code u (s.loc u)).isSendto = true → ok = true := hd
      rw [hcode] at hd ⊢
      cases p with
      | sendto numsec =>
        obtain rfl := hd rfl
        simp [sendMesg, Op.dest, hpc]
      | sleep n' => exact absurd hin (h u n')
      | unlockSock => simp [sendMesg, Op.dest, hk]
      | _ => simp [sendMesg, Op.dest, hpc]
  · intro _ _ _ _ _
    exact h u n
  · intro _ hi
    exact enters_ne (inSend_none (interruptible_outside hi (h u)) s.glob true).2 n
  · intro l _ hl
    cases u with
    | main =>
      intro hn
      cases hn
    | _ => cases hl
  · intro _ _
    exact h u n

/-! ## Alarms -/

/-- The comparison of an alarm with a code. -/
def testedCode : Label → Option Alarm
  | .exec .sigHandlerManual (.testCode c) _ => some c
  | _ => none

/-- The handler takes the branch of a code. -/
def Handles (c : Alarm) (s : State) (a : Label) : Prop :=
  testedCode a = some c ∧ s.glob.alarma = c.code

instance (c : Alarm) (s : State) (a : Label) : Decidable (Handles c s a) :=
  inferInstanceAs (Decidable (_ ∧ _))

/-- Neither `terminte_program` nor a restart of the engine begins. -/
def Calm (s : State) (a : Label) : Prop := NoInt a ∧ ¬ Handles .c101 s a ∧ ¬ Handles .c102 s a

instance (s : State) (a : Label) : Decidable (Calm s a) := inferInstanceAs (Decidable (_ ∧ _))

theorem managing_dest {l : ManualPc} {g : Shared} {ok : Bool}
    (h : ((sigHandlerManual l).dest l g ok).managing = true) : l.managing = true ∨
      ∃ c, l = .testCode c ∧ g.alarma = c.code ∧ (c = .c101 ∨ c = .c102) := by
  cases l with
  | manage => exact .inl rfl
  | send p =>
    have : ((sigHandlerManual (.send p)).dest (.send p) g ok).managing = false :=
      sendMesg_dest (A := fun k => ManualPc.managing k = false) (fun _ => rfl) rfl p
    cases this.symm.trans h
  | alarm c p =>
    have : ((sigHandlerManual (.alarm c p)).dest (.alarm c p) g ok).managing = false :=
      sendMesg_dest (A := fun k => ManualPc.managing k = false) (fun _ => rfl)
        (by split <;> rfl) p
    cases this.symm.trans h
  | create c p =>
    cases p with
    | storeThread i t => obtain rfl | rfl := gyro_cases i <;> cases h
    | _ => cases h
  | cancelGyro c i => obtain rfl | rfl := gyro_cases i <;> cases h
  | testCode c =>
    simp only [sigHandlerManual, Op.dest] at h
    split at h
    · rename_i hc
      refine .inr ⟨c, rfl, hc, ?_⟩
      cases c with
      | c101 => exact .inl rfl
      | c102 => exact .inr rfl
      | c103 | c104 => cases h
    · cases c <;> cases h
  | head | test =>
    simp only [sigHandlerManual, Op.dest] at h
    split at h <;> cases h
  | _ => cases h

variable {C : State → Label → Prop} {inp : Input} {tr : List Label}

theorem never_managing (h : sistema.Run C (init inp) tr s) (hC : ∀ s a, C s a → Calm s a) :
    (s.loc .sigHandlerManual).managing = false := by
  refine h.invariant (I := fun s => (s.loc .sigHandlerManual).managing = false) rfl ?_
  intro s a s' hm hs hc
  refine step_slice hs .sigHandlerManual (I := fun l _ => ManualPc.managing l = false) hm
    ?_ ?_ ?_ ?_ ?_
  · rintro ok rfl _ _
    refine Bool.eq_false_iff.mpr fun hm' => ?_
    obtain hl | ⟨c, hl, hg, hcode⟩ := managing_dest hm'
    · cases hm.symm.trans hl
    · have htest : testedCode (.exec .sigHandlerManual (s.loc .sigHandlerManual) ok) = some c := by
        rw [hl]
        rfl
      obtain ⟨_, h1, h2⟩ := hC _ _ hc
      obtain rfl | rfl := hcode
      · exact h1 ⟨htest, hg⟩
      · exact h2 ⟨htest, hg⟩
  · intro _ _ _ _ _
    exact hm
  · intro _ hi
    refine Bool.eq_false_iff.mpr fun hm' => ?_
    obtain hl | ⟨c, hl, _⟩ := managing_dest hm'
    · cases hm.symm.trans hl
    · have hop : sistema.op s .sigHandlerManual = sigHandlerManual (.testCode c) :=
        congrArg sigHandlerManual hl
      rw [hop] at hi
      cases hi
  · intro l _ hl
    cases hl
  · intro _ _
    exact hm

theorem single_engine (h : sistema.Run C (init inp) tr s) (hC : ∀ s a, C s a → Calm s a) :
    s.glob.engines ≤ 1 := by
  induction h with
  | nil => exact Nat.zero_le _
  | @snoc tr s s' a hrun hs hc ih =>
    obtain he | ⟨he, h0 | ⟨c, ok, rfl⟩⟩ := engines_step hs (engineInv hrun)
    · omega
    · omega
    · have := never_managing hrun hC
      rw [hs.exec_inv.1] at this
      cases this

theorem calm_steady (h : sistema.Run C (init inp) tr s) (hC : ∀ s a, C s a → Calm s a) :
    sistema.Run (fun s a => Steady s a ∧ C s a) (init inp) tr s := by
  refine h.strengthen fun tr s a s' hrun hs hc => ⟨⟨(hC s a hc).1, fun hcan => ?_⟩, hc⟩
  unfold cancelsEngine at hcan
  split at hcan
  · have := never_managing hrun hC
    rw [hs.exec_inv.1] at this
    cases this
  · cases hcan

/-- With one engine the reporters never change. -/
theorem reporter_single {g g' : Shared} (h : g.engines ≤ 1) (h' : g'.engines ≤ 1) (i : Slot) :
    reporter g i = reporter g' i := by
  by_cases hi : i = 6
  · subst hi
    rw [reporter_six, reporter_six]
    congr 1
    omega
  · exact reporter_fixed hi g g'

theorem reporter_of_running {i : Slot} (hi : EngineInv s) (h1 : s.glob.engines ≤ 1)
    (hr : s.Running t) (hs : slotOf t = some i) : t = reporter s.glob i := by
  obtain he | ⟨n, rfl, rfl⟩ := eq_reporter hs s.glob
  · exact he
  · by_cases hn : s.glob.engines ≤ n
    · cases (hi.unborn n hn).1.symm.trans hr.2
    · rw [reporter_six]
      congr 1
      omega

end Sistema
