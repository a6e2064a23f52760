import SistemasOperativos.Sistema.Ticks
import SistemasOperativos.Sistema.Schedules

/-!
# Touchdown

With both gyroscopes at zero nothing climbs, and the landing check reads the height
once in each round in which the engine lowers it.
-/
namespace Sistema

open Threads Threads.Program

variable {s s' : State} {a : Label} {t u : Tid} {ok : Bool} {tr : List Label} {inp : Input}
variable {b : Barrier.Ledger Slot} {d₀ : Int}

/-- Calm, with both gyroscopes at zero. -/
def Level (s : State) (a : Label) : Prop := Calm s a ∧ ∀ i, s.glob.gyros i = 0

instance (s : State) (a : Label) : Decidable (Level s a) := inferInstanceAs (Decidable (_ ∧ _))

/-! ## Nothing climbs -/

/-- The branch of the restart. -/
def RestartPc.climbs : RestartPc → Bool
  | .unlockAction climb | .unlockGs _ climb | .unlockDist climb => climb
  | .change _ | .cancelGyro _ | .testEngine | .startEngine | .contEngine | .contGoUp => true
  | _ => false

/-- The branches in which `SIGCONT` is sent. -/
def rouses : (t : Tid) → Loc t → Bool
  | .signalGyro _, .wake => true
  | .signalRestartLanding, l => l.climbs
  | _, _ => false

theorem signals_cont {l : Loc t} {g : Shared} (h : (code t l).signals .cont g = some u) :
    rouses t l = true := by
  have hc := code_calls t l
  generalize code t l = o at h hc
  cases hc with
  | plain hp => cases (hp.signals .cont g).symm.trans h
  | wake | contEngine | contGoUp => rfl
  | _ => cases h

theorem restart_level {l : RestartPc} {g : Shared} (hg : ∀ i, g.gyros i = 0)
    (h : l.climbs = false) : ((signalRestartLanding l).dest l g ok).climbs = false := by
  cases l with
  | send m p =>
    exact sendMesg_dest (A := fun k => RestartPc.climbs k = false) (fun _ => rfl) rfl p
  | testGyro i =>
    simp only [signalRestartLanding, Op.dest, hg]
    obtain rfl | rfl := gyro_cases i <;> rfl
  | lockGs i => obtain rfl | rfl := gyro_cases i <;> rfl
  | unlockGs i climb =>
    obtain rfl : climb = false := h
    obtain rfl | rfl := gyro_cases i <;> rfl
  | unlockAction climb | unlockDist climb =>
    obtain rfl : climb = false := h
    rfl
  | head | testAction =>
    simp only [signalRestartLanding, Op.dest]
    split <;> rfl
  | change | cancelGyro | testEngine | startEngine | contEngine | contGoUp => cases h
  | _ => rfl

theorem signalGyro_level {i : Gyro} {l : SignalGyroPc} {g : Shared} (hg : ∀ i, g.gyros i = 0) :
    (signalGyro i l).dest l g ok ≠ .wake := by
  intro hk
  cases l with
  | send m p =>
    exact sendMesg_dest (A := fun k => k ≠ SignalGyroPc.wake) (by simp) (by simp) p hk
  | check => simp [signalGyro, Op.dest, hg] at hk
  | head =>
    simp only [signalGyro, Op.dest] at hk
    split at hk <;> cases hk
  | _ => cases hk

theorem rouses_dest {l : Loc t} {g : Shared} (hg : ∀ i, g.gyros i = 0) (h : rouses t l = false) :
    rouses t ((code t l).dest l g ok) = false := by
  cases t with
  | signalGyro i =>
    have hne : (signalGyro i l).dest l g ok ≠ .wake := signalGyro_level hg
    show rouses (.signalGyro i) ((signalGyro i l).dest l g ok) = false
    generalize (signalGyro i l).dest l g ok = k at hne
    cases k with
    | wake => exact absurd rfl hne
    | _ => rfl
  | signalRestartLanding => exact restart_level hg h
  | _ => rfl

/-- Up to its first `pause`. -/
def GoUpPc.first : GoUpPc → Bool
  | .callFirst | .firstPause => true
  | _ => false

/-- Nobody sends `SIGCONT`, and `go_up_30m` does not get past its first `pause`. -/
structure LevelInv (s : State) : Prop where
  quiet : ∀ t, rouses t (s.loc t) = false
  cont : (s.thr .goUp30m).cont = false
  first : (s.loc .goUp30m).first = true

theorem first_dest {l : GoUpPc} (h : l.first = true) {σ : Sem → ℕ} (he : (goUp30m l).Enabled σ)
    {g : Shared} : ((goUp30m l).dest l g ok).first = true := by
  cases l with
  | callFirst => rfl
  | firstPause => exact he.elim
  | _ => cases h

theorem levelInv_init (inp : Input) : LevelInv (init inp) where
  quiet t := by cases t <;> rfl
  cont := rfl
  first := rfl

theorem levelInv_step (hs : sistema.Step s a s') (hg : ∀ i, s.glob.gyros i = 0)
    (h : LevelInv s) : LevelInv s' where
  quiet t := by
    obtain he | ⟨ok, he⟩ | he := step_loc hs t
    · exact he ▸ h.quiet t
    · exact he ▸ rouses_dest hg (h.quiet t)
    · cases t with
      | main => rfl
      | _ => cases he
  cont := by
    by_contra hc
    obtain ⟨t, _, _, ho⟩ := newly_continued hs h.cont (by simpa using hc)
    cases (h.quiet t).symm.trans (signals_cont ho)
  first := by
    refine step_slice hs .goUp30m (I := fun l _ => GoUpPc.first l = true) h.first ?_ ?_ ?_ ?_ ?_
    · intro ok _ _ he
      exact first_dest h.first he
    · intro _ _ _ _ _
      exact h.first
    · rintro rfl _
      cases hs with
      | cont _ hcont => cases h.cont.symm.trans hcont
    · intro l _ hl
      cases hl
    · intro _ _
      exact h.first

theorem levelInv_run (h : sistema.Run Level (init inp) tr s) : LevelInv s :=
  h.invariant (levelInv_init inp) fun _ _ _ hi hs hc => levelInv_step hs hc.2 hi

theorem level_ascends (hs : sistema.Step s a s') (h : LevelInv s) : ascends a = false := by
  cases hs with
  | @exec t ok _ _ _ =>
    cases t with
    | goUp30m =>
      have hf := h.first
      generalize s.loc .goUp30m = l at hf
      cases l with
      | test time => cases hf
      | _ => rfl
    | _ => rfl
  | _ => rfl

/-- The height of a level run is the start less the ticks. -/
theorem level_distance (h : sistema.Run Level (init inp) tr s) :
    s.glob.distance + tr.countP descends = inp.distancia := by
  have hrun := distance_run h
  have h0 : tr.countP ascends = 0 := by
    clear hrun
    induction h with
    | nil => rfl
    | snoc hr hs _ ih =>
      rw [List.countP_append, ih, List.countP_singleton, level_ascends hs (levelInv_run hr)]
      rfl
  rw [h0] at hrun
  simpa [init] using hrun

/-! ## The landing check -/

/-- The landing has been declared. -/
def LandingPc.down : LandingPc → Bool
  | .unlockTouch _ _ | .report _ _ | .sleep | .kill | .finished => true
  | _ => false

/-- What the check knows after `took` tokens, from its local `dist` or from having
found it above the ground. -/
def LandingPc.Ok (d₀ height : Int) (took : ℕ) : LandingPc → Prop
  | .unlockDist d | .lockGs _ d | .testDown _ d => height ≤ d ∧ d + took ≤ d₀
  | .touch d => height ≤ d ∧ d ≤ 0
  | .testLow _ _ | .change _ _ | .cancelGyro _ _ | .engineOff _ | .unlockGs _ _ _ => took < d₀
  | .send _ _ | .waitMsg => took < d₀
  | _ => True

theorem LandingPc.Ok.mono {l : LandingPc} {h h' : Int} {n : ℕ} (hl : l.Ok d₀ h n) (hle : h' ≤ h) :
    l.Ok d₀ h' n := by
  cases l with
  | unlockDist | lockGs | testDown | touch => exact ⟨hle.trans hl.1, hl.2⟩
  | _ => exact hl

theorem ok_dest {l : LandingPc} {g : Shared} {n : ℕ} (hg : ∀ i, g.gyros i = 0)
    (hn : g.distance + n ≤ d₀) (hl : l.Ok d₀ g.distance n) :
    ((signalLandingCheck l).dest l g ok).Ok d₀ g.distance n := by
  cases l with
  | send m p =>
    have hsend : ∀ q, (LandingPc.send m q).Ok d₀ g.distance n := fun _ => hl
    have hwait : LandingPc.waitMsg.Ok d₀ g.distance n := hl
    exact sendMesg_dest (A := LandingPc.Ok d₀ g.distance n) hsend hwait p
  | report d p =>
    have hreport : ∀ q, (LandingPc.report d q).Ok d₀ g.distance n := fun _ => trivial
    have hsleep : LandingPc.sleep.Ok d₀ g.distance n := trivial
    exact sendMesg_dest (A := LandingPc.Ok d₀ g.distance n) hreport hsleep p
  | change d p => cases p <;> exact hl
  | readDist => exact ⟨le_rfl, hn⟩
  | testDown i d =>
    obtain ⟨hle, hd⟩ := hl
    simp only [signalLandingCheck, Op.dest, hg, and_true]
    by_cases hd0 : d ≤ 0
    · rw [if_pos hd0]
      split
      · exact ⟨hle, hd⟩
      · exact ⟨hle, hd0⟩
    · rw [if_neg hd0]
      show (n : Int) < d₀
      omega
  | testLow i d =>
    simp only [signalLandingCheck, Op.dest, hg, if_true]
    split <;> exact hl
  | lockGs i d | cancelGyro i d | unlockGs i d act =>
    obtain rfl | rfl := gyro_cases i <;> exact hl
  | unlockTouch i d => obtain rfl | rfl := gyro_cases i <;> trivial
  | head =>
    simp only [signalLandingCheck, Op.dest]
    split <;> trivial
  | touch | testcancel | lockDist | sleep | kill | finished | waitMsg => trivial
  | _ => exact hl

/-- `is_on` is cleared on the way down, and stays so. -/
theorem down_dest {l : LandingPc} {g : Shared} (h : g.isOn = !l.down) :
    ((signalLandingCheck l).glob g).isOn = !((signalLandingCheck l).dest l g ok).down := by
  cases l with
  | send m p =>
    have hd : ((signalLandingCheck (.send m p)).dest (.send m p) g ok).down = false :=
      sendMesg_dest (A := fun k => LandingPc.down k = false) (fun _ => rfl) rfl p
    rw [hd]
    cases p <;> exact h
  | report d p =>
    have hd : ((signalLandingCheck (.report d p)).dest (.report d p) g ok).down = true :=
      sendMesg_dest (A := fun k => LandingPc.down k = true) (fun _ => rfl) rfl p
    rw [hd]
    cases p <;> exact h
  | change d p => cases p <;> exact h
  | head =>
    have hon : g.isOn = true := h
    simp [signalLandingCheck, Op.dest, Op.glob, hon, LandingPc.down]
  | testDown i d =>
    have hon : g.isOn = true := h
    simp only [signalLandingCheck, Op.dest, Op.glob, hon]
    split
    · split <;> rfl
    · rfl
  | testLow i d =>
    have hon : g.isOn = true := h
    simp only [signalLandingCheck, Op.dest, Op.glob, hon]
    split
    · split
      · rfl
      · split <;> rfl
    · rfl
  | lockGs i d | cancelGyro i d | unlockGs i d act | unlockTouch i d =>
    obtain rfl | rfl := gyro_cases i <;> exact h
  | touch => rfl
  | _ => exact h

/-- Only the landing check clears `is_on`. -/
theorem isOn_other (ht : t ≠ .signalLandingCheck) (l : Loc t) (g : Shared) :
    ((code t l).glob g).isOn = g.isOn := by
  have hw := code_writes t l g
  generalize (code t l).glob g = g' at hw
  cases hw with
  | touch => exact absurd rfl ht
  | descend => rw [descend_eq]
  | _ => rfl

/-- The flag is never raised again. -/
theorem isOn_kept {l : Loc t} {g : Shared} (h : ((code t l).glob g).isOn = true) : g.isOn = true := by
  have hw := code_writes t l g
  generalize (code t l).glob g = g' at hw h
  cases hw with
  | touch => cases h
  | descend =>
    rw [descend_eq] at h
    exact h
  | _ => exact h

/-- The landing check against the height and the rounds. -/
structure LandingInv (d₀ : Int) (s : State) (b : Barrier.Ledger Slot) : Prop where
  ok : (s.loc .signalLandingCheck).Ok d₀ s.glob.distance (b.took 4)
  on : s.glob.isOn = !(s.loc .signalLandingCheck).down
  count : s.glob.isOn = true → b.count 4 ≤ d₀

theorem landing_of_slot (h : slotOf t = some 4) : t = .signalLandingCheck := by
  cases t with
  | signalGyro i => obtain rfl | rfl := gyro_cases i <;> cases h
  | signalLandingCheck => rfl
  | _ => cases h

/-- Steps of others, which leave the check where it is and never raise the rocket. -/
theorem LandingInv.frame (h : LandingInv d₀ s b)
    (hl : s'.loc .signalLandingCheck = s.loc .signalLandingCheck)
    (hon : s'.glob.isOn = s.glob.isOn) (hd : s'.glob.distance ≤ s.glob.distance)
    (hc : event a ≠ some (.count 4)) (ht : event a ≠ some (.take 4)) :
    LandingInv d₀ s' (b.record (event a)) where
  ok := by
    rw [hl, Barrier.Ledger.record_took_of_ne ht]
    exact h.ok.mono hd
  on := by
    rw [hl, hon]
    exact h.on
  count he := by
    rw [Barrier.Ledger.record_count_of_ne hc]
    exact h.count (hon ▸ he)

theorem landing_atCount {l : LandingPc} {n : ℕ} {height : Int} (hp : l.phase = .atCount)
    (hd : l.down = false) (h : l.Ok d₀ height n) : (n : Int) < d₀ := by
  cases l with
  | send m p => exact h
  | report => cases hd
  | _ => cases hp

theorem landing_atWait {l : LandingPc} (hp : l.phase = .atWait) : l = .waitMsg := by
  cases l with
  | send m p | report d p => exact absurd hp (sendPc_phase_ne p)
  | waitMsg => rfl
  | _ => cases hp

/-- A step of the check itself. -/
theorem landingInv_exec (hg : ∀ i, s.glob.gyros i = 0)
    (hs : sistema.Step s (.exec .signalLandingCheck (s.loc .signalLandingCheck) ok)
      (sistema.effect s .signalLandingCheck ok))
    (hn : s.glob.distance + b.took 4 ≤ d₀) (hb : BarrierInv s b) (h : LandingInv d₀ s b) :
    LandingInv d₀ (sistema.effect s .signalLandingCheck ok)
      (b.record (event (.exec .signalLandingCheck (s.loc .signalLandingCheck) ok))) := by
  have hop : sistema.op s .signalLandingCheck =
      signalLandingCheck (s.loc .signalLandingCheck) := rfl
  have hdist : (sistema.effect s .signalLandingCheck ok).glob.distance + 0 =
      s.glob.distance + 0 := distance_step hs
  have htake : event (.exec .signalLandingCheck (s.loc .signalLandingCheck) ok) = some (.take 4) ↔
      (s.loc .signalLandingCheck).phase = .atWait := event_take.trans (and_iff_left rfl)
  have hcount : event (.exec .signalLandingCheck (s.loc .signalLandingCheck) ok) =
      some (.count 4) ↔ (s.loc .signalLandingCheck).phase = .atCount :=
    event_count.trans (and_iff_left rfl)
  refine ⟨?_, ?_, fun he => ?_⟩
  · rw [Int.add_zero, Int.add_zero] at hdist
    rw [hdist, effect_loc_self, hop]
    by_cases hw : (s.loc .signalLandingCheck).phase = .atWait
    · rw [landing_atWait hw]
      trivial
    · rw [Barrier.Ledger.record_took_of_ne (mt htake.mp hw)]
      exact ok_dest hg hn h.ok
  · rw [effect_glob, effect_loc_self, hop]
    exact down_dest h.on
  · rw [effect_glob] at he
    have hon : s.glob.isOn = true := isOn_kept he
    by_cases hc : (s.loc .signalLandingCheck).phase = .atCount
    · have hdown : (s.loc .signalLandingCheck).down = false := by
        have := h.on
        rw [hon] at this
        simpa using this.symm
      have hlt := landing_atCount hc hdown h.ok
      have hphase : phaseAt s 4 = .atCount := hc
      have hearly := hb.early 4 (by rw [hphase]; rfl)
      rw [hcount.mpr hc, Barrier.Ledger.record_count]
      omega
    · rw [Barrier.Ledger.record_count_of_ne (mt hcount.mp hc)]
      exact h.count hon

/-- A signal that ends a sleep of the check. -/
theorem landingInv_wake (hg : ∀ i, s.glob.gyros i = 0) (hn : s.glob.distance + b.took 4 ≤ d₀)
    (h : LandingInv d₀ s b) : LandingInv d₀ (sistema.wake s .signalLandingCheck) b := by
  have hop : sistema.op s .signalLandingCheck =
      signalLandingCheck (s.loc .signalLandingCheck) := rfl
  by_cases hi : (sistema.op s .signalLandingCheck).interruptible = true
  · refine ⟨?_, ?_, h.count⟩
    · rw [wake_loc_self, if_pos hi]
      exact ok_dest hg hn h.ok
    · have hd : ((signalLandingCheck (s.loc .signalLandingCheck)).glob s.glob).isOn =
          !((signalLandingCheck (s.loc .signalLandingCheck)).dest
            (s.loc .signalLandingCheck) s.glob true).down := down_dest h.on
      rw [← hop, Op.interruptible_glob hi] at hd
      rw [wake_loc_self, if_pos hi]
      exact hd
  · have hl : (sistema.wake s .signalLandingCheck).loc .signalLandingCheck =
        s.loc .signalLandingCheck := by rw [wake_loc_self, if_neg hi]
    exact ⟨by rw [hl]; exact h.ok, by rw [hl]; exact h.on, h.count⟩

theorem landingInv_init (hd : 0 ≤ inp.distancia) :
    LandingInv inp.distancia (init inp) (Barrier.ledger []) where
  ok := trivial
  on := rfl
  count _ := hd

theorem landingInv_step (hs : sistema.Step s a s') (hc : Level s a) (hl : LevelInv s)
    (hn : s.glob.distance + b.took 4 ≤ d₀) (hb : BarrierInv s b) (h : LandingInv d₀ s b) :
    LandingInv d₀ s' (b.record (event a)) := by
  have hd : s'.glob.distance ≤ s.glob.distance := by
    have hstep := distance_step hs
    rw [level_ascends hs hl] at hstep
    simp only [Bool.false_eq_true, if_false, Int.add_zero] at hstep
    split at hstep <;> omega
  cases hs with
  | @exec t ok hr hcc he =>
    by_cases ht : t = .signalLandingCheck
    · subst ht
      exact landingInv_exec hc.2 (.exec ok hr hcc he) hn hb h
    · exact h.frame (effect_loc_of_ne (Ne.symm ht)) (isOn_other ht _ _) hd
        (fun he => ht (landing_of_slot (event_count.mp he).2))
        fun he => ht (landing_of_slot (event_take.mp he).2)
  | die => exact h.frame die_loc rfl hd nofun nofun
  | @cont t _ _ =>
    by_cases ht : t = .signalLandingCheck
    · subst ht
      exact landingInv_wake hc.2 hn h
    · exact h.frame (wake_loc_of_ne (Ne.symm ht)) rfl hd nofun nofun
  | int => exact hc.1.1.elim
  | env e => cases e <;> exact h.frame rfl rfl hd nofun nofun

theorem level_releases (h : sistema.Run Level (init inp) tr s) :
    (Barrier.ledger (events tr)).releases ≤ tr.countP descends ∧
      tr.countP descends ≤ (Barrier.ledger (events tr)).releases + 1 :=
  ticks_bounds descends_once h fun _ _ hc => hc.1

theorem landingInv_run (hd : 0 ≤ inp.distancia) (h : sistema.Run Level (init inp) tr s) :
    LandingInv inp.distancia s (Barrier.ledger (events tr)) := by
  induction h with
  | nil => exact landingInv_init hd
  | @snoc tr s s' a hrun hs hc ih =>
    have hb := calm_barrier hrun fun _ _ hc => hc.1
    have htook := hb.ok.took_le 4
    have hposted := hb.ok.posted_le 4
    have hticks := (level_releases hrun).1
    have hdist := level_distance hrun
    rw [events_snoc, Barrier.ledger_record]
    exact landingInv_step hs hc (levelInv_run hrun) (by omega) hb ih

/-- While the controller is on, the rocket is at most one metre below the ground, and
the landing is declared on the ground or one metre below it. -/
theorem touchdown (hd : 0 ≤ inp.distancia) (h : sistema.Run Level (init inp) tr s) :
    (s.glob.isOn = true → -1 ≤ s.glob.distance) ∧
      ∀ d ok s', sistema.Step s (.exec .signalLandingCheck (.touch d) ok) s' →
        s'.glob.distance = 0 ∨ s'.glob.distance = -1 := by
  have hinv := landingInv_run hd h
  have hb := calm_barrier h fun _ _ hc => hc.1
  have hon : s.glob.isOn = true → -1 ≤ s.glob.distance := by
    intro hon
    have hcount := hinv.count hon
    have hrel := hb.ok.releases_le 4
    have hticks := (level_releases h).2
    have hdist := level_distance h
    omega
  refine ⟨hon, fun d ok s' hs => ?_⟩
  have hl : s.loc .signalLandingCheck = .touch d := hs.exec_inv.1
  have hlow := hon (by rw [hinv.on, hl]; rfl)
  have hok := hinv.ok
  rw [hl] at hok
  obtain ⟨hle, hd0⟩ := hok
  have hstep : s'.glob.distance + 0 = s.glob.distance + 0 := distance_step hs
  omega

/-- From one metre: the check reads the height after the tick of the second round. -/
theorem touchdown_below : ∃ tr s s', sistema.Run Level (init ⟨1, 100, fun _ => 0, 0⟩) tr s ∧
    sistema.Step s (.exec .signalLandingCheck (.touch (-1)) true) s' ∧
    (s.glob.isOn = true → -1 ≤ s.glob.distance) ∧
    (s'.glob.distance = 0 ∨ s'.glob.distance = -1) := by
  have hrun : ∃ tr s, sistema.Run Level (init ⟨1, 100, fun _ => 0, 0⟩) tr s ∧
      s.Running .signalLandingCheck ∧ s.loc .signalLandingCheck = .touch (-1) := by
    refine run_of_check (boot ++ burst .signalLandingCheck 23 ++ engineReport 0 ++ manualReport ++
      gyroReports ++ burst .signalRestartLanding 19 ++ burst .signalExploteRocket 14 ++
      burst .main 12 ++ burst engine 19 ++ burst .signalLandingCheck 10) ?_
    decide +kernel
  obtain ⟨tr, s, hr, hrun, hl⟩ := hrun
  have hs : sistema.Step s (.exec .signalLandingCheck (.touch (-1)) true)
      (sistema.effect s .signalLandingCheck true) := step_at hrun hl rfl trivial
  obtain ⟨hon, htouch⟩ := touchdown (by decide) hr
  exact ⟨tr, s, _, hr, hs, hon, htouch _ _ _ hs⟩

end Sistema
