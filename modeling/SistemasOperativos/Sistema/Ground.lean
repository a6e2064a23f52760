import SistemasOperativos.Sistema.Ticks
import SistemasOperativos.Sistema.Schedules

/-!
# Landing on the ground

The landing check decides on a copy of the height that it took before it waited for the
gyroscopes, and on gyroscopes that others write while it decides.
-/
namespace Sistema

open Threads Threads.Program

variable {s s' : State} {a : Label} {tr : List Label} {inp : Input} {ok : Bool} {d : Int}

/-- The copy of the height, from its reading to `is_on = 0`. -/
def LandingPc.copy : LandingPc → Option Int
  | .unlockDist d | .lockGs _ d | .testDown _ d | .touch d => some d
  | _ => none

/-- The gyroscope has been found at zero on the way to `is_on = 0`. -/
def LandingPc.level : LandingPc → Gyro → Bool
  | .testDown i _, j => j < i
  | .touch _, _ => true
  | _, _ => false

/-- A gyroscope is set off zero. -/
def tilts : Label → Gyro → Bool
  | .env (.gyro j v), i => j = i && v ≠ 0
  | .exec (.gyroscopeThread j _) (.store v) _, i => j = i && v ≠ 0
  | _, _ => false

/-- Nothing that the check has read turns against it before `is_on = 0`: from a copy at
or below zero on, no addition takes the height above zero, and no gyroscope that it
found at zero is set off zero. -/
def Undisturbed (s : State) (a : Label) : Prop :=
  ((∃ d ∈ (s.loc .signalLandingCheck).copy, d ≤ 0) → ascends a = true →
    s.glob.distance + rateGoUp ≤ 0) ∧
  ∀ i, (s.loc .signalLandingCheck).level i = true → tilts a i = false

instance (s : State) (a : Label) : Decidable (Undisturbed s a) :=
  inferInstanceAs (Decidable ((_ → _ → _) ∧ _))

/-- What the check has read still holds. -/
structure Grounded (l : LandingPc) (g : Shared) : Prop where
  below : ∀ d ∈ l.copy, d ≤ 0 → g.distance ≤ 0
  low : ∀ i, l.level i = true → ∀ d ∈ l.copy, d ≤ 0
  level : ∀ i, l.level i = true → g.gyros i = 0

/-- Before it looks at a gyroscope the check knows its copy alone. -/
theorem Grounded.of_below {l : LandingPc} {g : Shared} (hl : ∀ i, l.level i = false)
    (h : ∀ d ∈ l.copy, d ≤ 0 → g.distance ≤ 0) : Grounded l g := by
  refine ⟨h, fun i hi => ?_, fun i hi => ?_⟩
  · cases (hl i).symm.trans hi
  · cases (hl i).symm.trans hi

theorem Grounded.of_none {l : LandingPc} {g : Shared} (h : l.copy = none) : Grounded l g := by
  refine .of_below (fun i => ?_) fun d hd => ?_
  · cases l with
    | testDown | touch => cases h
    | _ => rfl
  · rw [h] at hd
    cases hd

theorem Grounded.congr {l : LandingPc} {g g' : Shared} (h : Grounded l g)
    (hd : g'.distance = g.distance) (hg : g'.gyros = g.gyros) : Grounded l g' := by
  refine ⟨?_, h.low, ?_⟩
  · rw [hd]
    exact h.below
  · rw [hg]
    exact h.level

/-- The check itself keeps what it has read, and enters `is_on = 0` on nothing else. -/
theorem grounded_dest {l : LandingPc} {g : Shared} (h : Grounded l g) :
    Grounded ((signalLandingCheck l).dest l g ok) g := by
  cases l with
  | head =>
    simp only [signalLandingCheck, Op.dest]
    split <;> exact .of_none rfl
  | readDist =>
    refine .of_below (fun _ => rfl) fun d hd hle => ?_
    cases hd
    exact hle
  | unlockDist d => exact .of_below (fun _ => rfl) h.below
  | lockGs i d =>
    obtain rfl | rfl := gyro_cases i
    · exact .of_below (fun _ => rfl) h.below
    · exact .of_below (fun j => decide_eq_false (Fin.not_lt_zero j)) h.below
  | testDown i d =>
    simp only [signalLandingCheck, Op.dest]
    by_cases hz : d ≤ 0 ∧ g.gyros i = 0
    · rw [if_pos hz]
      have hlow : ∀ d' ∈ some d, d' ≤ 0 := by
        intro d' hd
        cases hd
        exact hz.1
      obtain rfl | rfl := gyro_cases i
      · refine ⟨h.below, fun _ _ => hlow, fun j hj => ?_⟩
        obtain rfl | rfl := gyro_cases j
        · exact hz.2
        · cases hj
      · refine ⟨h.below, fun _ _ => hlow, fun j _ => ?_⟩
        obtain rfl | rfl := gyro_cases j
        · exact h.level 0 rfl
        · exact hz.2
    · rw [if_neg hz]
      exact .of_none rfl
  | testLow i d =>
    simp only [signalLandingCheck, Op.dest]
    split
    · split
      · exact .of_none rfl
      · split <;> exact .of_none rfl
    · exact .of_none rfl
  | report d p =>
    exact sendMesg_dest (A := fun l => Grounded l g) (fun _ => .of_none rfl) (.of_none rfl) p
  | send m p =>
    exact sendMesg_dest (A := fun l => Grounded l g) (fun _ => .of_none rfl) (.of_none rfl) p
  | change d p => cases p <;> exact .of_none rfl
  | cancelGyro i d | unlockTouch i d | unlockGs i d act =>
    obtain rfl | rfl := gyro_cases i <;> exact .of_none rfl
  | _ => exact .of_none rfl

/-- A gyroscope at zero stays there unless it is tilted. -/
theorem gyros_step (hs : sistema.Step s a s') {i : Gyro} (hz : s.glob.gyros i = 0)
    (ht : tilts a i = false) : s'.glob.gyros i = 0 := by
  have hput : ∀ (j : Gyro) (v : Int), (j = i && v ≠ 0) = false → put s.glob.gyros j v i = 0 := by
    intro j v hv
    by_cases hj : j = i
    · subst hj
      simpa [put] using hv
    · simp [put, Function.update_of_ne (Ne.symm hj), hz]
  obtain ⟨t, l, ok, rfl, -, -, hw⟩ | ⟨w, rfl, hw⟩ | hw := step_writes hs
  · generalize s'.glob = g' at hw
    cases hw with
    | turn => exact hput _ _ ht
    | descend =>
      rw [descend_eq]
      exact hz
    | _ => exact hz
  · rw [hw]
    cases w with
    | gyro j v => exact hput j v ht
    | alarma v => exact hz
  · rw [hw]
    exact hz

theorem landing_glob (l : LandingPc) (g : Shared) :
    ((signalLandingCheck l).glob g).distance = g.distance ∧
      ((signalLandingCheck l).glob g).gyros = g.gyros := by
  have hw := code_writes .signalLandingCheck l g
  generalize hg : (signalLandingCheck l).glob g = g'
  have hg' : (code .signalLandingCheck l).glob g = g' := hg
  rw [hg'] at hw
  cases hw <;> exact ⟨rfl, rfl⟩

theorem grounded_step (hs : sistema.Step s a s') (hc : Undisturbed s a)
    (h : Grounded (s.loc .signalLandingCheck) s.glob) :
    Grounded (s'.loc .signalLandingCheck) s'.glob := by
  have hkeep : Grounded (s.loc .signalLandingCheck) s'.glob := by
    refine ⟨fun d hd hle => ?_, h.low, fun i hi => gyros_step hs (h.level i hi) (hc.2 i hi)⟩
    have hb := h.below d hd hle
    have hup := hc.1 ⟨d, hd, hle⟩
    have hstep := distance_step hs
    cases ha : ascends a with
    | true =>
      have := hup ha
      simp only [ha, if_true] at hstep
      split at hstep <;> omega
    | false =>
      simp only [ha] at hstep
      split at hstep <;> simp at hstep <;> omega
  refine step_slice hs .signalLandingCheck (I := Grounded) h ?_ ?_ ?_ ?_ ?_
  · intro ok _ _ _
    have hglob := landing_glob (s.loc .signalLandingCheck) s.glob
    exact (grounded_dest h).congr hglob.1 hglob.2
  · rintro t ok - rfl -
    obtain ⟨-, -, -, -, rfl⟩ := hs.exec_inv
    exact hkeep
  · intro _ _
    exact grounded_dest h
  · intro l _ hl
    cases hl
  · rintro e rfl
    cases hs
    exact hkeep

theorem grounded_run (h : sistema.Run Undisturbed (init inp) tr s) :
    Grounded (s.loc .signalLandingCheck) s.glob :=
  h.invariant (I := fun s => Grounded (s.loc .signalLandingCheck) s.glob) (.of_none rfl)
    fun _ _ _ hi hs hc => grounded_step hs hc hi

/-- When nothing turns against the check, it declares a landing only on the ground. -/
theorem declared_on_ground (h : sistema.Run Undisturbed (init inp) tr s)
    (hs : sistema.Step s (.exec .signalLandingCheck (.touch d) ok) s') :
    s.glob.distance ≤ 0 ∧ ∀ i, s.glob.gyros i = 0 := by
  have hg := grounded_run h
  rw [hs.exec_inv.1] at hg
  exact ⟨hg.below d rfl (hg.low 0 rfl d rfl), fun i => hg.level i rfl⟩

/-- A landing on the ground. -/
theorem declared_at_zero : ∃ tr s s', sistema.Run Undisturbed (init ⟨0, 100, fun _ => 0, 0⟩) tr s ∧
    sistema.Step s (.exec .signalLandingCheck (.touch 0) true) s' ∧
    s.glob.distance ≤ 0 ∧ ∀ i, s.glob.gyros i = 0 := by
  have hrun : ∃ tr s, sistema.Run Undisturbed (init ⟨0, 100, fun _ => 0, 0⟩) tr s ∧
      s.Running .signalLandingCheck ∧ s.loc .signalLandingCheck = .touch 0 := by
    refine run_of_check (boot ++ burst .signalLandingCheck 9) ?_
    decide +kernel
  obtain ⟨tr, s, h, hr, hl⟩ := hrun
  have hs := step_at hr hl rfl trivial
  exact ⟨tr, s, _, h, hs, declared_on_ground h hs⟩

/-- A gyroscope is woken, and its thread is about to store its last correction. -/
def lastCorrection (i : Gyro) : Schedule :=
  burst (.gyroscopeThread i 0) 2 ++ burst (.signalGyro i) 8 ++
    [.cont (.gyroscopeThread i 0)] ++ burst (.gyroscopeThread i 0) 10

/-- A write of the simulator. -/
def simulated : Label → Bool
  | .env _ => true
  | _ => false

/-- The check reads a height of zero, `go_up_30m` adds six metres, and the correction
threads bring the gyroscopes to zero: a landing is declared in the air, without a write
of the simulator. -/
theorem declared_in_the_air : ∃ inp tr s s',
    sistema.Run (fun _ a => simulated a = false) (init inp) tr s ∧
    sistema.Step s (.exec .signalLandingCheck (.touch 0) true) s' ∧ s.glob.distance = 6 := by
  have hrun : ∃ tr s, sistema.Run (fun _ a => simulated a = false)
      (init ⟨1, 100, fun _ => 1, 0⟩) tr s ∧
      (s.Running .signalLandingCheck ∧ s.loc .signalLandingCheck = .touch 0) ∧
      s.glob.distance = 6 := by
    refine run_of_check (List.flatten [boot, burst .goUp30m 1, lastCorrection 0,
      lastCorrection 1, burst engine 17, burst .signalRestartLanding 19, [.cont .goUp30m],
      burst .signalLandingCheck 5, burst .goUp30m 6, burst (.gyroscopeThread 0 0) 1,
      burst (.gyroscopeThread 1 0) 1, burst .signalLandingCheck 4]) ?_
    decide +kernel
  obtain ⟨tr, s, h, ⟨hr, hl⟩, hd⟩ := hrun
  exact ⟨_, tr, s, _, h, step_at hr hl rfl trivial, hd⟩

end Sistema
