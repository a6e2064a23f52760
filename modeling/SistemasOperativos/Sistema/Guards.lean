import SistemasOperativos.Sistema.Deadlock
import SistemasOperativos.Sistema.Ground
import SistemasOperativos.Sistema.Touchdown

/-!
# Shutdown and climb

The landing check shuts the rocket down on a guard of its own, and the restart routine
orders a climb on another. They overlap when one gyroscope alone is off zero.
-/
namespace Sistema

open Threads Threads.Program

variable {s s' s₁ s₂ : State} {a : Label} {tr tr₁ tr₂ : List Label} {inp : Input} {ok : Bool}
variable {g : Shared} {γ : Gyro → Int} {δ d : Int}

/-! ## The guards -/

/-- What the landing check tests before `change_action(EVENT_5)`, on one memory. -/
def ShutGuard (g : Shared) : Prop :=
  ¬ (g.distance ≤ 0 ∧ g.gyros 0 = 0 ∧ g.gyros 1 = 0) ∧ g.distance ≤ 1 ∧
    (g.gyros 0 = 0 ∨ g.gyros 1 = 0)

/-- What the restart routine tests before `change_action(EVENT_3)`. -/
def ClimbGuard (g : Shared) : Prop :=
  g.currentAction ≠ .event4 ∧ g.distance < 5 ∧ (g.gyros 0 ≠ 0 ∨ g.gyros 1 ≠ 0)

/-- One gyroscope alone is off zero. -/
def OneTilted (g : Shared) : Prop :=
  g.gyros 0 = 0 ∧ g.gyros 1 ≠ 0 ∨ g.gyros 0 ≠ 0 ∧ g.gyros 1 = 0

def LandingPc.tests : LandingPc → Bool
  | .testDown _ _ | .testLow _ _ => true
  | _ => false

def RestartPc.tests : RestartPc → Bool
  | .testAction | .testGyro _ => true
  | _ => false

/-- Where at most `n` tests lead, on a memory that nobody changes. -/
def decideOn {L : Type} (code : L → Instr L) (tests : L → Bool) (g : Shared) : ℕ → L → L
  | 0, l => l
  | n + 1, l => if tests l then decideOn code tests g n ((code l).dest l g true) else l

theorem shutGuard_iff (g : Shared) : ShutGuard g ↔
    decideOn signalLandingCheck LandingPc.tests g 4 (.testDown 0 g.distance) =
      .change g.distance .lock := by
  by_cases h0 : g.gyros 0 = 0 <;> by_cases h1 : g.gyros 1 = 0 <;>
    by_cases hd0 : g.distance ≤ 0 <;> by_cases hd1 : g.distance ≤ 1 <;>
    simp [ShutGuard, decideOn, LandingPc.tests, signalLandingCheck, Op.dest, h0, h1, hd0, hd1]

theorem climbGuard_iff (g : Shared) : ClimbGuard g ↔
    decideOn signalRestartLanding RestartPc.tests g 3 .testAction = .unlockAction true := by
  by_cases h0 : g.gyros 0 = 0 <;> by_cases h1 : g.gyros 1 = 0 <;>
    by_cases ha : g.currentAction = .event4 <;> by_cases hd : g.distance < 5 <;>
    simp [ClimbGuard, decideOn, RestartPc.tests, signalRestartLanding, Op.dest, h0, h1, ha, hd]

theorem guards_overlap (ha : g.currentAction ≠ .event4) :
    ShutGuard g ∧ ClimbGuard g ↔ g.distance ≤ 1 ∧ OneTilted g := by
  unfold ShutGuard ClimbGuard OneTilted
  constructor
  · rintro ⟨⟨-, hd, hz⟩, -, -, ht⟩
    refine ⟨hd, ?_⟩
    tauto
  · rintro ⟨hd, h⟩
    have hlow : g.distance < 5 := by omega
    tauto

/-! ## Rounds -/

/-- The shutdown branch, up to `princp_engine = 0`. -/
def LandingPc.shuts : LandingPc → Bool
  | .change _ _ | .cancelGyro _ _ | .engineOff _ => true
  | _ => false

def shutsDown : Label → Bool
  | .exec .signalLandingCheck l _ => l.shuts
  | _ => false

/-- A step of the climbing branch, from its test to the waking of `go_up_30m`. -/
def ordersClimb : Label → Bool
  | .exec .signalRestartLanding l _ => l.climbs
  | _ => false

/-- The landing check enters its shutdown with both gyroscopes at zero, and no release
falls into a branch. -/
def Exclusive (s : State) (a : Label) : Prop :=
  (EntersShutdown s a → ∀ i, s.glob.gyros i = 0) ∧
  (event a = some .release →
    (s.loc .signalLandingCheck).shuts = false ∧ (s.loc .signalRestartLanding).climbs = false)

instance (s : State) (a : Label) : Decidable (Exclusive s a) :=
  inferInstanceAs (Decidable ((_ → _) ∧ (_ → _)))

/-- Inside a round with these gyroscopes and this height. -/
def InRound (γ : Gyro → Int) (δ : Int) (s : State) (a : Label) : Prop :=
  Exclusive s a ∧ s.glob.gyros = γ ∧ s.glob.distance = δ ∧ event a ≠ some .release

instance (γ : Gyro → Int) (δ : Int) (s : State) (a : Label) : Decidable (InRound γ δ s a) :=
  inferInstanceAs (Decidable (_ ∧ _))

/-- A round begins with the program or after a release. -/
def BeginsRound (tr : List Label) : Prop := ∀ a ∈ tr.getLast?, event a = some .release

/-- The checks are in their branches only when the gyroscopes have sent them there. -/
structure Apart (γ : Gyro → Int) (s : State) : Prop where
  shut : (s.loc .signalLandingCheck).shuts = true → ∀ i, γ i = 0
  climb : (s.loc .signalRestartLanding).climbs = true → ∃ i, γ i ≠ 0

theorem shuts_dest {l : LandingPc} (h : l.shuts = false)
    (ht : ∀ i d, l = .testLow i d → ¬ (d ≤ 1 ∧ g.gyros i = 0)) :
    ((signalLandingCheck l).dest l g ok).shuts = false := by
  cases l with
  | send m p =>
    exact sendMesg_dest (A := fun l => LandingPc.shuts l = false) (fun _ => rfl) rfl p
  | report d p =>
    exact sendMesg_dest (A := fun l => LandingPc.shuts l = false) (fun _ => rfl) rfl p
  | testLow i d =>
    have hn := ht i d rfl
    simp only [signalLandingCheck, Op.dest]
    split
    · rw [if_neg fun hz => hn ⟨‹_›, hz⟩]
      split <;> rfl
    · rfl
  | testDown i d =>
    simp only [signalLandingCheck, Op.dest]
    split
    · split <;> rfl
    · rfl
  | head =>
    simp only [signalLandingCheck, Op.dest]
    split <;> rfl
  | lockGs i d | unlockTouch i d | unlockGs i d act => obtain rfl | rfl := gyro_cases i <;> rfl
  | change | cancelGyro | engineOff => cases h
  | _ => rfl

/-- The shutdown is entered by the test of a gyroscope at zero. -/
theorem shuts_enters {ok' : Bool} (h : (s.loc .signalLandingCheck).shuts = false)
    (hd : ((signalLandingCheck (s.loc .signalLandingCheck)).dest (s.loc .signalLandingCheck)
      s.glob ok).shuts = true) :
    EntersShutdown s (.exec .signalLandingCheck (s.loc .signalLandingCheck) ok') := by
  by_contra hn
  refine absurd hd (Bool.eq_false_iff.mp (shuts_dest h ?_))
  rintro i d hlow hz
  refine hn ⟨(i, d), ?_, hz⟩
  rw [hlow]
  rfl

/-- No sleep leads to the shutdown. -/
theorem shuts_asleep {l : LandingPc} (h : l.shuts = false)
    (hi : (signalLandingCheck l).interruptible = true) :
    ((signalLandingCheck l).dest l g ok).shuts = false := by
  refine shuts_dest h ?_
  rintro i d rfl _
  cases hi

/-- The climbing branch is entered on a gyroscope off zero. -/
theorem climbs_dest {l : RestartPc} (h : l.climbs = false)
    (hd : ((signalRestartLanding l).dest l g ok).climbs = true) : ∃ i, g.gyros i ≠ 0 := by
  by_contra hn
  push Not at hn
  rw [restart_level hn h] at hd
  cases hd

theorem apart_step (hs : sistema.Step s a s') (hc : InRound γ δ s a) (h : Apart γ s) :
    Apart γ s' := by
  obtain ⟨hex, rfl, -, -⟩ := hc
  constructor
  · refine step_slice hs .signalLandingCheck
      (I := fun l _ => LandingPc.shuts l = true → ∀ i, s.glob.gyros i = 0) h.shut ?_ ?_ ?_ ?_ ?_
    · rintro ok rfl _ _ hd
      cases hl : (s.loc .signalLandingCheck).shuts with
      | true => exact h.shut hl
      | false => exact hex.1 (shuts_enters hl hd)
    · intro _ _ _ _ _
      exact h.shut
    · intro _ hi hd
      cases hl : (s.loc .signalLandingCheck).shuts with
      | true => exact h.shut hl
      | false => cases (shuts_asleep hl hi).symm.trans hd
    · intro l _ hl
      cases hl
    · intro _ _
      exact h.shut
  · have hkeep : ∀ ok, ((signalRestartLanding (s.loc .signalRestartLanding)).dest
        (s.loc .signalRestartLanding) s.glob ok).climbs = true → ∃ i, s.glob.gyros i ≠ 0 := by
      intro ok hd
      by_cases hl : (s.loc .signalRestartLanding).climbs = true
      · exact h.climb hl
      · exact climbs_dest (Bool.eq_false_iff.mpr hl) hd
    refine step_slice hs .signalRestartLanding
      (I := fun l _ => RestartPc.climbs l = true → ∃ i, s.glob.gyros i ≠ 0) h.climb ?_ ?_ ?_ ?_ ?_
    · intro ok _ _ _
      exact hkeep ok
    · intro _ _ _ _ _
      exact h.climb
    · intro _ _
      exact hkeep true
    · intro l _ hl
      cases hl
    · intro _ _
      exact h.climb

theorem apart_run (h₁ : Apart γ s₁) (h : sistema.Run (InRound γ δ) s₁ tr s₂) : Apart γ s₂ ∧
    ∀ a ∈ tr, (shutsDown a = true → ∀ i, γ i = 0) ∧ (ordersClimb a = true → ∃ i, γ i ≠ 0) := by
  induction h with
  | nil => exact ⟨h₁, fun _ ha => absurd ha List.not_mem_nil⟩
  | @snoc tr s s' a _ hs hc ih =>
    obtain ⟨hap, hall⟩ := ih
    refine ⟨apart_step hs hc hap, fun b hb => ?_⟩
    obtain hb | hb := List.mem_append.mp hb
    · exact hall b hb
    · obtain rfl := List.mem_singleton.mp hb
      cases hs with
      | @exec t ok _ _ _ =>
        cases t with
        | signalLandingCheck => exact ⟨hap.shut, nofun⟩
        | signalRestartLanding => exact ⟨nofun, hap.climb⟩
        | _ => exact ⟨nofun, nofun⟩
      | _ => exact ⟨nofun, nofun⟩

theorem release_reset (h : event a = some .release) : ∃ ok, a = .exec .main .reset ok := by
  cases a with
  | exec t l ok =>
    by_cases ht : t = .main
    · subst ht
      cases l with
      | reset => exact ⟨ok, rfl⟩
      | _ => cases h
    · exact absurd h (event_ne_release ht)
  | _ => cases h

theorem beginsRound_nil : BeginsRound [] := by
  intro a ha
  cases ha

/-- A round begins with both checks outside of their branches. -/
theorem apart_begin (h : sistema.Run Exclusive (init inp) tr s) (hb : BeginsRound tr)
    (γ : Gyro → Int) : Apart γ s := by
  cases h with
  | nil => exact ⟨nofun, nofun⟩
  | @snoc tr s s' a _ hs hc =>
    have hrel : event a = some .release := hb a (by simp)
    obtain ⟨hshut, hclimb⟩ := hc.2 hrel
    obtain ⟨ok, rfl⟩ := release_reset hrel
    obtain ⟨-, -, -, -, rfl⟩ := hs.exec_inv
    constructor
    · rw [effect_loc_of_ne (by nofun)]
      intro h
      cases hshut.symm.trans h
    · rw [effect_loc_of_ne (by nofun)]
      intro h
      cases hclimb.symm.trans h

/-! ## The engine off with the gyroscopes at zero -/

/-- The landing check enters its shutdown with both gyroscopes at zero, and they stay
there until `princp_engine = 0`. -/
def Steadfast (s : State) (a : Label) : Prop :=
  (EntersShutdown s a → ∀ i, s.glob.gyros i = 0) ∧
  ((s.loc .signalLandingCheck).shuts = true → ∀ i, tilts a i = false)

instance (s : State) (a : Label) : Decidable (Steadfast s a) :=
  inferInstanceAs (Decidable ((_ → _) ∧ (_ → _)))

theorem shut_step (hs : sistema.Step s a s') (hc : Steadfast s a)
    (h : (s.loc .signalLandingCheck).shuts = true → ∀ i, s.glob.gyros i = 0) :
    (s'.loc .signalLandingCheck).shuts = true → ∀ i, s'.glob.gyros i = 0 := by
  have hkeep : (s.loc .signalLandingCheck).shuts = true → ∀ i, s'.glob.gyros i = 0 :=
    fun hl i => gyros_step hs (h hl i) (hc.2 hl i)
  refine step_slice hs .signalLandingCheck
    (I := fun l g => LandingPc.shuts l = true → ∀ i, g.gyros i = 0) h ?_ ?_ ?_ ?_ ?_
  · rintro ok rfl _ _ hd
    have hglob := (landing_glob (s.loc .signalLandingCheck) s.glob).2
    intro i
    refine (congrFun hglob i).trans ?_
    cases hl : (s.loc .signalLandingCheck).shuts with
    | true => exact h hl i
    | false => exact hc.1 (shuts_enters hl hd) i
  · rintro t ok - rfl -
    obtain ⟨-, -, -, -, rfl⟩ := hs.exec_inv
    exact hkeep
  · intro _ hi hd
    cases hl : (s.loc .signalLandingCheck).shuts with
    | true => exact h hl
    | false => cases (shuts_asleep hl hi).symm.trans hd
  · intro l _ hl
    cases hl
  · rintro e rfl
    cases hs
    exact hkeep

/-- The two guards, which are what the tests of the two routines decide on one memory, are
apart but for one tilted gyroscope near the ground. Where the landing check never shuts down
on one, no round does both, and the check executes its `princp_engine = 0` with the
gyroscopes at zero alone. -/
theorem guards_exclusive (inp : Input) :
    (∀ g : Shared,
      (ShutGuard g ↔ decideOn signalLandingCheck LandingPc.tests g 4 (.testDown 0 g.distance) =
        .change g.distance .lock) ∧
      (ClimbGuard g ↔
        decideOn signalRestartLanding RestartPc.tests g 3 .testAction = .unlockAction true) ∧
      (g.currentAction ≠ .event4 →
        (¬ (ShutGuard g ∧ ClimbGuard g) ↔ ¬ (g.distance ≤ 1 ∧ OneTilted g)))) ∧
    (∀ tr₁ s₁ tr₂ s₂, sistema.Run Exclusive (init inp) tr₁ s₁ → BeginsRound tr₁ →
      sistema.Run (InRound s₁.glob.gyros s₁.glob.distance) s₁ tr₂ s₂ →
      ¬ ((∃ a ∈ tr₂, shutsDown a = true) ∧ ∃ a ∈ tr₂, ordersClimb a = true)) ∧
    ∀ tr s d ok s', sistema.Run Steadfast (init inp) tr s →
      sistema.Step s (.exec .signalLandingCheck (.engineOff d) ok) s' →
      ∀ i, s.glob.gyros i = 0 := by
  refine ⟨fun g => ⟨shutGuard_iff g, climbGuard_iff g, fun ha => not_congr (guards_overlap ha)⟩, ?_, ?_⟩
  · rintro tr₁ s₁ tr₂ s₂ h₁ hb h₂ ⟨⟨a, ha, hoff⟩, b, hbm, hup⟩
    obtain ⟨-, hall⟩ := apart_run (apart_begin h₁ hb s₁.glob.gyros) h₂
    obtain ⟨i, hi⟩ := (hall b hbm).2 hup
    exact hi ((hall a ha).1 hoff i)
  · intro tr s d ok s' h hs
    have hshut := h.invariant
      (I := fun s => (s.loc .signalLandingCheck).shuts = true → ∀ i, s.glob.gyros i = 0)
      nofun fun _ _ _ hi hs hc => shut_step hs hc hi
    refine hshut ?_
    rw [hs.exec_inv.1]
    rfl

/-- A metre up with level gyroscopes, the landing check shuts the rocket down. -/
theorem guards_exclusive_level :
    (¬ (ShutGuard (init ⟨1, 100, fun _ => 0, 0⟩).glob ∧
      ClimbGuard (init ⟨1, 100, fun _ => 0, 0⟩).glob)) ∧
    (∃ tr s, sistema.Run (InRound (fun _ => 0) 1) (init ⟨1, 100, fun _ => 0, 0⟩) tr s ∧
      (∃ a ∈ tr, shutsDown a = true) ∧ ¬ ∃ a ∈ tr, ordersClimb a = true) ∧
    ∃ tr s s', sistema.Run Steadfast (init ⟨1, 100, fun _ => 0, 0⟩) tr s ∧
      sistema.Step s (.exec .signalLandingCheck (.engineOff 1) true) s' ∧
      ∀ i, s.glob.gyros i = 0 := by
  obtain ⟨hg, hr, ho⟩ := guards_exclusive ⟨1, 100, fun _ => 0, 0⟩
  have hlevel : ¬ OneTilted (init ⟨1, 100, fun _ => 0, 0⟩).glob := by
    rintro (⟨-, h⟩ | ⟨h, -⟩) <;> exact h rfl
  refine ⟨((hg _).2.2 (fun h => by cases h)).mpr fun h => hlevel h.2, ?_, ?_⟩
  · have hrun : ∃ tr s, sistema.Run (InRound (fun _ => 0) 1) (init ⟨1, 100, fun _ => 0, 0⟩) tr s ∧
        tr.any shutsDown = true := by
      refine run_of_check (boot ++ burst .signalLandingCheck 15) ?_
      decide +kernel
    obtain ⟨tr, s, h, hs⟩ := hrun
    have hoff := List.any_eq_true.mp hs
    have hnone := hr [] _ tr s .nil beginsRound_nil h
    exact ⟨tr, s, h, hoff, fun hup => hnone ⟨hoff, hup⟩⟩
  · have hrun : ∃ tr s, sistema.Run Steadfast (init ⟨1, 100, fun _ => 0, 0⟩) tr s ∧
        s.Running .signalLandingCheck ∧ s.loc .signalLandingCheck = .engineOff 1 := by
      refine run_of_check (boot ++ burst .signalLandingCheck 14) ?_
      decide +kernel
    obtain ⟨tr, s, h, hrs, hl⟩ := hrun
    have hs := step_at hrs hl rfl trivial
    exact ⟨tr, s, _, h, hs, ho tr s 1 true _ h hs⟩

/-- `princp_engine = 0` in the landing check. -/
def switchesOff : Label → Bool
  | .exec .signalLandingCheck (.engineOff _) _ => true
  | _ => false

/-- `change_action(EVENT_3)`, at its assignment. -/
def setsClimb : Label → Bool
  | .exec .signalRestartLanding (.change .assign) _ => true
  | _ => false

/-- A metre up with one gyroscope tilted both guards hold, and within the first round, in
which nothing moves, the engine goes off and a climb is ordered. -/
theorem shut_and_climb : ∃ inp, ShutGuard (init inp).glob ∧ ClimbGuard (init inp).glob ∧
    ∃ tr s, sistema.Run (fun s a => s.glob.gyros = inp.giros ∧ s.glob.distance = inp.distancia ∧
      event a ≠ some .release) (init inp) tr s ∧
      tr.any switchesOff = true ∧ tr.any setsClimb = true := by
  refine ⟨⟨1, 100, fun i => if i = 0 then 0 else 3, 0⟩, ?_, ?_, ?_⟩
  · exact ⟨by decide, by decide, .inl rfl⟩
  · exact ⟨by decide, by decide, .inr (by decide)⟩
  · refine run_of_check (boot ++ burst .signalLandingCheck 17 ++
      burst .signalRestartLanding 12) ?_
    decide +kernel

end Sistema
