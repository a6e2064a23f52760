import SistemasOperativos.Sistema.Locks
import SistemasOperativos.Sistema.Schedules
import SistemasOperativos.Threads.Data

/-!
# The locks of one gyroscope

`create_signals_gyros` copies a semaphore by value, and so do the threads that get
the copy: each of them takes a semaphore of its own.
-/
namespace Sistema

open Threads Threads.Program

/-- The semaphores taken by some thread as the lock of a gyroscope. -/
def Sem.locksGyro (i : Gyro) : Sem → Bool
  | .gs j => j = i
  | .gyro (.signalGyro j) => j = i
  | .gyro (.gyroscopeThread j _) => j = i
  | _ => false

/-- Between the wait and the post of a lock of the gyroscope. -/
def InSection (s : State) (i : Gyro) (t : Tid) : Prop := ∃ x ∈ s.held t, x.locksGyro i = true

/-! ## Runs that do not look at the height -/

/-- Memories that agree but for the height and the fuel. -/
def SameButHeight (g g' : Shared) : Prop :=
  ∃ d b n, g' = { g with distance := d, ditBlock := b, gasoline := n }

/-- Locations whose operations neither read the height nor the fuel. -/
def unmeasured : (t : Tid) → Loc t → Bool
  | .main, .handler _ _ => false
  | .main, _ => true
  | .signalGyro _, _ => true
  | .gyroscopeThread _ _, .burn => false
  | .gyroscopeThread _ _, _ => true
  | .signalRestartLanding, .head | .signalRestartLanding, .testcancel => true
  | .signalRestartLanding, .lockDist | .signalRestartLanding, .lockAction => true
  | .signalRestartLanding, .lockGs _ => true
  | _, _ => false

def Unmeasured : Label → Prop
  | .exec t l _ => unmeasured t l = true
  | _ => True

instance : (a : Label) → Decidable (Unmeasured a)
  | .exec .. => inferInstanceAs (Decidable (_ = true))
  | .die .. | .cont _ | .int _ | .env _ => isTrue trivial

theorem blind_of {K : Type} {o : Instr K} {l : K}
    (hd : ∀ g d b n ok, o.dest l { g with distance := d, ditBlock := b, gasoline := n } ok =
      o.dest l g ok)
    (hg : ∀ g d b n, o.glob { g with distance := d, ditBlock := b, gasoline := n } =
      { o.glob g with distance := d, ditBlock := b, gasoline := n })
    (hc : ∀ g d b n, o.creates { g with distance := d, ditBlock := b, gasoline := n } = o.creates g)
    (hx : ∀ g d b n, o.cancels { g with distance := d, ditBlock := b, gasoline := n } = o.cancels g)
    (hs : ∀ sig g d b n, o.signals sig { g with distance := d, ditBlock := b, gasoline := n } =
      o.signals sig g) : o.Blind SameButHeight l where
  dest := by
    rintro g g' ok ⟨d, b, n, rfl⟩
    exact (hd g d b n ok).symm
  glob := by
    rintro g g' ⟨d, b, n, rfl⟩
    exact ⟨d, b, n, hg g d b n⟩
  creates := by
    rintro g g' ⟨d, b, n, rfl⟩
    exact (hc g d b n).symm
  cancels := by
    rintro g g' ⟨d, b, n, rfl⟩
    exact (hx g d b n).symm
  signals := by
    rintro sig g g' ⟨d, b, n, rfl⟩
    exact (hs sig g d b n).symm

theorem unmeasured_blind {t : Tid} {l : Loc t} (h : unmeasured t l = true) :
    (code t l).Blind SameButHeight l := by
  cases t with
  | main =>
    cases l with
    | handler => cases h
    | createGyros p =>
      cases p <;> exact blind_of (fun _ _ _ _ _ => rfl) (fun _ _ _ _ => rfl) (fun _ _ _ _ => rfl)
        (fun _ _ _ _ => rfl) fun _ _ _ _ _ => rfl
    | _ =>
      exact blind_of (fun _ _ _ _ _ => rfl) (fun _ _ _ _ => rfl) (fun _ _ _ _ => rfl)
        (fun _ _ _ _ => rfl) fun _ _ _ _ _ => rfl
  | signalGyro i =>
    cases l with
    | send m p =>
      cases p <;> exact blind_of (fun _ _ _ _ _ => rfl) (fun _ _ _ _ => rfl) (fun _ _ _ _ => rfl)
        (fun _ _ _ _ => rfl) fun _ _ _ _ _ => rfl
    | _ =>
      exact blind_of (fun _ _ _ _ _ => rfl) (fun _ _ _ _ => rfl) (fun _ _ _ _ => rfl)
        (fun _ _ _ _ => rfl) fun _ _ _ _ _ => rfl
  | gyroscopeThread i n =>
    cases l with
    | burn => cases h
    | _ =>
      exact blind_of (fun _ _ _ _ _ => rfl) (fun _ _ _ _ => rfl) (fun _ _ _ _ => rfl)
        (fun _ _ _ _ => rfl) fun _ _ _ _ _ => rfl
  | signalRestartLanding =>
    cases l with
    | head | testcancel | lockDist | lockAction | lockGs i =>
      exact blind_of (fun _ _ _ _ _ => rfl) (fun _ _ _ _ => rfl) (fun _ _ _ _ => rfl)
        (fun _ _ _ _ => rfl) fun _ _ _ _ _ => rfl
    | _ => cases h
  | _ => cases h

theorem unmeasured_step {a : Label} (h : Unmeasured a) :
    BlindStep sistema SameButHeight a := by
  cases a with
  | exec t l ok => exact unmeasured_blind h
  | env e =>
    rintro g g' ⟨d, b, n, rfl⟩
    cases e <;> exact ⟨d, b, n, rfl⟩
  | _ => trivial

/-- Whatever the simulator has left, it can still tilt both gyroscopes. -/
theorem tilt_run (inp : Input) : ∃ tr, sistema.Run Any (init inp) tr
    (init ⟨inp.distancia, inp.nivel, fun _ => 1, 0⟩) := by
  have heq : sistema.disturb (sistema.disturb (sistema.disturb (init inp) (.gyro 0 1)) (.gyro 1 1))
      (.alarma 0) = init ⟨inp.distancia, inp.nivel, fun _ => 1, 0⟩ := by
    have hg : put (put inp.giros 0 1) 1 1 = fun _ => 1 := by
      funext i
      obtain rfl | rfl := gyro_cases i <;> simp [put]
    simp only [init, disturb, sistema, Write.apply, hg]
  rw [← heq]
  exact ⟨_, ((Run.nil.snoc (.env _ rfl) trivial).snoc (.env _ rfl) trivial).snoc (.env _ rfl) trivial⟩

/-- The schedule that brings the correction thread of a gyroscope to its flag while
the restart routine decides. -/
def bothInside (i : Gyro) : Schedule :=
  boot ++ burst (.gyroscopeThread i 0) 2 ++ burst (.signalGyro i) 8 ++
    [.cont (.gyroscopeThread i 0)] ++ burst (.gyroscopeThread i 0) 4 ++
    burst .signalRestartLanding 6

theorem bothInside_run (i : Gyro) : ∃ tr s,
    sistema.Run (fun _ a => Unmeasured a) (init ⟨0, 0, fun _ => 1, 0⟩) tr s ∧
    (s.Running (.gyroscopeThread i 0) ∧ s.Running .signalRestartLanding) ∧
    s.loc (.gyroscopeThread i 0) = .setOn ∧ s.loc .signalRestartLanding = .testAction := by
  obtain rfl | rfl := gyro_cases i
  · refine run_of_check (bothInside 0) ?_
    decide +kernel
  · refine run_of_check (bothInside 1) ?_
    decide +kernel

/-- From every start two threads come to be inside for one gyroscope, and one of them
is about to change what the other decides on. -/
theorem gyro_not_exclusive (inp : Input) (i : Gyro) : ∃ s, sistema.Reachable (init inp) s ∧
    (s.Running (.gyroscopeThread i 0) ∧ s.Running .signalRestartLanding) ∧
    (s.loc (.gyroscopeThread i 0) = .setOn ∧ s.loc .signalRestartLanding = .testAction) ∧
    InSection s i (.gyroscopeThread i 0) ∧ InSection s i .signalRestartLanding := by
  obtain ⟨tr, htilt⟩ := tilt_run inp
  obtain ⟨tr', s, hs, ⟨hr1, hr2⟩, hl1, hl2⟩ := bothInside_run i
  have halike : Alike SameButHeight (init ⟨0, 0, fun _ => 1, 0⟩)
      (init ⟨inp.distancia, inp.nivel, fun _ => 1, 0⟩) := ⟨rfl, rfl, rfl, _, _, _, rfl⟩
  obtain ⟨s', hs', ha⟩ := hs.alike halike fun _ _ => unmeasured_step
  have hrun := htilt.append hs'
  have hloc : ∀ t, s'.loc t = s.loc t := fun t => by rw [State.loc, ← ha.thr]; rfl
  refine ⟨s', hrun.reachable, ⟨?_, ?_⟩, ⟨?_, ?_⟩, ?_, ?_⟩
  · exact ⟨ha.ended ▸ hr1.1, by rw [State.life, ← ha.thr]; exact hr1.2⟩
  · exact ⟨ha.ended ▸ hr2.1, by rw [State.life, ← ha.thr]; exact hr2.2⟩
  · rw [hloc, hl1]
  · rw [hloc, hl2]
  · refine ⟨.gyro (.gyroscopeThread i 0), ?_, by simp [Sem.locksGyro]⟩
    rw [held_eq hrun, hloc, hl1]
    simp [holds, GyroscopePc.holds]
  · refine ⟨.gs i, ?_, by simp [Sem.locksGyro]⟩
    rw [held_eq hrun, hloc, hl2]
    obtain rfl | rfl := gyro_cases i <;> simp [holds, RestartPc.holds]

/-- The restart routine and the reporter of the first gyroscope, both inside. -/
theorem two_inside : ∃ inp s t u, sistema.Reachable (init inp) s ∧ t ≠ u ∧ InSection s 0 t ∧
    InSection s 0 u := by
  have hrun : ∃ tr s, sistema.Run (fun _ a => Unmeasured a) (init ⟨10, 100, fun _ => 1, 0⟩) tr s ∧
      .gyro (.signalGyro 0) ∈ s.held (.signalGyro 0) ∧ .gs 0 ∈ s.held .signalRestartLanding := by
    refine run_of_check (boot ++ burst (.signalGyro 0) 8 ++ burst .signalRestartLanding 6) ?_
    decide +kernel
  obtain ⟨tr, s, hr, h1, h2⟩ := hrun
  exact ⟨_, s, .signalGyro 0, .signalRestartLanding, hr.reachable, nofun, ⟨_, h1, rfl⟩, _, h2, rfl⟩

end Sistema
