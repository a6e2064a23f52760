import SistemasOperativos.Sistema.Locks
import SistemasOperativos.Sistema.Schedules

/-! Circular waits on the shared semaphores. -/
namespace Sistema

open Threads Threads.Program

/-- The order in which every nesting takes the shared semaphores, but for
`change_action` called with the gyroscopes held. -/
def Sem.rank : Sem → ℕ
  | .dist => 1
  | .action => 2
  | .gs i => 3 + i.val
  | .gas => 5
  | .sock => 6
  | .read => 7
  | _ => 0

theorem Sem.rank_le (x : Sem) : x.rank ≤ 7 := by
  cases x with
  | gs i =>
    have := i.isLt
    simp only [Sem.rank]
    omega
  | _ => simp [Sem.rank]

/-- The shutdown test of the landing check: the gyroscope it looks at, and its `dist`. -/
def lowTest : Label → Option (Gyro × Int)
  | .exec .signalLandingCheck (.testLow i d) _ => some (i, d)
  | _ => none

/-- The landing check is about to find its shutdown guard true. -/
def EntersShutdown (s : State) (a : Label) : Prop :=
  ∃ x ∈ lowTest a, x.2 ≤ 1 ∧ s.glob.gyros x.1 = 0

instance (s : State) (a : Label) : Decidable (EntersShutdown s a) :=
  inferInstanceAs (Decidable (∃ x ∈ lowTest a, _ ∧ _))

/-- The two calls of `change_action` with the gyroscopes held. -/
def Inverted : (t : Tid) → Loc t → Prop
  | .signalRestartLanding, .change .lock => True
  | .signalLandingCheck, .change _ .lock => True
  | _, _ => False

/-- Every shared semaphore of the list comes before `x`, and `sem_action` is never
held without `sem_dist`. -/
def Below (x : Sem) (hs : List Sem) : Bool :=
  (hs.all fun y => !y.shared || y.rank < x.rank) && (!hs.contains .action || hs.contains .dist)

theorem below_lt {x y : Sem} {hs : List Sem} (h : Below x hs = true) (hy : y ∈ hs)
    (hys : y.shared = true) : y.rank < x.rank := by
  have := List.all_eq_true.mp (Bool.and_eq_true_iff.mp h).1 y hy
  simpa [hys] using this

theorem below_dist {x : Sem} {hs : List Sem} (h : Below x hs = true) (ha : .action ∈ hs) :
    .dist ∈ hs := by
  have := (Bool.and_eq_true_iff.mp h).2
  simpa [ha] using this

theorem sendMesg_below {L : Type} {m : Msg} {pc : SendPc → L} {k k' : L} {p : SendPc} {x : Sem}
    (h : sendMesg m pc k p = .wait x k') : Below x p.holds = true := by
  cases p <;> cases h <;> rfl

theorem changeAction_below {L : Type} {e : Event} {pc : ChangePc → L} {k k' : L} {p : ChangePc}
    {x : Sem} (h : changeAction e pc k p = .wait x k') : p = .lock := by
  cases p <;> cases h
  rfl

theorem wait_below (t : Tid) (l : Loc t) {x : Sem} {k : Loc t} (h : code t l = .wait x k)
    (hx : x.shared = true) (hi : ¬ Inverted t l) : Below x (holds t l) = true := by
  cases t with
  | main =>
    cases l with
    | createGyros p => cases p <;> cases h
    | handler saved p => cases p <;> cases h
    | lockRead => rfl
    | _ => cases h
  | signalGyro i =>
    cases l with
    | send m p => exact sendMesg_below h
    | lockAction => rfl
    | lockGyro | waitMsg => cases h; cases hx
    | _ => cases h
  | gyroscopeThread i n =>
    cases l with
    | lockGas => cases h; rfl
    | lockGyro => cases h; cases hx
    | _ => cases h
  | pricipalEngineThread n =>
    cases l with
    | send m p => exact sendMesg_below h
    | lockGs i => obtain rfl | rfl := gyro_cases i <;> cases h <;> rfl
    | lockGas | lockAction | lockDist => cases h; rfl
    | waitMsg => cases h; cases hx
    | _ => cases h
  | signalRestartLanding =>
    cases l with
    | send m p => exact sendMesg_below h
    | change p =>
      cases changeAction_below h
      exact absurd trivial hi
    | cancelGyro i => cases h
    | lockGs i => obtain rfl | rfl := gyro_cases i <;> cases h <;> rfl
    | lockAction | lockDist => cases h; rfl
    | waitMsg => cases h; cases hx
    | _ => cases h
  | goUp30m =>
    cases l with
    | create p => cases p <;> cases h
    | change p =>
      cases changeAction_below h
      rfl
    | lockDist => rfl
    | _ => cases h
  | signalExploteRocket =>
    cases l with
    | send m p => exact sendMesg_below h
    | abort p => exact sendMesg_below h
    | lockGas | lockAction => rfl
    | waitMsg | waitAbort => cases h; cases hx
    | _ => cases h
  | signalLandingCheck =>
    cases l with
    | send m p => exact sendMesg_below h
    | report d p => exact sendMesg_below h
    | change d p =>
      cases changeAction_below h
      exact absurd trivial hi
    | lockGs i d => obtain rfl | rfl := gyro_cases i <;> cases h <;> rfl
    | lockDist => rfl
    | waitMsg => cases h; cases hx
    | _ => cases h
  | sigHandlerManual =>
    cases l with
    | alarm a p => exact sendMesg_below h
    | send p => exact sendMesg_below h
    | manage a p => cases p <;> cases h
    | create a p => cases p <;> cases h
    | waitMsg => cases h; cases hx
    | _ => cases h

/-- The landing check reaches its call of `change_action` only through the guard. -/
theorem landing_dest_change {l : LandingPc} {g : Shared} {ok : Bool} {d : Int} {p : ChangePc}
    (h : (signalLandingCheck l).dest l g ok = .change d p) :
    (∃ q, l = .change d q) ∨ ∃ i, l = .testLow i d ∧ d ≤ 1 ∧ g.gyros i = 0 := by
  cases l with
  | send m q =>
    refine absurd h ?_
    exact sendMesg_dest (A := fun k => k ≠ LandingPc.change d p) (by simp) (by simp) q
  | report e q =>
    refine absurd h ?_
    exact sendMesg_dest (A := fun k => k ≠ LandingPc.change d p) (by simp) (by simp) q
  | change e q => cases q <;> cases h <;> exact .inl ⟨_, rfl⟩
  | cancelGyro i e =>
    obtain rfl | rfl := gyro_cases i <;> cases h
  | lockGs i e | unlockTouch i e | unlockGs i e act => obtain rfl | rfl := gyro_cases i <;> cases h
  | testDown i e =>
    simp only [signalLandingCheck, Op.dest] at h
    split at h
    · split at h <;> cases h
    · cases h
  | testLow i e =>
    simp only [signalLandingCheck, Op.dest] at h
    split at h
    · rename_i he
      split at h
      · rename_i hg
        cases h
        exact .inr ⟨i, rfl, he, hg⟩
      · split at h <;> cases h
    · cases h
  | head =>
    simp only [signalLandingCheck, Op.dest] at h
    split at h <;> cases h
  | _ => cases h

theorem inverted_thread {t : Tid} {l : Loc t} (h : Inverted t l) :
    t = .signalRestartLanding ∨ t = .signalLandingCheck := by
  unfold Inverted at h
  split at h
  · exact .inl rfl
  · exact .inr rfl
  · exact h.elim

theorem inverted_landing {l : LandingPc} (h : Inverted .signalLandingCheck l) :
    ∃ d p, l = .change d p := by
  cases l with
  | change d p => exact ⟨d, p, rfl⟩
  | _ => exact h.elim

theorem inverted_restart {l : RestartPc} (h : Inverted .signalRestartLanding l) :
    l = .change .lock := by
  cases l with
  | change p =>
    cases p with
    | lock => rfl
    | _ => exact h.elim
  | _ => exact h.elim

variable {inp : Input} {tr : List Label} {s : State}

theorem never_shutting (h : sistema.Run (fun s a => ¬ EntersShutdown s a) (init inp) tr s) :
    ∀ d p, s.loc .signalLandingCheck ≠ .change d p := by
  refine h.invariant (I := fun s => ∀ d p, s.loc .signalLandingCheck ≠ .change d p) ?_ ?_
  · intro d p hl
    cases hl
  · intro s a s' hs hstep hc
    refine step_slice hstep .signalLandingCheck
      (I := fun l _ => ∀ d p, l ≠ LandingPc.change d p) hs ?_ ?_ ?_ ?_ ?_
    · intro ok ha _ _ d p hl
      obtain ⟨q, hq⟩ | ⟨i, hi, hd, hg⟩ := landing_dest_change hl
      · exact hs d q hq
      · refine hc ⟨(i, d), ?_, hd, hg⟩
        rw [ha, hi]
        rfl
    · intro _ _ _ _ _
      exact hs
    · intro _ hi d p hl
      obtain ⟨q, hq⟩ | ⟨i, hi', _, _⟩ := landing_dest_change hl
      · exact hs d q hq
      · simp [Program.op, sistema, code, hi', signalLandingCheck, Op.interruptible] at hi
    · intro l _ hl
      cases hl
    · intro _ _
      exact hs

/-- No circular wait on the shared semaphores while the landing check stays out of
its shutdown branch. Restart, the other caller of `change_action` with the
gyroscopes held, keeps `sem_dist`, without which nobody stops with `sem_action`. -/
theorem no_deadlock (h : sistema.Run (fun s a => ¬ EntersShutdown s a) (init inp) tr s)
    (W : Set Tid) : ¬ CircularWait sistema {x | x.shared = true} s W := by
  intro hw
  have hland : ¬ Inverted .signalLandingCheck (s.loc .signalLandingCheck) := by
    intro hi
    obtain ⟨d, p, hl⟩ := inverted_landing hi
    exact never_shutting h d p hl
  have hinv : ∀ t ∈ W, ¬ Inverted t (s.loc t) := by
    intro t ht hi
    obtain rfl | rfl := inverted_thread hi
    · obtain ⟨x, _, ⟨_, ⟨k, hk⟩, _⟩, u, hu, hut, hxu⟩ := hw.2 _ ht
      obtain ⟨y, hy, ⟨_, ⟨k', hk'⟩, _⟩, _⟩ := hw.2 u hu
      have hl : s.loc .signalRestartLanding = .change .lock := inverted_restart hi
      have hx : x = .action := by
        simp only [Program.op, hl] at hk
        cases hk
        rfl
      have hiu : ¬ Inverted u (s.loc u) := by
        intro hiu
        obtain rfl | rfl := inverted_thread hiu
        · exact hut rfl
        · exact hland hiu
      rw [held_eq h, hx] at hxu
      have hdu : .dist ∈ s.held u := by
        rw [held_eq h]
        exact below_dist (wait_below u _ hk' hy hiu) hxu
      have hdt : .dist ∈ s.held .signalRestartLanding := by
        rw [held_eq h, hl]
        simp [holds, RestartPc.holds]
      exact hut ((mutex h rfl).unique hdu hdt)
    · exact hland hi
  refine no_circularWait Sem.rank 7 (fun x _ => x.rank_le) ?_ hw
  rintro t ht x hx ⟨_, ⟨k, hk⟩, _⟩ y hy hyt
  rw [held_eq h] at hyt
  exact below_lt (wait_below t _ hk hx (hinv t ht)) hyt hy

/-- High up, the landing check waits for `sem_dist`, and the engine that has it goes on. -/
theorem no_deadlock_high : ∃ tr s,
    sistema.Run (fun s a => ¬ EntersShutdown s a) (init ⟨10, 100, fun _ => 0, 0⟩) tr s ∧
    s.loc .signalLandingCheck = .lockDist ∧ .dist ∈ s.held (.pricipalEngineThread 0) ∧
    ¬ CircularWait sistema {x | x.shared = true} s
      {.signalLandingCheck, .pricipalEngineThread 0} := by
  have hrun : ∃ tr s,
      sistema.Run (fun s a => ¬ EntersShutdown s a) (init ⟨10, 100, fun _ => 0, 0⟩) tr s ∧
      s.loc .signalLandingCheck = .lockDist ∧ .dist ∈ s.held (.pricipalEngineThread 0) := by
    refine run_of_check (boot ++ landingReport ++ manualReport ++ otherReports ++ engineReport 0 ++
      burst .main 12 ++ burst (.pricipalEngineThread 0) 5 ++ burst .signalLandingCheck 3) ?_
    decide +kernel
  obtain ⟨tr, s, hr, hl, hd⟩ := hrun
  exact ⟨tr, s, hr, hl, hd, no_deadlock hr _⟩

/-- One metre up, the landing check has the gyroscopes and wants `sem_action`,
while the engine has `sem_action` and wants the first gyroscope. -/
theorem deadlock_one_metre : ∃ inp tr s W, sistema.Run CleanDeath (init inp) tr s ∧
    CircularWait sistema {x | x.shared = true} s W := by
  have hrun : ∃ tr s, sistema.Run CleanDeath (init ⟨1, 100, fun _ => 0, 0⟩) tr s ∧
      ((s.Running .signalLandingCheck ∧ s.loc .signalLandingCheck = .change 1 .lock ∧
        .gs 0 ∈ s.held .signalLandingCheck ∧ s.sem (.gs 0) = 0) ∧
      s.Running (.pricipalEngineThread 0) ∧ s.loc (.pricipalEngineThread 0) = .lockGs 0 ∧
        .action ∈ s.held (.pricipalEngineThread 0) ∧ s.sem .action = 0) := by
    refine run_of_check (boot ++ burst .signalLandingCheck 9 ++
      burst (.pricipalEngineThread 0) 6) ?_
    decide +kernel
  obtain ⟨tr, s, hr, ⟨hrl, hll, hgl, hg⟩, hre, hle, hae, ha⟩ := hrun
  refine ⟨_, tr, s, {.signalLandingCheck, .pricipalEngineThread 0}, hr, ⟨_, .inl rfl⟩, ?_⟩
  rintro t (rfl | rfl)
  · refine ⟨.action, rfl, ⟨hrl, ⟨.change 1 .assign, ?_⟩, ha⟩, _, .inr rfl, nofun, hae⟩
    simp only [Program.op, hll]
    rfl
  · refine ⟨.gs 0, rfl, ⟨hre, ⟨.lockGs 1, ?_⟩, hg⟩, _, .inl rfl, nofun, hgl⟩
    simp only [Program.op, hle]
    rfl

end Sistema
