import SistemasOperativos.Sistema.Climb

/-!
# The wake-up of a climb

`go_up_30m` waits in `pause` with no flag, so that a signal that comes on its way there is
spent on nothing.
-/
namespace Sistema

open Threads Threads.Program

variable {s s' : State} {a : Label} {t : Tid} {tr : List Label} {inp : Input} {ok : Bool}

/-- From the assignment of `EVENT_3` to `pthread_kill(array_threads[3], SIGCONT)`. -/
def RestartPc.ordering : RestartPc → Bool
  | .change .unlock | .cancelGyro _ | .testEngine | .startEngine | .contEngine | .contGoUp => true
  | .unlockGs _ climb | .unlockDist climb => climb
  | _ => false

/-- On the way to a `pause`, with `EVENT_1` set if a climb has been made. -/
def GoUpPc.nearPause : GoUpPc → Bool
  | .callFirst | .change .unlock | .callPause => true
  | _ => false

/-- Blocked in `pause` without a signal, with nobody about to send one, and without the
reason for which the restart routine would order another climb. -/
def Stranded (s : State) : Prop :=
  s.glob.currentAction = .event3 ∧ s.Running .goUp30m ∧ (s.loc .goUp30m).paused = true ∧
  (s.thr .goUp30m).cont = false ∧ (s.loc .signalRestartLanding).ordering = false ∧
  ¬ (s.glob.distance < 5 ∧ ∃ i, s.glob.gyros i ≠ 0)

instance (s : State) : Decidable (Stranded s) :=
  inferInstanceAs (Decidable (_ ∧ _ ∧ _ ∧ _ ∧ _ ∧ ¬ (_ ∧ _)))

/-- `pthread_kill(array_threads[3], SIGCONT)`. -/
def sendsOrder : Label → Bool
  | .exec .signalRestartLanding .contGoUp _ => true
  | _ => false

/-- A `SIGCONT` is delivered to `go_up_30m`. -/
def wakesGoUp : Label → Bool
  | .cont .goUp30m => true
  | _ => false

/-- The order of a climb goes to `go_up_30m`, and is not spent while the thread is on its
way to a `pause`. -/
def Heard (s : State) (a : Label) : Prop :=
  (sendsOrder a = true → s.glob.arrayThreads 3 = some .goUp30m) ∧
  (wakesGoUp a = true → (s.loc .goUp30m).nearPause = true → s.glob.currentAction = .event3 →
    (s.loc .signalRestartLanding).ordering = true)

instance (s : State) (a : Label) : Decidable (Heard s a) :=
  inferInstanceAs (Decidable ((_ → _) ∧ (_ → _ → _ → _)))

/-- While `EVENT_3` is set and `go_up_30m` waits, or is about to, its signal is pending or
still to be sent. -/
def Awaited (s : State) : Prop :=
  s.glob.currentAction = .event3 →
  (s.loc .goUp30m).paused = true ∨ (s.loc .goUp30m).nearPause = true →
  (s.thr .goUp30m).cont = false → (s.loc .signalRestartLanding).ordering = true

/-- Only the restart routine sets `EVENT_3`. -/
theorem event3_step (hs : sistema.Step s a s') (h : s'.glob.currentAction = .event3) :
    s.glob.currentAction = .event3 ∨ ∃ ok, a = .exec .signalRestartLanding (.change .assign) ok := by
  obtain ⟨t, l, ok, rfl, -, -, hw⟩ | ⟨w, -, hw⟩ | hw := step_writes hs
  · generalize s'.glob = g' at hw h
    cases hw with
    | assign3 => exact .inr ⟨ok, rfl⟩
    | assign1 | assign5 => cases h
    | descend =>
      rw [descend_eq] at h
      exact .inl h
    | _ => exact .inl h
  · rw [hw] at h
    cases w <;> exact .inl h
  · exact .inl (hw ▸ h)

theorem ordering_dest {l : RestartPc} {g : Shared} (h : l.ordering = true) :
    ((signalRestartLanding l).dest l g ok).ordering = true ∨ l = .contGoUp := by
  cases l with
  | change p =>
    cases p with
    | unlock => exact .inl rfl
    | _ => cases h
  | unlockGs i climb =>
    obtain rfl : climb = true := h
    obtain rfl | rfl := gyro_cases i <;> exact .inl rfl
  | unlockDist climb =>
    obtain rfl : climb = true := h
    exact .inl rfl
  | cancelGyro i => obtain rfl | rfl := gyro_cases i <;> exact .inl rfl
  | testEngine =>
    simp only [signalRestartLanding, Op.dest]
    split <;> exact .inl rfl
  | startEngine | contEngine => exact .inl rfl
  | contGoUp => exact .inr rfl
  | _ => cases h

/-- `go_up_30m` comes to a `pause` by setting `EVENT_1`. -/
theorem near_dest {l : GoUpPc} {g : Shared} (h : l.paused = false) (hn : l.nearPause = false)
    (hd : ((goUp30m l).dest l g ok).paused = true ∨ ((goUp30m l).dest l g ok).nearPause = true) :
    l = .change .assign := by
  cases l with
  | callFirst | callPause => cases hn
  | firstPause | pause => cases h
  | change p =>
    cases p with
    | assign => rfl
    | lock => obtain hd | hd := hd <;> cases hd
    | unlock => cases hn
  | create p =>
    cases p with
    | storeThread i t =>
      obtain rfl | rfl := gyro_cases i <;> obtain hd | hd := hd <;> cases hd
    | _ => obtain hd | hd := hd <;> cases hd
  | head time | test time =>
    simp only [goUp30m, Op.dest] at hd
    split at hd <;> obtain hd | hd := hd <;> cases hd
  | _ => obtain hd | hd := hd <;> cases hd

theorem near_step (hs : sistema.Step s a s')
    (hd : (s'.loc .goUp30m).paused = true ∨ (s'.loc .goUp30m).nearPause = true) :
    ((s.loc .goUp30m).paused = true ∨ (s.loc .goUp30m).nearPause = true) ∨
      s'.glob.currentAction = .event1 := by
  revert hd
  have hown : ∀ ok, ((goUp30m (s.loc .goUp30m)).dest (s.loc .goUp30m) s.glob ok).paused = true ∨
      ((goUp30m (s.loc .goUp30m)).dest (s.loc .goUp30m) s.glob ok).nearPause = true →
      ((s.loc .goUp30m).paused = true ∨ (s.loc .goUp30m).nearPause = true) ∨
        s.loc .goUp30m = .change .assign := by
    intro ok hd
    by_cases hi : (s.loc .goUp30m).paused = true ∨ (s.loc .goUp30m).nearPause = true
    · exact .inl hi
    · simp only [not_or, Bool.not_eq_true] at hi
      exact .inr (near_dest hi.1 hi.2 hd)
  refine step_slice hs .goUp30m (I := fun l g =>
    GoUpPc.paused l = true ∨ GoUpPc.nearPause l = true →
      ((s.loc .goUp30m).paused = true ∨ (s.loc .goUp30m).nearPause = true) ∨
        g.currentAction = .event1) .inl ?_ ?_ ?_ ?_ ?_
  · intro ok _ _ _ hd
    refine (hown ok hd).imp id fun hl => ?_
    have hop : sistema.op s .goUp30m = goUp30m (.change .assign) := congrArg goUp30m hl
    rw [hop]
    rfl
  · intro _ _ _ _ _
    exact .inl
  · intro _ hint hd
    refine (hown true hd).imp id fun hl => ?_
    have hop : sistema.op s .goUp30m = goUp30m (.change .assign) := congrArg goUp30m hl
    rw [hop] at hint
    cases hint
  · intro l _ hl
    cases hl
  · intro _ _
    exact .inl

theorem ordering_step (hs : sistema.Step s a s')
    (h : (s.loc .signalRestartLanding).ordering = true) :
    (s'.loc .signalRestartLanding).ordering = true ∨
      ∃ ok, a = .exec .signalRestartLanding .contGoUp ok := by
  refine step_slice hs .signalRestartLanding (I := fun l _ => RestartPc.ordering l = true ∨
    ∃ ok, a = .exec .signalRestartLanding .contGoUp ok) (.inl h) ?_ ?_ ?_ ?_ ?_
  · rintro ok rfl _ _
    refine (ordering_dest h).imp id fun hl => ⟨ok, ?_⟩
    rw [hl]
  · intro _ _ _ _ _
    exact .inl h
  · intro _ hint
    refine (ordering_dest h).imp id fun hl => ?_
    have hop : sistema.op s .signalRestartLanding = signalRestartLanding .contGoUp :=
      congrArg signalRestartLanding hl
    rw [hop] at hint
    cases hint
  · intro l _ hl
    cases hl
  · intro _ _
    exact .inl h

theorem awaited_step (hs : sistema.Step s a s') (hc : Heard s a) (h : Awaited s) :
    Awaited s' := by
  intro hact hnear hcont
  obtain hact₀ | ⟨ok, rfl⟩ := event3_step hs hact
  · obtain hnear₀ | hone := near_step hs hnear
    · cases hc₀ : (s.thr .goUp30m).cont with
      | true =>
        -- the signal has just been delivered: to a pause, or on the way to one
        obtain rfl := newly_spent hs hc₀ hcont
        cases hs
        rw [wake_loc_of_ne (by nofun)]
        obtain hp | hn := hnear₀
        · rw [wake_loc_self] at hnear
          generalize hl : s.loc .goUp30m = l at hp hnear
          have hop : sistema.op s .goUp30m = goUp30m l := congrArg goUp30m hl
          rw [hop] at hnear
          cases l with
          | firstPause | pause => obtain hnear | hnear := hnear <;> cases hnear
          | _ => cases hp
        · exact hc.2 rfl hn hact₀
      | false =>
        obtain ho | ⟨ok, rfl⟩ := ordering_step hs (h hact₀ hnear₀ hc₀)
        · exact ho
        · obtain ⟨hl, -, -, -, rfl⟩ := hs.exec_inv
          have hop : sistema.op s .signalRestartLanding = signalRestartLanding .contGoUp :=
            congrArg signalRestartLanding hl
          rw [effect_cont, hop] at hcont
          have hsent : (signalRestartLanding .contGoUp).signals .cont s.glob = some .goUp30m :=
            hc.1 rfl
          simp [hsent] at hcont
    · cases hact.symm.trans hone
  · obtain ⟨hl, -, -, -, rfl⟩ := hs.exec_inv
    have hop : sistema.op s .signalRestartLanding = signalRestartLanding (.change .assign) :=
      congrArg signalRestartLanding hl
    rw [effect_loc_self, hop]
    rfl

/-- When no order of a climb is spent on the way to a `pause`, nobody is left stranded. -/
theorem wakeup_not_lost (h : sistema.Run Heard (init inp) tr s) : ¬ Stranded s := by
  rintro ⟨hact, -, hp, hcont, hord, -⟩
  have haw : Awaited s :=
    h.invariant (fun hact => by cases hact) fun _ _ _ hi hs hc => awaited_step hs hc hi
  cases hord.symm.trans (haw hact (.inl hp) hcont)

/-- A climb is ordered while `go_up_30m` is in its first `pause`. -/
theorem wakeup_pending : ∃ tr s, sistema.Run Heard (init ⟨4, 100, fun _ => 1, 0⟩) tr s ∧
    s.glob.currentAction = .event3 ∧ (s.loc .goUp30m).paused = true ∧
    (s.loc .signalRestartLanding).ordering = false ∧ ¬ Stranded s := by
  have hrun : ∃ tr s, sistema.Run Heard (init ⟨4, 100, fun _ => 1, 0⟩) tr s ∧
      s.glob.currentAction = .event3 ∧ (s.loc .goUp30m).paused = true ∧
      (s.loc .signalRestartLanding).ordering = false := by
    refine run_of_check (boot ++ burst .goUp30m 1 ++ burst .signalRestartLanding 19) ?_
    decide +kernel
  obtain ⟨tr, s, h, hact, hp, ho⟩ := hrun
  exact ⟨tr, s, h, hact, hp, ho, wakeup_not_lost h⟩

/-- The order comes before the first `pause`, and then the simulator levels the rocket. -/
theorem wakeup_lost : ∃ inp s, sistema.Reachable (init inp) s ∧ Stranded s := by
  have hrun : ∃ tr s, sistema.Run Any (init ⟨4, 100, fun _ => 1, 0⟩) tr s ∧ Stranded s := by
    refine run_of_check (boot ++ burst .signalRestartLanding 19 ++ [.cont .goUp30m] ++
      burst .goUp30m 1 ++ [.env (.gyro 0 0), .env (.gyro 1 0)]) ?_
    decide +kernel
  obtain ⟨tr, s, h, hs⟩ := hrun
  exact ⟨_, s, h.reachable, hs⟩

end Sistema
