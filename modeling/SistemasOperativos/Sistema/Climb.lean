import SistemasOperativos.Sistema.Ticks
import SistemasOperativos.Sistema.Schedules

/-!
# The climb of thirty metres

From `EVENT_3` to `EVENT_1` the thread `go_up_30m` adds its rate five times. What the
engine takes away in between is not given back.
-/
namespace Sistema

open Threads Threads.Program

variable {s s' s₀ s₁ s₂ s₃ : State} {a : Label} {tr : List Label} {ok ok' : Bool}

def GoUpPc.paused : GoUpPc → Bool
  | .firstPause | .pause => true
  | _ => false

/-- The thread has made `n` of its five additions. Once it is over it will make no
climb complete. -/
def GoUpPc.Done (n : ℕ) : GoUpPc → Prop
  | .firstPause | .pause => n = 0
  | .head time | .testcancel time | .sleep time | .lockDist time | .test time
  | .unlockClimb time => n = time ∧ time ≤ 5
  | .unlockTop | .create _ | .change .lock | .change .assign => n = 5
  | .change .unlock | .callFirst | .callPause => False
  | .finished => True

/-- `change_action(EVENT_1)` of `go_up_30m`, with which a climb ends. -/
def endsClimb : Label → Bool
  | .exec .goUp30m (.change .assign) _ => true
  | _ => false

/-- The climb is not over. -/
def Climbing (_ : State) (a : Label) : Prop := endsClimb a = false

instance (s : State) (a : Label) : Decidable (Climbing s a) :=
  inferInstanceAs (Decidable (_ = false))

theorem paused_done {l : GoUpPc} (h : l.paused = true) : l.Done 0 := by
  cases l with
  | firstPause | pause => rfl
  | _ => cases h

theorem done_dest {n : ℕ} {l : GoUpPc} (h : l.Done n)
    (he : endsClimb (.exec .goUp30m l ok) = false) (g : Shared) :
    ((goUp30m l).dest l g ok).Done (n + (ascends (.exec .goUp30m l ok)).toNat) := by
  cases l with
  | firstPause | pause => exact ⟨h, Nat.zero_le 5⟩
  | head time =>
    simp only [goUp30m, Op.dest]
    split
    · exact h
    · trivial
  | test time =>
    obtain ⟨rfl, hle⟩ := h
    by_cases ht : n < 5
    · have hsucc : n + 1 ≤ 5 := Nat.succ_le_of_lt ht
      simp only [goUp30m, Op.dest, ascends, ht, if_true, decide_true]
      exact ⟨rfl, hsucc⟩
    · have : n = 5 := by omega
      simp [goUp30m, Op.dest, ascends, this, GoUpPc.Done]
  | create p =>
    cases p with
    | storeThread i t => obtain rfl | rfl := gyro_cases i <;> exact h
    | _ => exact h
  | change p =>
    cases p with
    | lock => exact h
    | assign => cases he
    | unlock => exact h.elim
  | callFirst | callPause => exact h.elim
  | finished => trivial
  | _ => exact h

theorem done_step (hs : sistema.Step s a s') (hc : Climbing s a) {n : ℕ}
    (h : (s.loc .goUp30m).Done n) : (s'.loc .goUp30m).Done (n + (ascends a).toNat) := by
  cases hs with
  | @exec t ok _ _ _ =>
    by_cases ht : t = .goUp30m
    · subst ht
      rw [effect_loc_self]
      exact done_dest h hc s.glob
    · have hx : ascends (.exec t (s.loc t) ok) = false := by
        cases t with
        | goUp30m => exact absurd rfl ht
        | _ => rfl
      rw [effect_loc_of_ne (Ne.symm ht), hx]
      exact h
  | die =>
    rw [die_loc]
    exact h
  | @cont t _ _ =>
    by_cases ht : t = .goUp30m
    · subst ht
      rw [wake_loc_self]
      split
      · rename_i hi
        have hop : sistema.op s .goUp30m = goUp30m (s.loc .goUp30m) := rfl
        have hquiet : endsClimb (.exec .goUp30m (s.loc .goUp30m) true) = false ∧
            ascends (.exec .goUp30m (s.loc .goUp30m) true) = false := by
          rw [hop] at hi
          cases hl : s.loc .goUp30m with
          | firstPause | pause | sleep => exact ⟨rfl, rfl⟩
          | create p => exact ⟨rfl, rfl⟩
          | change p => rw [hl] at hi; cases p <;> cases hi
          | _ => rw [hl] at hi; cases hi
        have hd := done_dest h hquiet.1 s.glob
        rw [hquiet.2] at hd
        exact hd
      · exact h
    · rw [wake_loc_of_ne (Ne.symm ht)]
      exact h
  | @int t l _ _ hl =>
    cases t with
    | main =>
      rw [handle_loc_of_ne (by nofun)]
      exact h
    | _ => cases hl
  | env => exact h

/-- Along a climb the additions are those of its labels. -/
theorem done_run (h : sistema.Run Climbing s₁ tr s) (hp : (s₁.loc .goUp30m).paused = true) :
    (s.loc .goUp30m).Done (tr.countP ascends) := by
  induction h with
  | nil => exact paused_done hp
  | @snoc tr s s' a _ hs hc ih =>
    have hstep := done_step hs hc ih
    rw [List.countP_append, List.countP_singleton]
    cases ha : ascends a <;> rw [ha] at hstep <;> exact hstep

/-- The engine lowers the rocket in `EVENT_3` or `EVENT_4`. -/
def LowersInClimb (s : State) (a : Label) : Prop :=
  descends a = true ∧ (s.glob.currentAction = .event3 ∨ s.glob.currentAction = .event4) ∧
    (descend s.glob).distance < s.glob.distance

/-- What a climb gains in all: each tick inside takes a metre from it. -/
theorem climb_net (hs : sistema.Step s₀ (.exec .signalRestartLanding (.change .assign) ok) s₁)
    (hp : (s₁.loc .goUp30m).paused = true) (hc : sistema.Run Climbing s₁ tr s₂)
    (he : sistema.Step s₂ (.exec .goUp30m (.change .assign) ok') s₃) :
    s₃.glob.distance + tr.countP descends = s₀.glob.distance + 30 := by
  have hdone := done_run hc hp
  rw [he.exec_inv.1] at hdone
  have hfive : tr.countP ascends = 5 := hdone
  have hrun := distance_run hc
  have hfirst : s₁.glob.distance + 0 = s₀.glob.distance + 0 := distance_step hs
  have hlast : s₃.glob.distance + 0 = s₂.glob.distance + 0 := distance_step he
  rw [hfive] at hrun
  simp only [rateGoUp] at hrun
  omega

/-- A complete climb is one of thirty metres, with the engine out of it, exactly when
no tick of the engine falls inside. -/
theorem climb_exact (hs : sistema.Step s₀ (.exec .signalRestartLanding (.change .assign) ok) s₁)
    (hp : (s₁.loc .goUp30m).paused = true) (hc : sistema.Run Climbing s₁ tr s₂)
    (he : sistema.Step s₂ (.exec .goUp30m (.change .assign) ok') s₃) :
    (sistema.Run (fun s a => ¬ LowersInClimb s a) s₁ tr s₂ ∧
      s₃.glob.distance = s₀.glob.distance + 30) ↔ ∀ a ∈ tr, descends a = false := by
  have hnet := climb_net hs hp hc he
  refine ⟨fun ⟨_, hd⟩ a ha => ?_, fun hn => ⟨?_, ?_⟩⟩
  · have h0 : tr.countP descends = 0 := by omega
    simpa using List.countP_eq_zero.mp h0 a ha
  · refine (hc.and hn).mono fun s a ⟨_, ha⟩ hl => ?_
    rw [hl.1] at ha
    cases ha
  · have h0 : tr.countP descends = 0 := List.countP_eq_zero.mpr (by simpa using hn)
    omega

/-! ## Two climbs -/

/-- `go_up_30m` pauses, and the restart routine comes to its `change_action(EVENT_3)`. -/
def toClimb : Schedule := boot ++ burst .goUp30m 1 ++ burst .signalRestartLanding 10

/-- It goes on until `go_up_30m` wakes. -/
def wakeUp : Schedule := burst .signalRestartLanding 9 ++ [.cont .goUp30m]

/-- From four metres, with the gyroscopes off zero, a climb during which the engine
sleeps. -/
theorem climb_to_thirty_four : ∃ tr₀ s₀ s₁ tr s₂ s₃,
    sistema.Run Any (init ⟨4, 100, fun _ => 1, 0⟩) tr₀ s₀ ∧
    sistema.Step s₀ (.exec .signalRestartLanding (.change .assign) true) s₁ ∧
    (s₁.loc .goUp30m).paused = true ∧ sistema.Run Climbing s₁ tr s₂ ∧
    sistema.Step s₂ (.exec .goUp30m (.change .assign) true) s₃ ∧
    sistema.Run (fun s a => ¬ LowersInClimb s a) s₁ tr s₂ ∧
    s₃.glob.distance = s₀.glob.distance + 30 := by
  have hrun : ∃ tr₀ s₀, sistema.Run Any (init ⟨4, 100, fun _ => 1, 0⟩) tr₀ s₀ ∧
      (s₀.Running .signalRestartLanding ∧ s₀.loc .signalRestartLanding = .change .assign) ∧
      ((sistema.effect s₀ .signalRestartLanding true).loc .goUp30m).paused = true ∧
      ((sistema.play Climbing (wakeUp ++ burst .goUp30m 45) []
        (sistema.effect s₀ .signalRestartLanding true)).any fun r =>
          (∀ a ∈ r.1, descends a = false) ∧ r.2.Running .goUp30m ∧
            r.2.loc .goUp30m = .change .assign) = true := by
    refine run_of_check toClimb ?_
    decide +kernel
  obtain ⟨tr₀, s₀, hr₀, ⟨hrun₀, hl₀⟩, hp, hplay⟩ := hrun
  obtain ⟨tr, s₂, hr, hn, hrun₂, hl₂⟩ := run_of_check (Q := fun tr s =>
    (∀ a ∈ tr, descends a = false) ∧ s.Running .goUp30m ∧ s.loc .goUp30m = .change .assign) _ hplay
  have hs := step_at hrun₀ hl₀ rfl trivial
  have he := step_at hrun₂ hl₂ rfl trivial
  exact ⟨tr₀, s₀, _, tr, s₂, _, hr₀, hs, hp, hr, he, (climb_exact hs hp hr he).mpr hn⟩

/-- The same climb with one tick of the engine before the second addition. -/
theorem climb_with_tick : ∃ inp tr₀ s₀ s₁ tr₁ u u' tr₂ s₂ s₃,
    (inp.distancia < 5 ∧ inp.giros 0 ≠ 0) ∧ sistema.Run Any (init inp) tr₀ s₀ ∧
    sistema.Step s₀ (.exec .signalRestartLanding (.change .assign) true) s₁ ∧
    (s₁.loc .goUp30m).paused = true ∧ sistema.Run Climbing s₁ tr₁ u ∧
    (sistema.Step u (.exec engine .descend true) u' ∧
      LowersInClimb u (.exec engine .descend true)) ∧
    sistema.Run Climbing u' tr₂ s₂ ∧
    sistema.Step s₂ (.exec .goUp30m (.change .assign) true) s₃ ∧
    s₃.glob.distance = s₀.glob.distance + 29 := by
  have hrun : ∃ tr₀ s₀, sistema.Run Any (init ⟨4, 100, fun _ => 1, 0⟩) tr₀ s₀ ∧
      (s₀.Running .signalRestartLanding ∧ s₀.loc .signalRestartLanding = .change .assign) ∧
      ((sistema.effect s₀ .signalRestartLanding true).loc .goUp30m).paused = true ∧
      ((sistema.play Climbing (wakeUp ++ burst .goUp30m 6 ++ burst engine 5) []
        (sistema.effect s₀ .signalRestartLanding true)).any fun r =>
          (r.1.countP descends = 0 ∧ r.2.Running engine ∧ r.2.loc engine = .descend ∧
            r.2.glob.currentAction = .event3) ∧
          ((sistema.play Climbing (burst engine 10 ++ burst .goUp30m 39) []
            (sistema.effect r.2 engine true)).any fun r' =>
              r'.1.countP descends = 0 ∧ r'.2.Running .goUp30m ∧
                r'.2.loc .goUp30m = .change .assign) = true) = true := by
    refine run_of_check toClimb ?_
    decide +kernel
  obtain ⟨tr₀, s₀, hr₀, ⟨hrun₀, hl₀⟩, hp, hplay⟩ := hrun
  obtain ⟨tr₁, u, hr₁, ⟨h0, hrun₁, hl₁, hact⟩, hplay⟩ := run_of_check (Q := fun tr s =>
    (tr.countP descends = 0 ∧ s.Running engine ∧ s.loc engine = .descend ∧
      s.glob.currentAction = .event3) ∧
    ((sistema.play Climbing (burst engine 10 ++ burst .goUp30m 39) []
      (sistema.effect s engine true)).any fun r' =>
        r'.1.countP descends = 0 ∧ r'.2.Running .goUp30m ∧
          r'.2.loc .goUp30m = .change .assign) = true) _ hplay
  obtain ⟨tr₂, s₂, hr₂, h0', hrun₂, hl₂⟩ := run_of_check (Q := fun tr s =>
    tr.countP descends = 0 ∧ s.Running .goUp30m ∧ s.loc .goUp30m = .change .assign) _ hplay
  have hs := step_at hrun₀ hl₀ rfl trivial
  have hu := step_at hrun₁ hl₁ rfl trivial
  have he := step_at hrun₂ hl₂ rfl trivial
  refine ⟨_, tr₀, s₀, _, tr₁, u, _, tr₂, s₂, _, ⟨by decide, by decide⟩, hr₀, hs, hp, hr₁,
    ⟨hu, rfl, .inl hact, ?_⟩, hr₂, he, ?_⟩
  · rw [descend_eq]
    exact Int.sub_one_lt_of_le le_rfl
  · have hnet := climb_net hs hp ((hr₁.snoc hu rfl).append hr₂) he
    simp only [List.countP_append, h0, h0'] at hnet
    have hone : [Threads.Label.exec engine .descend true].countP descends = 1 := rfl
    rw [hone] at hnet
    omega

end Sistema
