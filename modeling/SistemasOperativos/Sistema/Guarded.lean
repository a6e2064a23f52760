import SistemasOperativos.Sistema.Locks
import SistemasOperativos.Sistema.Schedules

/-!
# Variables and their locks

Four of the shared variables are changed by several threads, each by a step of its own.
What makes such a step the whole `+=` of the source is that nobody changes the variable
while somebody else has its lock.
-/
namespace Sistema

open Threads Threads.Program

variable {s s' : State} {a : Label} {t : Tid} {tr tr' : List Label} {inp : Input}
variable {C : State → Label → Prop}

inductive Variable
  | distance
  | gasoline
  | currentAction
  | msgRead
  deriving DecidableEq, Repr

/-- The semaphore that the source takes around its changes. -/
def Variable.sem : Variable → Sem
  | distance => .dist
  | gasoline => .gas
  | currentAction => .action
  | msgRead => .read

/-- The variable has one value in both. -/
def Variable.Same : Variable → Shared → Shared → Prop
  | distance, g, g' => g'.distance = g.distance
  | gasoline, g, g' => g'.gasoline = g.gasoline
  | currentAction, g, g' => g'.currentAction = g.currentAction
  | msgRead, g, g' => g'.msgRead = g.msgRead

theorem Variable.same_refl (x : Variable) (g : Shared) : x.Same g g := by
  cases x <;> rfl

theorem Variable.Same.trans {x : Variable} {g g' g'' : Shared} (h : x.Same g g')
    (h' : x.Same g' g'') : x.Same g g'' := by
  cases x <;> exact Eq.trans h' h

theorem Variable.shared (x : Variable) : x.sem.shared = true := by
  cases x <;> rfl

theorem read_at_count {l : Loc t} (h : atCount t l = true) : .read ∈ holds t l := by
  unfold atCount at h
  split at h <;> first
    | cases h; done
    | exact List.mem_cons_self (a := Sem.read) (l := [.sock])

/-- A location that changes a variable is one with its lock. -/
theorem writes_guarded {l : Loc t} {g g' : Shared} (h : Writes t l g g') (x : Variable) :
    x.Same g g' ∨ x.sem ∈ holds t l := by
  cases h with
  | count h =>
    cases x with
    | msgRead => exact .inr (read_at_count h)
    | _ => exact .inl rfl
  | descend =>
    rw [show descend g = { g with distance := (descend g).distance, ditBlock := (descend g).ditBlock }
      by unfold descend; split <;> rfl]
    cases x with
    | distance => exact .inr (by simp [holds, EnginePc.holds, Variable.sem])
    | _ => exact .inl rfl
  | _ => cases x <;> first
    | exact .inl rfl
    | exact .inr (by simp [holds, Variable.sem, MainPc.holds, GyroscopePc.holds, EnginePc.holds,
        GoUpPc.holds, RestartPc.holds, LandingPc.holds, ChangePc.holds])

/-- A variable changes in a step of the one thread that has its lock. -/
theorem changed_by_holder (h : sistema.Run C (init inp) tr s) (hs : sistema.Step s a s')
    (x : Variable) : x.Same s.glob s'.glob ∨
      ∃ t ok, a = .exec t (s.loc t) ok ∧ x.sem ∈ s.held t ∧ ∀ u, x.sem ∈ s.held u → u = t := by
  obtain ⟨t, l, ok, rfl, -, rfl, hw⟩ | ⟨w, rfl, hw⟩ | hw := step_writes hs
  · obtain hsame | hx := writes_guarded hw x
    · exact .inl hsame
    · rw [← held_eq h t] at hx
      exact .inr ⟨t, ok, rfl, hx, fun u hu => (mutex h x.shared).unique hu hx⟩
  · rw [hw]
    cases w <;> exact .inl (by cases x <;> rfl)
  · rw [hw]
    exact .inl (x.same_refl _)

/-- The thread makes a step of its program. -/
def steps (t : Tid) : Label → Bool
  | .exec u _ _ => u = t
  | _ => false

/-- Somebody else's step takes no lock away. -/
theorem held_other (hs : sistema.Step s a s') (ha : steps t a = false) : s'.held t = s.held t := by
  cases hs with
  | @exec u ok _ _ _ =>
    have hne : t ≠ u := by
      rintro rfl
      simp [steps] at ha
    exact effect_held_of_ne hne
  | env => rfl
  | _ => simp

/-- As long as a thread stands still with the lock of a variable, whatever the others, the
simulator and the signals do, the variable keeps its value. -/
theorem stable_while_held (h : sistema.Run C (init inp) tr s) (x : Variable)
    (hx : x.sem ∈ s.held t) (h' : sistema.Run (fun _ a => steps t a = false) s tr' s') :
    x.Same s.glob s'.glob := by
  suffices x.Same s.glob s'.glob ∧ x.sem ∈ s'.held t from this.1
  induction h' with
  | nil => exact ⟨x.same_refl _, hx⟩
  | snoc hr hs ha ih =>
    obtain ⟨hsame, hheld⟩ := ih
    have hrun := (h.mono fun _ _ _ => trivial).append (hr.mono fun _ _ _ => trivial)
    refine ⟨?_, held_other hs ha ▸ hheld⟩
    obtain hkept | ⟨u, ok, rfl, -, huniq⟩ := changed_by_holder (C := Any) hrun hs x
    · exact hsame.trans hkept
    · have htu := huniq t hheld
      simp [steps, htu] at ha

/-- The engine stands at its second lock, and meanwhile five other threads make a round. -/
theorem height_stable : ∃ tr s tr' s', sistema.Run Any (init ⟨10, 100, fun _ => 0, 0⟩) tr s ∧
    Variable.distance.sem ∈ s.held (.pricipalEngineThread 0) ∧
    sistema.Run (fun _ a => steps (.pricipalEngineThread 0) a = false) s tr' s' ∧
    40 ≤ tr'.length ∧ Variable.distance.Same s.glob s'.glob := by
  have hrun : ∃ tr s, sistema.Run Any (init ⟨10, 100, fun _ => 0, 0⟩) tr s ∧
      Variable.distance.sem ∈ s.held (.pricipalEngineThread 0) ∧
      ((sistema.play (fun _ a => steps (.pricipalEngineThread 0) a = false)
        (gyroReports ++ manualReport ++ burst .signalLandingCheck 2 ++ [.env (.gyro 0 3)]) [] s).any
          fun r => 40 ≤ r.1.length) = true := by
    refine run_of_check (boot ++ burst (.pricipalEngineThread 0) 4) ?_
    decide +kernel
  obtain ⟨tr, s, h, hx, hplay⟩ := hrun
  obtain ⟨tr', s', h', hl⟩ := run_of_check (Q := fun tr _ => 40 ≤ tr.length) _ hplay
  exact ⟨tr, s, tr', s', h, hx, h', hl, stable_while_held h .distance hx h'⟩

end Sistema
