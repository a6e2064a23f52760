import SistemasOperativos.Threads.Machine

/-! Rules for runs, and schedules that can be executed. -/
namespace Threads.Program

variable {S G M E T : Type} {L : T → Type} [DecidableEq S] [DecidableEq T]
variable {P : Program S G M E T L} {C D : State S G T L → Label E T L → Prop}
variable {s₀ s s' : State S G T L} {tr tr' : List (Label E T L)}

/-- What a label says about its step. -/
theorem Step.exec_inv {t : T} {l : L t} {ok : Bool} (h : P.Step s (.exec t l ok) s') :
    s.loc t = l ∧ s.Running t ∧ ((P.op s t).cancelPoint = true → s.cancelled t = false) ∧
      (P.op s t).Enabled s.sem ∧ s' = P.effect s t ok := by
  generalize ha : Label.exec t l ok = a at h
  cases h with
  | exec ok' hr hc he =>
    cases ha
    exact ⟨rfl, hr, hc, he, rfl⟩
  | _ => cases ha

theorem Step.die_inv {t : T} {l : L t} (h : P.Step s (.die t l) s') :
    s.loc t = l ∧ s.Running t ∧ (P.op s t).cancelPoint = true ∧ s.cancelled t = true ∧
      s' = Program.die s t := by
  generalize ha : Label.die t l = a at h
  cases h with
  | die hr hp hc =>
    cases ha
    exact ⟨rfl, hr, hp, hc, rfl⟩
  | _ => cases ha

theorem Run.mono (hCD : ∀ s a, C s a → D s a) (h : P.Run C s₀ tr s) : P.Run D s₀ tr s := by
  induction h with
  | nil => exact .nil
  | snoc _ hs hc ih => exact .snoc ih hs (hCD _ _ hc)

/-- A condition that holds of every step out of a reachable state may be added. -/
theorem Run.strengthen (h : P.Run C s₀ tr s) (hD : ∀ tr s a s', P.Run C s₀ tr s → P.Step s a s' →
    C s a → D s a) : P.Run D s₀ tr s := by
  induction h with
  | nil => exact .nil
  | snoc hr hs hc ih => exact .snoc ih hs (hD _ _ _ _ hr hs hc)

/-- Conditions on the labels of a run may be joined to those on its steps. -/
theorem Run.and (h : P.Run C s₀ tr s) {A : Label E T L → Prop} (hA : ∀ a ∈ tr, A a) :
    P.Run (fun s a => C s a ∧ A a) s₀ tr s := by
  induction h with
  | nil => exact .nil
  | snoc _ hs hc ih =>
    exact .snoc (ih fun a ha => hA a (by simp [ha])) hs ⟨hc, hA _ (by simp)⟩

theorem Run.append (h : P.Run C s₀ tr s) (h' : P.Run C s tr' s') : P.Run C s₀ (tr ++ tr') s' := by
  induction h' with
  | nil => simpa using h
  | snoc _ hs hc ih => simpa using Run.snoc ih hs hc

theorem Run.reachable (h : P.Run C s₀ tr s) : P.Reachable s₀ s :=
  ⟨tr, h.mono fun _ _ _ => trivial⟩

/-- An invariant of the steps that satisfy `C` holds along their runs. -/
theorem Run.invariant {I : State S G T L → Prop} (h : P.Run C s₀ tr s) (h₀ : I s₀)
    (hstep : ∀ s a s', I s → P.Step s a s' → C s a → I s') : I s := by
  induction h with
  | nil => exact h₀
  | snoc _ hs hc ih => exact hstep _ _ _ ih hs hc

/-- A ghost `o` observes the labels of a run and takes no part in it. -/
theorem Run.invariant_ghost {Γ : Type} {upd : Γ → Label E T L → Γ} {o : Γ}
    {I : Γ → State S G T L → Prop} (h : P.Run C s₀ tr s) (h₀ : I o s₀)
    (hstep : ∀ o s a s', I o s → P.Step s a s' → C s a → I (upd o a) s') :
    I (tr.foldl upd o) s := by
  induction h with
  | nil => exact h₀
  | snoc _ hs hc ih => simpa using hstep _ _ _ _ ih hs hc

/-! ## Schedules -/

/-- The choices of a scheduler; the label follows from the state. -/
inductive Choice (E T : Type)
  | exec (t : T) (ok : Bool)
  | die (t : T)
  | cont (t : T)
  | int (t : T)
  | env (e : E)
  deriving Repr

variable (P)

def next (s : State S G T L) : Choice E T → Option (Label E T L × State S G T L)
  | .exec t ok =>
    if s.Running t ∧ ((P.op s t).cancelPoint = true → s.cancelled t = false) ∧
        (P.op s t).Enabled s.sem then
      some (.exec t (s.loc t) ok, P.effect s t ok)
    else none
  | .die t =>
    if s.Running t ∧ (P.op s t).cancelPoint = true ∧ s.cancelled t = true then
      some (.die t (s.loc t), die s t)
    else none
  | .cont t => if s.Running t ∧ (s.thr t).cont = true then some (.cont t, P.wake s t) else none
  | .int t =>
    if s.Running t ∧ (s.thr t).int = true then
      match P.onInt t (s.loc t) with
      | some l => some (.int t, handle s t l)
      | none => none
    else none
  | .env e => if s.ended = false then some (.env e, P.disturb s e) else none

theorem next_sound {c : Choice E T} {a : Label E T L} (h : P.next s c = some (a, s')) :
    P.Step s a s' := by
  cases c with
  | exec t ok =>
    simp only [next, Option.ite_none_right_eq_some, Option.some.injEq, Prod.mk.injEq] at h
    obtain ⟨⟨hr, hc, he⟩, rfl, rfl⟩ := h
    exact .exec ok hr hc he
  | die t =>
    simp only [next, Option.ite_none_right_eq_some, Option.some.injEq, Prod.mk.injEq] at h
    obtain ⟨⟨hr, hp, hc⟩, rfl, rfl⟩ := h
    exact .die hr hp hc
  | cont t =>
    simp only [next, Option.ite_none_right_eq_some, Option.some.injEq, Prod.mk.injEq] at h
    obtain ⟨⟨hr, hs⟩, rfl, rfl⟩ := h
    exact .cont hr hs
  | int t =>
    simp only [next, Option.ite_none_right_eq_some] at h
    obtain ⟨⟨hr, hs⟩, h⟩ := h
    split at h
    · rename_i l hl
      simp only [Option.some.injEq, Prod.mk.injEq] at h
      obtain ⟨rfl, rfl⟩ := h
      exact .int hr hs hl
    · cases h
  | env e =>
    simp only [next, Option.ite_none_right_eq_some, Option.some.injEq, Prod.mk.injEq] at h
    obtain ⟨hr, rfl, rfl⟩ := h
    exact .env e hr

/-- Every step is some choice of a scheduler. -/
theorem next_complete {a : Label E T L} (h : P.Step s a s') : ∃ c, P.next s c = some (a, s') := by
  cases h with
  | @exec t ok hr hc he => exact ⟨.exec t ok, by simpa [next, hr, he] using hc⟩
  | @die t hr hp hc => exact ⟨.die t, by simp [next, hr, hp, hc]⟩
  | @cont t hr hs => exact ⟨.cont t, by simp [next, hr, hs]⟩
  | @int t l hr hs hl => exact ⟨.int t, by simp [next, hr, hs, hl]⟩
  | env e hr => exact ⟨.env e, by simp [next, hr]⟩

instance (s : State S G T L) (a : Label E T L) : Decidable (Any s a) := isTrue trivial

variable [∀ s a, Decidable (C s a)]
variable (C)

/-- The run of a schedule, as long as each choice is possible and satisfies `C`. -/
def play : List (Choice E T) → List (Label E T L) → State S G T L →
    Option (List (Label E T L) × State S G T L)
  | [], tr, s => some (tr, s)
  | c :: cs, tr, s =>
    match P.next s c with
    | some (a, s') => if C s a then play cs (tr ++ [a]) s' else none
    | none => none

variable {P C}

theorem run_of_play {cs : List (Choice E T)} (hr : P.Run C s₀ tr s)
    (h : P.play C cs tr s = some (tr', s')) : P.Run C s₀ tr' s' := by
  induction cs generalizing tr s with
  | nil =>
    simp only [play, Option.some.injEq, Prod.mk.injEq] at h
    obtain ⟨rfl, rfl⟩ := h
    exact hr
  | cons c cs ih =>
    simp only [play] at h
    split at h
    · rename_i a u hn
      split at h
      · rename_i hc
        exact ih (.snoc hr (P.next_sound hn) hc) h
      · cases h
    · cases h

/-- A schedule whose run ends as computed. -/
theorem run_of_check {Q : List (Label E T L) → State S G T L → Prop} [∀ tr s, Decidable (Q tr s)]
    (cs : List (Choice E T)) (h : ((P.play C cs [] s₀).any fun r => Q r.1 r.2) = true) :
    ∃ tr s, P.Run C s₀ tr s ∧ Q tr s := by
  cases hp : P.play C cs [] s₀ with
  | none => simp [hp] at h
  | some r =>
    obtain ⟨tr, s⟩ := r
    exact ⟨tr, s, run_of_play .nil hp, by simpa [hp] using h⟩

/-- One thread takes `n` steps, and its datagrams are delivered. -/
def burst (t : T) (n : ℕ) : List (Choice E T) := List.replicate n (.exec t true)

end Threads.Program
