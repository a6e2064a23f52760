import Mathlib.Data.List.Nodup
import Mathlib.Data.Set.Basic
import SistemasOperativos.Threads.Effect

set_option linter.unusedSectionVars false

/-! Lock discipline, mutual exclusion and circular waits. -/
namespace Threads

variable {S G M E T : Type} {L : T → Type} [DecidableEq S] [DecidableEq T]

/-- A static account of the locks held at each location, checked against the code. -/
structure Discipline (P : Program S G M E T L) where
  holds : (t : T) → L t → List S
  start : ∀ t, holds t (P.start t) = []
  step : ∀ t l g ok, holds t ((P.code t l).dest l g ok) = (P.code t l).held P.lock (holds t l)
  int : ∀ t l l', P.onInt t l = some l' → holds t l' = holds t l
  posts : ∀ t l x k, P.code t l = .post x k → P.lock x = true → x ∈ holds t l
  nodup : ∀ t l, (holds t l).Nodup

namespace Program
variable {P : Program S G M E T L} {s s' s₀ : State S G T L} {t u : T} {x y : S}
variable {a : Label E T L} {C : State S G T L → Label E T L → Prop} {tr : List (Label E T L)}

def Tracks (D : Discipline P) (s : State S G T L) : Prop := ∀ t, s.held t = D.holds t (s.loc t)

theorem tracks_step (D : Discipline P) (h : P.Step s a s') (hs : Tracks D s) : Tracks D s' := by
  intro u
  cases h with
  | @exec t ok _ _ _ =>
    by_cases hu : u = t
    · subst hu
      rw [effect_held_self, effect_loc_self, hs u]
      exact (D.step u _ _ _).symm
    · rw [effect_held_of_ne hu, effect_loc_of_ne hu, hs u]
  | die => simpa using hs u
  | @cont t _ _ =>
    by_cases hu : u = t
    · subst hu
      rw [wake_held, wake_loc_self, hs u]
      split
      · rename_i hi
        exact ((D.step u _ _ _).trans (Op.interruptible_held hi _)).symm
      · rfl
    · rw [wake_held, wake_loc_of_ne hu, hs u]
  | @int t l _ _ hl =>
    by_cases hu : u = t
    · subst hu
      rw [handle_held, handle_loc_self, hs u, D.int u _ _ hl]
    · rw [handle_held, handle_loc_of_ne hu, hs u]
  | env => exact hs u

theorem tracks_run (D : Discipline P) (h : P.Run C s₀ tr s) (h₀ : Tracks D s₀) : Tracks D s :=
  h.invariant h₀ fun _ _ _ hs hstep _ => tracks_step D hstep hs

/-- The semaphore is free, or taken by exactly one thread, alive or not. -/
def Mutex (s : State S G T L) (x : S) : Prop :=
  (s.sem x = 1 ∧ ∀ t, x ∉ s.held t) ∨
    (s.sem x = 0 ∧ ∃ t, x ∈ s.held t ∧ ∀ u, x ∈ s.held u → u = t)

theorem Mutex.unique (h : Mutex s x) (ht : x ∈ s.held t) (hu : x ∈ s.held u) : t = u := by
  obtain ⟨_, hn⟩ | ⟨_, w, _, hw⟩ := h
  · exact absurd ht (hn t)
  · exact (hw t ht).trans (hw u hu).symm

theorem Mutex.congr (h : Mutex s x) (hx : s'.sem x = s.sem x)
    (hh : ∀ t, x ∈ s'.held t ↔ x ∈ s.held t) : Mutex s' x := by
  simpa only [Mutex, hx, hh] using h

theorem mutex_wait (h : Mutex s x) {k : L t} (ho : P.op s t = .wait x k) (hl : P.lock x = true)
    (he : (P.op s t).Enabled s.sem) : Mutex (P.effect s t ok) x := by
  have hpos : 0 < s.sem x := by rwa [ho] at he
  obtain ⟨h1, hn⟩ | ⟨h0, _⟩ := h
  · refine .inr ⟨by simp [ho, Op.sems, h1], t, by simp [ho, Op.held, hl], ?_⟩
    intro u hu
    by_contra hne
    rw [effect_held_of_ne hne] at hu
    exact hn u hu
  · omega

theorem mutex_post (D : Discipline P) (hs : Tracks D s) (h : Mutex s x) {k : L t}
    (ho : P.op s t = .post x k) (hl : P.lock x = true) : Mutex (P.effect s t ok) x := by
  have ht : x ∈ s.held t := hs t ▸ D.posts t _ x k ho hl
  obtain ⟨_, hn⟩ | ⟨h0, w, hw, huniq⟩ := h
  · exact absurd ht (hn t)
  · refine .inl ⟨by simp [ho, Op.sems, h0], ?_⟩
    intro u hu
    by_cases hut : u = t
    · subst hut
      have hnd : (s.held u).Nodup := hs u ▸ D.nodup u _
      simp [ho, Op.held, hnd.mem_erase_iff] at hu
    · rw [effect_held_of_ne hut] at hu
      exact hut ((huniq u hu).trans (huniq t ht).symm)

theorem mutex_step (D : Discipline P) (hs : Tracks D s) (h : P.Step s a s') (hl : P.lock x = true)
    (hcopy : ∀ t l y k, P.code t l ≠ .copy x y k) (hm : Mutex s x) : Mutex s' x := by
  cases h with
  | @exec t ok _ _ he =>
    by_cases hw : ∃ k, P.op s t = .wait x k
    · obtain ⟨k, hw⟩ := hw
      exact mutex_wait hm hw hl he
    by_cases hp : ∃ k, P.op s t = .post x k
    · obtain ⟨k, hp⟩ := hp
      exact mutex_post D hs hm hp hl
    have hq : (P.op s t).Quiet x := by
      cases ho : P.op s t with
      | wait y k => exact fun hy => hw ⟨k, hy ▸ ho⟩
      | post y k => exact fun hy => hp ⟨k, hy ▸ ho⟩
      | copy d y k => exact fun hy => hcopy t _ y k (hy ▸ ho)
      | _ => trivial
    refine hm.congr (Op.sems_quiet hq _) ?_
    intro u
    by_cases hu : u = t
    · subst hu
      rw [effect_held_self]
      exact Op.mem_held_quiet hq _
    · rw [effect_held_of_ne hu]
  | _ => exact hm.congr rfl fun _ => by first | exact Iff.rfl | simp

theorem mutex_run (D : Discipline P) (h : P.Run C s₀ tr s) (ht : Tracks D s₀)
    (hl : P.lock x = true) (hcopy : ∀ t l y k, P.code t l ≠ .copy x y k)
    (hm : Mutex s₀ x) : Mutex s x := by
  refine (h.invariant (I := fun s => Tracks D s ∧ Mutex s x) ⟨ht, hm⟩ ?_).2
  intro s a s' ⟨hs, hm⟩ hstep _
  exact ⟨tracks_step D hstep hs, mutex_step D hs hstep hl hcopy hm⟩

/-- No thread dies with a lock. -/
def CleanDeath (s : State S G T L) : Label E T L → Prop
  | .die t _ => s.held t = []
  | _ => True

instance (s : State S G T L) : (a : Label E T L) → Decidable (CleanDeath s a)
  | .die t _ => inferInstanceAs (Decidable (s.held t = []))
  | .exec .. | .cont _ | .int _ | .env _ => isTrue trivial

/-! ## Circular waits -/

/-- The thread is stopped in a wait on `x`. -/
def BlockedOn (P : Program S G M E T L) (s : State S G T L) (t : T) (x : S) : Prop :=
  s.Running t ∧ (∃ k, P.op s t = .wait x k) ∧ s.sem x = 0

/-- A set of threads, each stopped on a semaphore of `X` that another one holds. -/
def CircularWait (P : Program S G M E T L) (X : Set S) (s : State S G T L) (W : Set T) : Prop :=
  W.Nonempty ∧ ∀ t ∈ W, ∃ x ∈ X, BlockedOn P s t x ∧ ∃ u ∈ W, u ≠ t ∧ x ∈ s.held u

/-- Waiting only for semaphores above those held leaves no room for a cycle: the
last wait of a chain through the set would have to go higher still. -/
theorem no_circularWait {X : Set S} {W : Set T} (rank : S → ℕ) (b : ℕ)
    (hb : ∀ x ∈ X, rank x ≤ b)
    (hrank : ∀ t ∈ W, ∀ x ∈ X, BlockedOn P s t x → ∀ y ∈ X, y ∈ s.held t → rank y < rank x) :
    ¬ CircularWait P X s W := by
  rintro ⟨⟨t, ht⟩, hall⟩
  have chain : ∀ n, ∀ t ∈ W, ∀ x ∈ X, BlockedOn P s t x → (∃ u ∈ W, u ≠ t ∧ x ∈ s.held u) →
      b - rank x = n → False := by
    intro n
    induction n using Nat.strong_induction_on with
    | _ n ih =>
      rintro t _ x hx _ ⟨u, hu, _, hux⟩ hn
      obtain ⟨y, hy, hbu, hw⟩ := hall u hu
      have hlt := hrank u hu y hy hbu x hx hux
      have hle := hb y hy
      exact ih (b - rank y) (by omega) u hu y hy hbu hw rfl
  obtain ⟨x, hx, hbt, hw⟩ := hall t ht
  exact chain _ t ht x hx hbt hw rfl

end Program
end Threads
