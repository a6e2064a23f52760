import Mathlib.Algebra.Order.Ring.Nat
import SistemasOperativos.Threads.Run
import SistemasOperativos.Threads.Effect

set_option linter.unusedSectionVars false

/-! What a thread can still do, from what is left of it at each location. -/
namespace Threads.Program

variable {S G M E T : Type} {L : T → Type} [DecidableEq S] [DecidableEq T]
variable {P : Program S G M E T L} {C : State S G T L → Label E T L → Prop}
variable {s₀ s s' : State S G T L} {tr : List (Label E T L)} {t : T} {a : Label E T L}

/-- `x` picks some steps of the thread `t`, and `rank` goes down by one at each of them and
never up, where `I` holds. -/
structure Ranks (P : Program S G M E T L) (I : State S G T L → Prop) (t : T) (rank : L t → ℕ)
    (x : Label E T L → Bool) : Prop where
  own : ∀ a, x a = true → ∃ l ok, a = .exec t l ok
  step : ∀ s ok, I s → (P.op s t).Enabled s.sem ∨ (P.op s t).interruptible = true →
    (x (.exec t (s.loc t) ok)).toNat + rank ((P.op s t).dest (s.loc t) s.glob ok) ≤ rank (s.loc t)
  int : ∀ l l', P.onInt t l = some l' → rank l' ≤ rank l

variable {I : State S G T L → Prop} {rank : L t → ℕ} {x : Label E T L → Bool}

theorem Ranks.spend (h : Ranks P I t rank x) (hI : I s) (hs : P.Step s a s') :
    (x a).toNat + rank (s'.loc t) ≤ rank (s.loc t) := by
  have hother : (∀ l ok, a ≠ .exec t l ok) → x a = false := by
    intro hne
    by_contra hx
    obtain ⟨l, ok, rfl⟩ := h.own a (by simpa using hx)
    exact hne l ok rfl
  cases hs with
  | @exec u ok _ _ he =>
    by_cases hu : u = t
    · subst hu
      rw [effect_loc_self]
      exact h.step s ok hI (.inl he)
    · rw [effect_loc_of_ne (Ne.symm hu), hother fun l ok he => hu (by cases he; rfl)]
      simp
  | die =>
    rw [hother fun _ _ he => by cases he]
    simp
  | env =>
    rw [hother fun _ _ he => by cases he]
    simp [disturb, State.loc]
  | @cont u _ _ =>
    rw [hother fun _ _ he => by cases he]
    by_cases hu : u = t
    · subst hu
      rw [wake_loc_self]
      split
      · rename_i hi
        have hstep := h.step s true hI (.inr hi)
        simp only [Bool.toNat_false]
        omega
      · simp
    · rw [wake_loc_of_ne (Ne.symm hu)]
      simp
  | @int u l _ _ hl =>
    rw [hother fun _ _ he => by cases he]
    by_cases hu : u = t
    · subst hu
      rw [handle_loc_self]
      simpa using h.int _ _ hl
    · rw [handle_loc_of_ne (Ne.symm hu)]
      simp

/-- A thread makes at most as many of these steps as its rank says. -/
theorem Ranks.bound (h : Ranks P I t rank x) (hr : P.Run C s₀ tr s)
    (hI : ∀ tr s, P.Run C s₀ tr s → I s) : tr.countP x + rank (s.loc t) ≤ rank (s₀.loc t) := by
  induction hr with
  | nil => simp
  | @snoc tr s s' a hr hs _ ih =>
    have hspend := h.spend (hI _ _ hr) hs
    rw [List.countP_append, List.countP_singleton]
    cases hx : x a <;> simp [hx] at hspend ⊢ <;> omega

variable (P) in
/-- A step of the thread that is not its last one. -/
def goesOn (t : T) : Label E T L → Bool
  | .exec u l _ => u = t && !(P.code u l).isRet && !(P.code u l).isExit
  | _ => false

theorem goesOn_ranks (hstep : ∀ s ok, I s →
      (P.op s t).Enabled s.sem ∨ (P.op s t).interruptible = true → (P.op s t).isRet = false →
      (P.op s t).isExit = false → rank ((P.op s t).dest (s.loc t) s.glob ok) < rank (s.loc t))
    (hint : ∀ l l', P.onInt t l = some l' → rank l' ≤ rank l) :
    Ranks P I t rank (P.goesOn t) where
  own a ha := by
    unfold goesOn at ha
    split at ha
    · rename_i u l ok
      obtain rfl : u = t := by simp_all
      exact ⟨l, ok, rfl⟩
    · cases ha
  step s ok hi he := by
    have hlast : (P.op s t).isRet = true ∨ (P.op s t).isExit = true →
        (P.op s t).dest (s.loc t) s.glob ok = s.loc t := by
      generalize P.op s t = o
      cases o <;> simp [Op.isRet, Op.isExit, Op.dest]
    have hop : P.code t (s.loc t) = P.op s t := rfl
    simp only [goesOn, decide_true, Bool.true_and, hop]
    cases hr : (P.op s t).isRet with
    | true => simp [hlast (.inl hr)]
    | false =>
      cases hx : (P.op s t).isExit with
      | true => simp [hlast (.inr hx)]
      | false =>
        have := hstep s ok hi he hr hx
        simp only [Bool.not_false, Bool.and_true, Bool.toNat_true]
        omega
  int := hint

end Threads.Program
