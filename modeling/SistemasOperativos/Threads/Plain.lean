import SistemasOperativos.Threads.Census
import SistemasOperativos.Threads.Effect

set_option linter.unusedSectionVars false

/-! Programs in which no thread disturbs another: every step is an operation of a thread. -/
namespace Threads.Program

variable {S G M T : Type} {L : T → Type} [DecidableEq S] [DecidableEq T]
variable {P : Program S G M Empty T L} {s s' : State S G T L} {t : T} {ok : Bool}
variable {a : Label Empty T L}

/-- Nobody is cancelled or has a signal. -/
structure Untouched (s : State S G T L) : Prop where
  cancelled : ∀ t, s.cancelled t = false
  cont : ∀ t, (s.thr t).cont = false

theorem Untouched.effect (h : Untouched s) (hc : (P.op s t).cancels s.glob = none)
    (hk : (P.op s t).signals .cont s.glob = none) : Untouched (P.effect s t ok) := by
  constructor
  · intro u
    rw [effect_cancelled, h.cancelled, hc]
    rfl
  · intro u
    rw [effect_cont, h.cont, hk]
    rfl

/-- Signals and cancellation have no part in the step. -/
theorem Untouched.step (h : Untouched s) (hint : ∀ t l, P.onInt t l = none) (hs : P.Step s a s') :
    ∃ t ok, a = .exec t (s.loc t) ok ∧ s' = P.effect s t ok ∧ s.Running t ∧
      (P.op s t).Enabled s.sem := by
  cases hs with
  | @exec t ok hr _ he => exact ⟨t, ok, rfl, rfl, hr, he⟩
  | @die t _ _ hc => cases (h.cancelled t).symm.trans hc
  | @cont t _ hc => cases (h.cont t).symm.trans hc
  | int _ _ hl => cases (hint _ _).symm.trans hl
  | env e => exact e.elim

/-- Nobody has ended either. -/
structure Alive (s : State S G T L) : Prop extends Untouched s where
  ended : s.ended = false
  life : ∀ t, s.life t = .running

theorem Alive.effect (h : Alive s) (hp : (P.op s t).Plain) : Alive (P.effect s t ok) where
  toUntouched := h.toUntouched.effect (hp.cancels _) (hp.signals _ _)
  ended := by
    have hend : (s.ended || (P.op s t).isExit) = false := by
      rw [h.ended, hp.isExit]
      rfl
    exact hend
  life u := by
    by_cases hu : u = t
    · subst hu
      rw [effect_life_self, hp.creates, hp.isRet, h.life]
      rfl
    · rw [effect_life_of_ne hu, hp.creates, h.life]
      rfl

/-- An operation that can complete is a step. -/
theorem Alive.exec (h : Alive s) (he : (P.op s t).Enabled s.sem) (ok : Bool) :
    P.Step s (.exec t (s.loc t) ok) (P.effect s t ok) :=
  .exec ok ⟨h.ended, h.life t⟩ (fun _ => h.cancelled t) he

/-! ## How many threads of a kind are in a place -/

section Census
variable {ι : Type} [Fintype ι] [DecidableEq ι] {e : ι → T} {f : ∀ i, L (e i) → Bool}

theorem census_effect (he : Function.Injective e) (i : ι) :
    census (fun j => f j ((P.effect s (e i) ok).loc (e j))) + (f i (s.loc (e i))).toNat =
      census (fun j => f j (s.loc (e j))) +
        (f i ((P.op s (e i)).dest (s.loc (e i)) s.glob ok)).toNat := by
  have hmove := census_move (p := fun j => f j (s.loc (e j)))
    (q := fun j => f j ((P.effect s (e i) ok).loc (e j))) (i := i) fun j hj => by
      rw [effect_loc_of_ne (fun hji => hj (he hji))]
  simpa only [effect_loc_self] using hmove

theorem census_effect_other (ht : ∀ j, e j ≠ t) :
    census (fun j => f j ((P.effect s t ok).loc (e j))) = census fun j => f j (s.loc (e j)) :=
  congrArg census (funext fun j => congrArg (f j) (effect_loc_of_ne (ht j)))

end Census
end Threads.Program
