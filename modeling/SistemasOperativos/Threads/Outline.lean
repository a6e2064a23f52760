import SistemasOperativos.Threads.Effect

/-!
# Proof outlines

An assertion about the shared memory at each location of each thread. Each operation leads
from the assertion before it to the one after it, and keeps those of the other threads.
-/
namespace Threads.Program

variable {S G M E T : Type} {L : T → Type} [DecidableEq S] [DecidableEq T]
variable {P : Program S G M E T L} {C : State S G T L → Label E T L → Prop}
variable {s₀ s s' : State S G T L} {tr : List (Label E T L)} {a : Label E T L}

structure Outline (P : Program S G M E T L) where
  assertion : (t : T) → L t → G → Prop
  own : ∀ t l g ok, assertion t l g →
    assertion t ((P.code t l).dest l g ok) ((P.code t l).glob g)
  other : ∀ t u l k g, t ≠ u → assertion t l g → assertion u k g →
    assertion u k ((P.code t l).glob g)
  handled : ∀ t l l' g, assertion t l g → P.onInt t l = some l' → assertion t l' g
  env : ∀ e t l g, assertion t l g → assertion t l (P.env e g)

/-- Every thread is where its assertion holds. -/
def Outline.Holds (O : Outline P) (s : State S G T L) : Prop :=
  ∀ t, O.assertion t (s.loc t) s.glob

theorem Outline.step (O : Outline P) (hs : P.Step s a s') (h : O.Holds s) : O.Holds s' := by
  intro u
  refine step_slice hs u (h u) ?_ ?_ ?_ ?_ ?_
  · rintro ok - - -
    exact O.own u _ _ ok (h u)
  · rintro t ok ht - -
    exact O.other t u _ _ _ ht (h t) (h u)
  · rintro - hi
    have hown := O.own u _ _ true (h u)
    have hglob : (P.code u (s.loc u)).glob s.glob = s.glob := Op.interruptible_glob hi _
    rwa [hglob] at hown
  · rintro l - hl
    exact O.handled u _ _ _ (h u) hl
  · rintro e -
    exact O.env e u _ _ (h u)

theorem Outline.run (O : Outline P) (h : P.Run C s₀ tr s) (h₀ : O.Holds s₀) : O.Holds s :=
  h.invariant h₀ fun _ _ _ hi hs _ => O.step hs hi

end Threads.Program
