import SistemasOperativos.Threads.Plain

set_option linter.unusedSectionVars false

/-!
# How much of a run is work

Threads that go round and round, and come by a piece of work in each round. However their
steps are mixed, a long run has much of it.
-/
namespace Threads.Program

variable {S G M T : Type} {L : T → Type} [DecidableEq S] [DecidableEq T] [Fintype T]
variable {P : Program S G M Empty T L} {C : State S G T L → Label Empty T L → Prop}
variable {s₀ s s' : State S G T L} {tr : List (Label Empty T L)} {t : T}

/-- How many steps each location is behind the last piece of work, at most `bound`. A piece of
work pays for `cost` steps. -/
structure Working (P : Program S G M Empty T L) (works : Label Empty T L → Bool) where
  cost : ℕ
  bound : ℕ
  debt : (t : T) → L t → ℤ
  exec : ∀ t l g ok, debt t l + 1 ≤
    debt t ((P.code t l).dest l g ok) + cost * (works (.exec t l ok)).toNat
  le : ∀ t l, debt t l ≤ bound
  start : ∀ t, debt t (P.start t) = 0

namespace Working
variable {works : Label Empty T L → Bool} (W : Working P works)

def total (s : State S G T L) : ℤ := ∑ t, W.debt t (s.loc t)

theorem total_effect (ok : Bool) : W.total s + 1 ≤
    W.total (P.effect s t ok) + W.cost * (works (.exec t (s.loc t) ok)).toNat := by
  have hsplit : ∀ s, W.total s =
      W.debt t (s.loc t) + ∑ u ∈ Finset.univ.erase t, W.debt u (s.loc u) := by
    intro s
    exact (Finset.add_sum_erase _ (fun u => W.debt u (s.loc u)) (Finset.mem_univ t)).symm
  have hother : ∑ u ∈ Finset.univ.erase t, W.debt u ((P.effect s t ok).loc u) =
      ∑ u ∈ Finset.univ.erase t, W.debt u (s.loc u) := by
    apply Finset.sum_congr rfl
    intro u hu
    rw [effect_loc_of_ne (Finset.ne_of_mem_erase hu)]
  have hown : W.debt t ((P.effect s t ok).loc t) =
      W.debt t ((P.code t (s.loc t)).dest (s.loc t) s.glob ok) := by
    rw [effect_loc_self]
    rfl
  have hexec := W.exec t (s.loc t) s.glob ok
  rw [hsplit s, hsplit (P.effect s t ok), hother, hown]
  omega

theorem total_le : W.total s ≤ W.bound * Fintype.card T := by
  have hle : W.total s ≤ ∑ _t : T, (W.bound : ℤ) := by
    apply Finset.sum_le_sum
    intro t _
    exact W.le t (s.loc t)
  simpa [mul_comm] using hle

/-- A run is no longer than its work pays for, and what the threads are behind. -/
theorem run (hint : ∀ t l, P.onInt t l = none) (hplain : ∀ t l, (P.code t l).Plain)
    (h₀ : Alive s₀) (hstart : ∀ t, s₀.loc t = P.start t) (h : P.Run C s₀ tr s) :
    Alive s ∧ tr.length ≤ W.cost * tr.countP works + W.bound * Fintype.card T := by
  suffices hrun : Alive s ∧ (tr.length : ℤ) ≤ W.cost * tr.countP works + W.total s by
    have hle := W.total_le (s := s)
    have hlen := hrun.2.trans (Int.add_le_add_left hle _)
    exact ⟨hrun.1, by exact_mod_cast hlen⟩
  induction h with
  | nil =>
    refine ⟨h₀, ?_⟩
    have htotal : W.total s₀ = 0 := by
      apply Finset.sum_eq_zero
      intro t _
      rw [hstart, W.start]
    simp [htotal]
  | @snoc tr s s' a _ hs _ ih =>
    obtain ⟨halive, hlen⟩ := ih
    obtain ⟨t, ok, rfl, rfl, -, -⟩ := halive.toUntouched.step hint hs
    refine ⟨halive.effect (hplain t _), ?_⟩
    have hstep := W.total_effect (s := s) (t := t) ok
    rw [countP_snoc, List.length_append, List.length_singleton]
    push_cast
    rw [Int.mul_add]
    omega

end Working
end Threads.Program
