import SistemasOperativos.Threads.Effect

set_option linter.unusedSectionVars false

/-! Runs that never look at a part of the data. -/
namespace Threads

variable {S G M E T : Type} {L : T → Type} [DecidableEq S] [DecidableEq T]

/-- The operation goes the same way from two related memories, and relates them again. -/
structure Op.Blind {K : Type} (R : G → G → Prop) (o : Op S G M T K) (l : K) : Prop where
  dest : ∀ g g' ok, R g g' → o.dest l g ok = o.dest l g' ok
  glob : ∀ g g', R g g' → R (o.glob g) (o.glob g')
  creates : ∀ g g', R g g' → o.creates g = o.creates g'
  cancels : ∀ g g', R g g' → o.cancels g = o.cancels g'
  signals : ∀ sig g g', R g g' → o.signals sig g = o.signals sig g'

theorem Op.interruptible_dest {K : Type} {o : Op S G M T K} (h : o.interruptible = true) (l : K)
    (g g' : G) (ok : Bool) : o.dest l g ok = o.dest l g' ok := by
  cases o <;> simp_all [interruptible, dest]

namespace Program
variable {P : Program S G M E T L} {R : G → G → Prop} {s s' s₀ s₀' : State S G T L}
variable {C : State S G T L → Label E T L → Prop} {tr : List (Label E T L)} {a : Label E T L}

def BlindStep (P : Program S G M E T L) (R : G → G → Prop) : Label E T L → Prop
  | .exec t l _ => (P.code t l).Blind R l
  | .env e => ∀ g g', R g g' → R (P.env e g) (P.env e g')
  | _ => True

/-- Two states that differ in shared memory only, and there within `R`. -/
structure Alike (R : G → G → Prop) (s s' : State S G T L) : Prop where
  thr : s.thr = s'.thr
  sem : s.sem = s'.sem
  ended : s.ended = s'.ended
  glob : R s.glob s'.glob

theorem mark_blind {K : Type} {o : Op S G M T K} {l : K} (hb : o.Blind R l) {g g' : G}
    (hg : R g g') (u : T) (x : Thread S (L u)) : mark o g u x = mark o g' u x := by
  unfold mark
  rw [hb.creates g g' hg, hb.cancels g g' hg, hb.signals .cont g g' hg, hb.signals .int g g' hg]

theorem Alike.effect {t : T} {ok : Bool} (h : Alike R s s')
    (hb : (P.op s t).Blind R (s.loc t)) : Alike R (P.effect s t ok) (P.effect s' t ok) := by
  obtain ⟨thr, sem, g, ended⟩ := s
  obtain ⟨thr', sem', g', ended'⟩ := s'
  obtain ⟨rfl, rfl, rfl, hg⟩ := h
  have ha : P.advance ⟨thr, sem, g, ended⟩ t ok = P.advance ⟨thr, sem, g', ended⟩ t ok := by
    unfold advance
    rw [hb.dest g g' ok hg]
    rfl
  refine ⟨?_, rfl, rfl, hb.glob g g' hg⟩
  funext u
  show mark _ g u (Function.update thr t (P.advance _ t ok) u) =
    mark _ g' u (Function.update thr t (P.advance _ t ok) u)
  rw [ha]
  exact mark_blind hb hg u _

/-- A step taken in one of two such states can be taken in the other. -/
theorem Alike.step (h : Alike R s s') {u : State S G T L} (hs : P.Step s a u)
    (hb : BlindStep P R a) : ∃ u', P.Step s' a u' ∧ Alike R u u' := by
  obtain ⟨thr, sem, g, ended⟩ := s
  obtain ⟨thr', sem', g', ended'⟩ := s'
  obtain ⟨rfl, rfl, rfl, hg⟩ := h
  have h : Alike (L := L) R ⟨thr, sem, g, ended⟩ ⟨thr, sem, g', ended⟩ := ⟨rfl, rfl, rfl, hg⟩
  cases hs with
  | exec ok hr hc he => exact ⟨_, .exec ok hr hc he, h.effect hb⟩
  | die hr hp hc => exact ⟨_, .die hr hp hc, rfl, rfl, rfl, hg⟩
  | @cont t hr hs =>
    refine ⟨_, .cont hr hs, ?_, rfl, rfl, hg⟩
    simp only [wake, State.setThr, op, State.loc]
    by_cases hi : (P.code t (thr t).loc).interruptible = true
    · rw [Op.interruptible_dest hi _ g g']
      rfl
    · simp only [hi, Bool.false_eq_true, if_false]
  | int hr hs hl => exact ⟨_, .int hr hs hl, rfl, rfl, rfl, hg⟩
  | env e hr => exact ⟨_, .env e hr, rfl, rfl, rfl, hb g g' hg⟩

theorem Run.alike (h : P.Run C s₀ tr s) (h₀ : Alike R s₀ s₀')
    (hC : ∀ s a, C s a → BlindStep P R a) : ∃ s', P.Run Any s₀' tr s' ∧ Alike R s s' := by
  induction h with
  | nil => exact ⟨_, .nil, h₀⟩
  | snoc _ hs hc ih =>
    obtain ⟨s', hr, hs'⟩ := ih
    obtain ⟨u', hu, hu'⟩ := hs'.step hs (hC _ _ hc)
    exact ⟨u', .snoc hr hu trivial, hu'⟩

end Program
end Threads
