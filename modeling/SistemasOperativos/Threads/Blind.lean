import SistemasOperativos.Threads.Run
import SistemasOperativos.Threads.Effect

set_option linter.unusedSectionVars false

/-!
# Parts of the memory that a program does not look at

Two states are alike if they differ in the shared memory alone, and there only by a
relation. Where every operation respects the relation, alike states have alike runs.
-/
namespace Threads

variable {S G M E T : Type} {L : T → Type} [DecidableEq S] [DecidableEq T]

/-- The operation does the same in related memories. -/
structure Op.Respects {K : Type} (R : G → G → Prop) (o : Op S G M T K) : Prop where
  dest : ∀ {g g'}, R g g' → ∀ l ok, o.dest l g ok = o.dest l g' ok
  glob : ∀ {g g'}, R g g' → R (o.glob g) (o.glob g')
  creates : ∀ {g g'}, R g g' → o.creates g = o.creates g'
  cancels : ∀ {g g'}, R g g' → o.cancels g = o.cancels g'
  signals : ∀ {g g'}, R g g' → ∀ sig, o.signals sig g = o.signals sig g'

structure State.Alike (R : G → G → Prop) (s u : State S G T L) : Prop where
  thr : s.thr = u.thr
  sem : s.sem = u.sem
  glob : R s.glob u.glob
  ended : s.ended = u.ended

namespace Program
variable {P : Program S G M E T L} {R : G → G → Prop} {s s' u : State S G T L} {a : Label E T L}

theorem Step.not_ended (hs : P.Step s a s') : s.ended = false := by
  cases hs with
  | exec _ hr | die hr | cont hr | int hr => exact hr.1
  | env _ hr => exact hr

theorem alike_running (h : s.Alike R u) {t : T} (hr : s.Running t) : u.Running t := by
  unfold State.Running State.life at hr ⊢
  rwa [← h.thr, ← h.ended]

theorem alike_op (h : s.Alike R u) (t : T) : P.op u t = P.op s t := by
  unfold op State.loc
  rw [h.thr]

theorem alike_effect (hP : ∀ t l, (P.code t l).Respects R) (h : s.Alike R u) (t : T) (ok : Bool) :
    (P.effect s t ok).Alike R (P.effect u t ok) := by
  have hop := alike_op (P := P) h t
  have ho := hP t (s.loc t)
  have hloc : u.loc t = s.loc t := by simp [State.loc, h.thr]
  have hadv : P.advance u t ok = P.advance s t ok := by
    unfold advance State.held State.life
    rw [hop, hloc, ← h.thr, show (P.op s t).dest (s.loc t) u.glob ok =
      (P.op s t).dest (s.loc t) s.glob ok from (ho.dest h.glob _ ok).symm]
  refine ⟨?_, ?_, ?_, ?_⟩
  · funext v
    show mark (P.op s t) s.glob v (Function.update s.thr t (P.advance s t ok) v) =
      mark (P.op u t) u.glob v (Function.update u.thr t (P.advance u t ok) v)
    unfold mark
    rw [hop, hadv, ← h.thr, show (P.op s t).creates u.glob = (P.op s t).creates s.glob from
      (ho.creates h.glob).symm, show (P.op s t).cancels u.glob = (P.op s t).cancels s.glob from
      (ho.cancels h.glob).symm, show (P.op s t).signals .cont u.glob =
        (P.op s t).signals .cont s.glob from (ho.signals h.glob .cont).symm,
      show (P.op s t).signals .int u.glob = (P.op s t).signals .int s.glob from
        (ho.signals h.glob .int).symm]
  · rw [effect_sem, effect_sem, hop, h.sem]
  · rw [effect_glob, effect_glob, hop]
    exact ho.glob h.glob
  · show (s.ended || (P.op s t).isExit) = (u.ended || (P.op u t).isExit)
    rw [hop, h.ended]

theorem alike_setThr (h : s.Alike R u) (t : T) (x : Thread S (L t)) :
    (s.setThr t x).Alike R (u.setThr t x) := by
  refine ⟨?_, h.sem, h.glob, h.ended⟩
  unfold State.setThr
  rw [h.thr]

/-- An alike state can make the same step. -/
theorem alike_step (hP : ∀ t l, (P.code t l).Respects R)
    (henv : ∀ e {g g'}, R g g' → R (P.env e g) (P.env e g')) (h : s.Alike R u)
    (hs : P.Step s a s') : ∃ u', P.Step u a u' ∧ s'.Alike R u' := by
  have hloc : ∀ t, u.loc t = s.loc t := fun t => by simp [State.loc, h.thr]
  cases hs with
  | @exec t ok hr hc he =>
    refine ⟨P.effect u t ok, ?_, alike_effect hP h t ok⟩
    rw [← hloc t]
    refine .exec ok (alike_running h hr) ?_ ?_
    · unfold State.cancelled
      rw [alike_op h, ← h.thr]
      exact hc
    · rwa [alike_op h, ← h.sem]
  | @die t hr hp hc =>
    refine ⟨die u t, ?_, ?_⟩
    · rw [← hloc t]
      refine .die (alike_running h hr) (by rwa [alike_op h]) ?_
      unfold State.cancelled
      rwa [← h.thr]
    · unfold die
      rw [← h.thr]
      exact alike_setThr h t _
  | @cont t hr hs =>
    refine ⟨P.wake u t, .cont (alike_running h hr) (by rwa [← h.thr]), ?_⟩
    unfold wake
    rw [← h.thr, alike_op h, hloc, show (P.op s t).dest (s.loc t) u.glob true =
      (P.op s t).dest (s.loc t) s.glob true from ((hP t (s.loc t)).dest h.glob _ true).symm]
    exact alike_setThr h t _
  | @int t l hr hs hl =>
    refine ⟨handle u t l, .int (alike_running h hr) (by rwa [← h.thr]) (by rwa [hloc]), ?_⟩
    unfold handle
    rw [← h.thr]
    exact alike_setThr h t _
  | env e hr => exact ⟨P.disturb u e, .env e (h.ended ▸ hr), h.thr, h.sem, henv e h.glob, h.ended⟩

end Program
end Threads
