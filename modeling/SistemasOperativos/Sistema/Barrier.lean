import SistemasOperativos.Sistema.Rounds
import SistemasOperativos.Sistema.Schedules

/-!
# The round barrier

What the barrier does over any number of rounds, and the two ways in which it
loses count.
-/
namespace Sistema

open Threads Threads.Program

variable {inp : Input} {tr : List Label} {s s' : State} {a : Label} {i : Slot}

/-! ## Accounting -/

/-- The counter of a steady run stays in its range, and a release comes only after
one message of each slot. -/
theorem counted_once (h : sistema.Run Steady (init inp) tr s) : s.glob.msgRead ≤ 7 ∧
    ∀ ok s', sistema.Step s (.exec .main .reset ok) s' → ∀ i, Barrier.since i (events tr) = 1 := by
  obtain ⟨hl, hb⟩ := barrier_run h fun _ _ => id
  have hseen := hb.seen
  have hcard : Fintype.card Slot = 7 := rfl
  refine ⟨?_, fun ok s' hs i => ?_⟩
  · have := hb.ok.sum_le
    rw [hcard] at this
    omega
  · have h7 := hb.full hs.exec_inv.1
    have hc := hb.ok.counted_of_full (by rw [hcard]; omega) i
    have hsince := hl.since i
    omega

/-- A round in which the engine is replaced before it has counted. -/
theorem counted_once_round : ∃ tr s, sistema.Run Steady (init ⟨10, 100, fun _ => 0, 0⟩) tr s ∧
    1 < s.glob.engines ∧ s.glob.msgRead ≤ 7 ∧
    (∃ ok s', sistema.Step s (.exec .main .reset ok) s') ∧ ∀ i, Barrier.since i (events tr) = 1 := by
  have hrun : ∃ tr s, sistema.Run Steady (init ⟨10, 100, fun _ => 0, 0⟩) tr s ∧
      1 < s.glob.engines ∧ s.loc .main = .reset ∧ s.Running .main := by
    refine run_of_check (boot ++ [.env (.alarma 102)] ++ burst .sigHandlerManual 19 ++
      burst (.pricipalEngineThread 0) 1 ++ [.die (.pricipalEngineThread 0)] ++ engineReport 1 ++
      otherReports ++ landingReport ++ burst .main 3) ?_
    decide +kernel
  obtain ⟨tr, s, hr, he, hl, hm⟩ := hrun
  have hop : sistema.op s .main = main .reset := congrArg main hl
  have hs : sistema.Step s (.exec .main .reset true) (sistema.effect s .main true) := by
    rw [← hl]
    refine .exec true hm ?_ ?_ <;> rw [hop]
    · nofun
    · trivial
  exact ⟨tr, s, hr, he, (counted_once hr).1, ⟨_, _, hs⟩, (counted_once hr).2 _ _ hs⟩

/-- An engine that is replaced after it has counted is counted twice in the round. -/
theorem counted_twice : ∃ inp tr s, sistema.Run (fun _ a => NoInt a) (init inp) tr s ∧
    s.glob.msgRead = 8 := by
  refine ⟨⟨10, 100, fun _ => 0, 0⟩, run_of_check (boot ++ engineReport 0 ++
    [.env (.alarma 102)] ++ burst .sigHandlerManual 19 ++ engineReport 1 ++ otherReports ++
    landingReport) ?_⟩
  decide +kernel

/-! ## The freeze -/

/-- Every reporter waits for a token that is not there, `main` is not about to
post it, and the counter will not let it. -/
def Frozen (s : State) : Prop :=
  (∀ i, BlockedOn sistema s (reporter s.glob i) (.msg i)) ∧ s.glob.msgRead ≠ 7 ∧
    ∀ j, s.loc .main ≠ .post j

/-- A counted slot is ahead of its token by exactly one. -/
def Exact (s : State) (b : Barrier.Ledger Slot) : Prop :=
  ∀ i, phaseAt s i = .counted ∨ phaseAt s i = .atWait → b.count i = b.took i + 1

theorem exact_step {b : Barrier.Ledger Slot} (hs : sistema.Step s a s') (hi : EngineInv s)
    (hr : Replaced EnginePc.uncounted s) (hu : ¬ UnknownAlarm s a) (h : BarrierInv s b)
    (he : Exact s b) : Exact s' (b.record (event a)) := by
  intro i hp'
  have hm := move_step hs hi hr i
  have hearly := h.early i
  have hlate := he i
  generalize phaseAt s i = p at hm hearly hlate
  generalize phaseAt s' i = p' at hm hp'
  cases hm with
  | still hc ht =>
    rw [Barrier.Ledger.record_count_of_ne hc, Barrier.Ledger.record_took_of_ne ht]
    exact hlate hp'
  | next hn hnext hc hw =>
    rw [hn]
    refine hlate ?_
    cases p <;> cases p' <;> simp_all [Phase.next]
  | count hc =>
    rw [hc, Barrier.Ledger.record_count, Barrier.Ledger.record_took_of_ne (by simp), hearly rfl]
  | take => obtain hp' | hp' := hp' <;> cases hp'
  | skip _ hu' => exact absurd hu' hu
  | renew => obtain hp' | hp' := hp' <;> cases hp'

theorem atWait_of_op {t : Tid} {l : Loc t} {k : Loc t} (ht : t ≠ .main)
    (h : code t l = .wait (.msg i) k) : phase t l = .atWait := by
  by_contra hp
  have := quiet_msg ht l (i := i) fun hw => hp hw.1
  rw [h] at this
  exact this rfl

/-- Every reporter counts once before it waits. -/
def Accounted (s : State) (a : Label) : Prop := Steady s a ∧ ¬ UnknownAlarm s a

instance (s : State) (a : Label) : Decidable (Accounted s a) := inferInstanceAs (Decidable (_ ∧ _))

theorem exact_run (h : sistema.Run Accounted (init inp) tr s) :
    Exact s (Barrier.ledger (events tr)) := by
  induction h with
  | nil =>
    intro i hp
    rw [phaseAt_init] at hp
    obtain hp | hp := hp <;> cases hp
  | @snoc tr s s' a hrun hs hc ih =>
    have hr := replaced_run uncounted_kept (fun s a (hc : Accounted s a) => hc.1.2) hrun
    rw [events_snoc, Barrier.ledger_record]
    exact exact_step hs (engineInv hrun) hr hc.2 (barrier_run hrun fun _ _ hc => hc.1).2 ih

/-- If every reporter counts once before it waits, then with all of them waiting
and no token left the counter is full. -/
theorem no_freeze (h : sistema.Run Accounted (init inp) tr s) : ¬ Frozen s := by
  have hb := (barrier_run h fun _ _ hc => hc.1).2
  rintro ⟨hall, hne, hmain⟩
  have hcount : ∀ i, (Barrier.ledger (events tr)).count i =
      (Barrier.ledger (events tr)).releases + 1 := by
    intro i
    obtain ⟨_, ⟨k, hk⟩, h0⟩ := hall i
    have hc := exact_run h i (.inr (atWait_of_op slot_ne_main hk))
    have ht := hb.token i
    have hd := hb.due i
    have hdue : (s.loc .main).due i = false := by
      cases hl : s.loc .main with
      | post j => exact absurd hl (hmain j)
      | _ => rfl
    rw [hdue] at hd
    simp only [Bool.false_eq_true, if_false] at hd
    omega
  have hsum : ∑ i, (Barrier.ledger (events tr)).count i =
      7 * ((Barrier.ledger (events tr)).releases + 1) := by simp [hcount]
  have hseen := hb.seen
  omega

theorem blockedOn_atWait {g : Shared} (hr : s.Running (reporter g i))
    (hp : phase (reporter g i) (s.loc (reporter g i)) = .atWait) (h0 : s.sem (.msg i) = 0) :
    BlockedOn sistema s (reporter g i) (.msg i) :=
  ⟨hr, atWait_op hp (slotOf_reporter g i), h0⟩

/-- All seven stopped, just before `main` sees the full counter. -/
theorem no_freeze_round : ∃ tr s, sistema.Run Accounted (init ⟨10, 100, fun _ => 0, 0⟩) tr s ∧
    (∀ i, BlockedOn sistema s (reporter s.glob i) (.msg i)) ∧ ¬ Frozen s := by
  have hrun : ∃ tr s, sistema.Run Accounted (init ⟨10, 100, fun _ => 0, 0⟩) tr s ∧
      ∀ i, s.Running (reporter s.glob i) ∧ phaseAt s i = .atWait ∧ s.sem (.msg i) = 0 := by
    refine run_of_check (boot ++ [.env (.alarma 102)] ++ burst .sigHandlerManual 19 ++
      burst (.pricipalEngineThread 0) 1 ++ [.die (.pricipalEngineThread 0)] ++ engineReport 1 ++
      otherReports ++ landingReport) ?_
    decide +kernel
  obtain ⟨tr, s, hr, hall⟩ := hrun
  exact ⟨tr, s, hr, fun i => blockedOn_atWait (hall i).1 (hall i).2.1 (hall i).2.2, no_freeze hr⟩

/-- The simulator writes 5 as an alarm, and the handler waits without a message. -/
theorem frozen_by_five : ∃ inp tr s, sistema.Run (fun s a => NoInt a ∧ Delivers a ∧ CleanDeath s a)
    (init inp) tr s ∧ Frozen s := by
  have hrun : ∃ tr s, sistema.Run (fun s a => NoInt a ∧ Delivers a ∧ CleanDeath s a)
      (init ⟨10, 100, fun _ => 0, 0⟩) tr s ∧
      (∀ i, s.Running (reporter s.glob i) ∧ phaseAt s i = .atWait ∧ s.sem (.msg i) = 0) ∧
      s.glob.msgRead = 6 ∧ s.loc .main = .head := by
    refine run_of_check (boot ++ [.env (.alarma 5)] ++ manualReport ++ engineReport 0 ++
      otherReports ++ landingReport) ?_
    decide +kernel
  obtain ⟨tr, s, hr, hall, h6, hl⟩ := hrun
  refine ⟨_, tr, s, hr, fun i => blockedOn_atWait (hall i).1 (hall i).2.1 (hall i).2.2, ?_, ?_⟩
  · rw [h6]
    nofun
  · rw [hl]
    nofun

end Sistema
