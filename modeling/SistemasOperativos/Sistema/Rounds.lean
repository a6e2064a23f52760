import SistemasOperativos.Sistema.Engines
import SistemasOperativos.Sistema.Phases

/-! Every run of the controller is a legal run of a barrier of seven parties. -/
namespace Sistema

open Threads Threads.Program

/-- The thread that reports in a slot. For the last one it is the engine created last. -/
def reporter (g : Shared) : Slot → Tid
  | ⟨0, _⟩ => .signalGyro 0
  | ⟨1, _⟩ => .signalGyro 1
  | ⟨2, _⟩ => .signalRestartLanding
  | ⟨3, _⟩ => .signalExploteRocket
  | ⟨4, _⟩ => .signalLandingCheck
  | ⟨5, _⟩ => .sigHandlerManual
  | ⟨6, _⟩ => .pricipalEngineThread (g.engines - 1)

def phaseAt (s : State) (i : Slot) : Phase := phase (reporter s.glob i) (s.loc (reporter s.glob i))

/-- Before `++msg_read` of the round. -/
def Phase.early : Phase → Bool
  | .work | .sent | .atCount => true
  | _ => false

theorem Phase.early_of_next {p p' : Phase} (h : p.next p' = true) (hw : p ≠ .atWait)
    (hp : p'.early = true) : p.early = true := by
  cases p <;> cases p' <;> simp_all [Phase.next, Phase.early]

/-- A thread cancelled here ends without counting. -/
def EnginePc.uncounted (l : EnginePc) : Prop := l.phase = .work ∨ l.phase = .sent

instance (l : EnginePc) : Decidable l.uncounted := inferInstanceAs (Decidable (_ ∨ _))

theorem slotOf_reporter (g : Shared) (i : Slot) : slotOf (reporter g i) = some i := by
  unfold reporter
  split <;> rfl

theorem reporter_six (g : Shared) : reporter g 6 = .pricipalEngineThread (g.engines - 1) := rfl

theorem reporter_fixed {i : Slot} (h : i ≠ 6) (g g' : Shared) : reporter g i = reporter g' i := by
  unfold reporter
  split <;> first | rfl | exact absurd rfl h

theorem phaseAt_six (s : State) :
    phaseAt s 6 = (s.loc (.pricipalEngineThread (s.glob.engines - 1))).phase := rfl

theorem phaseAt_init (inp : Input) (i : Slot) : phaseAt (init inp) i = .work := by
  unfold phaseAt reporter
  split <;> rfl

theorem eq_reporter {t : Tid} {i : Slot} (h : slotOf t = some i) (g : Shared) :
    t = reporter g i ∨ ∃ n, t = .pricipalEngineThread n ∧ i = 6 := by
  cases t with
  | main | gyroscopeThread | goUp30m => cases h
  | signalGyro j => obtain rfl | rfl := gyro_cases j <;> cases h <;> exact .inl rfl
  | pricipalEngineThread n =>
    cases h
    exact .inr ⟨n, rfl, rfl⟩
  | _ => cases h; exact .inl rfl

theorem uncounted_kept (l : EnginePc) (g : Shared) (ok : Bool) (h : l.uncounted)
    (hp : (pricipalEngineThread l).cancelPoint = false ∨
      (pricipalEngineThread l).interruptible = true) :
    ((pricipalEngineThread l).dest l g ok).uncounted := by
  cases l with
  | send m p =>
    cases p with
    | sleep numsec =>
      simp only [pricipalEngineThread, sendMesg, Op.dest]
      obtain he | he := sendLoop_cases (numsec * 2) <;> rw [he]
      · exact .inl rfl
      · exact .inr rfl
    | lock | sendto | lockRead => obtain hp | hp := hp <;> cases hp
    | count | unlockRead | unlockSock => obtain h | h := h <;> cases h
  | waitMsg => obtain h | h := h <;> cases h
  | lockGs i | unlockGs i p => obtain rfl | rfl := gyro_cases i <;> exact .inl rfl
  | head | mode =>
    simp only [pricipalEngineThread, Op.dest]
    split <;> exact .inl rfl
  | state i =>
    simp only [pricipalEngineThread, Op.dest]
    split
    · exact .inl rfl
    · split <;> exact .inl rfl
  | _ => exact .inl rfl

/-- `terminte_program` does not start. -/
def NoInt : Label → Prop
  | .int _ => False
  | _ => True

instance : (a : Label) → Decidable (NoInt a)
  | .int _ => isFalse not_false
  | .exec .. | .die .. | .cont _ | .env _ => isTrue trivial

/-- A `sendto` delivers its datagram. -/
def Delivers : Label → Prop
  | .exec t l ok => (code t l).isSendto = true → ok = true
  | _ => True

instance : (a : Label) → Decidable (Delivers a)
  | .exec .. => inferInstanceAs (Decidable (_ → _))
  | .die .. | .cont _ | .int _ | .env _ => isTrue trivial

/-- `terminte_program` does not start, and no engine is cancelled between its
`++msg_read` and its wait. -/
def Steady (s : State) (a : Label) : Prop := NoInt a ∧ CancelsAt EnginePc.uncounted s a

instance (s : State) (a : Label) : Decidable (Steady s a) := inferInstanceAs (Decidable (_ ∧ _))

/-- The state of the controller against what happened at the barrier. -/
structure BarrierInv (s : State) (b : Barrier.Ledger Slot) : Prop where
  ok : b.Ok
  token : ∀ i, s.sem (.msg i) + b.took i = b.posted i
  due : ∀ i, b.posted i + (if (s.loc .main).due i then 1 else 0) = b.releases
  early : ∀ i, (phaseAt s i).early = true → b.count i = b.took i
  seen : ∑ i, b.count i = s.glob.msgRead + 7 * b.releases
  full : s.loc .main = .reset → s.glob.msgRead = 7
  plain : (s.loc .main).plain = true

theorem barrierInv_init (inp : Input) : BarrierInv (init inp) (Barrier.ledger []) where
  ok := Barrier.Legal.nil.ok
  token _ := rfl
  due _ := rfl
  early _ _ := rfl
  seen := by simp [Barrier.ledger, init]
  full h := by cases h
  plain := rfl

variable {s s' : State} {a : Label} {t : Tid} {ok : Bool} {b : Barrier.Ledger Slot} {i : Slot}

theorem event_exec (ht : t ≠ .main) (l : Loc t) (ok : Bool) : event (.exec t l ok) =
    match phase t l with
    | .atCount => (slotOf t).map .count
    | .atWait => (slotOf t).map .take
    | _ => none := by
  cases t with
  | main => exact absurd rfl ht
  | _ => rfl

/-- A thread that counts or waits in a slot is its reporter. -/
theorem reporter_of_late (hi : EngineInv s) (hr : Replaced EnginePc.uncounted s)
    (h : phase t (s.loc t) = .atCount ∨ phase t (s.loc t) = .atWait) (hs : slotOf t = some i) :
    t = reporter s.glob i := by
  obtain he | ⟨n, rfl, rfl⟩ := eq_reporter hs s.glob
  · exact he
  have hne : ∀ l : EnginePc, l.uncounted → ¬ (l.phase = .atCount ∨ l.phase = .atWait) := by
    intro l hl hl'
    obtain hl | hl := hl <;> rw [hl] at hl' <;> obtain hl' | hl' := hl' <;> cases hl'
  rcases lt_trichotomy (n + 1) s.glob.engines with hlt | heq | hgt
  · exact absurd h (hne _ (hr.stale n hlt))
  · rw [reporter_six, ← heq, Nat.add_sub_cancel]
  · have : s.loc (.pricipalEngineThread n) = .head := (hi.unborn n (by omega)).2
    rw [this] at h
    obtain h | h := h <;> cases h

/-- The reporter of a slot changes only when the handler has created an engine,
which then starts where the one before it could still have started. -/
theorem reporter_step (hs : sistema.Step s a s') (hi : EngineInv s)
    (hr : Replaced EnginePc.uncounted s) (i : Slot) :
    reporter s'.glob i = reporter s.glob i ∨
      phaseAt s' i = .work ∧ (phaseAt s i).early = true ∧ event a = none := by
  by_cases h6 : i = 6
  · subst h6
    obtain he | ⟨he, h0 | ⟨c, ok, rfl⟩⟩ := engines_step hs hi
    · exact .inl (by rw [reporter_six, reporter_six, he])
    · exact .inl (by rw [reporter_six, reporter_six, he, h0])
    · right
      obtain ⟨hl, _, _, _, rfl⟩ := hs.exec_inv
      have hc := hr.current (by rw [hl]; rfl)
      have hn := (hi.unborn s.glob.engines le_rfl).2
      refine ⟨?_, ?_, rfl⟩
      · rw [phaseAt_six, he, Nat.add_sub_cancel, effect_loc_of_ne (engine_ne_manual _), hn]
        rfl
      · rw [phaseAt_six]
        obtain hc | hc := hc <;> rw [hc] <;> rfl
  · exact .inl (reporter_fixed h6 _ _)

/-- The handler of alarms is about to leave its comparisons without a branch. -/
def UnknownAlarm (s : State) : Label → Prop
  | .exec t l _ => Unknown s.glob t l
  | _ => False

instance (s : State) : (a : Label) → Decidable (UnknownAlarm s a)
  | .exec t l _ => inferInstanceAs (Decidable (Unknown s.glob t l))
  | .die .. | .cont _ | .int _ | .env _ => isFalse not_false

/-- What a step does to the phase of one slot. -/
inductive Move (s : State) (a : Label) (i : Slot) : Phase → Phase → Prop
  | still {p : Phase} (hc : event a ≠ some (.count i)) (ht : event a ≠ some (.take i)) :
      Move s a i p p
  | next {p p' : Phase} (he : event a = none) (hp : p.next p' = true) (hc : p ≠ .atCount)
      (hw : p ≠ .atWait) : Move s a i p p'
  | count (he : event a = some (.count i)) : Move s a i .atCount .counted
  | take (he : event a = some (.take i)) (hs : 0 < s.sem (.msg i)) : Move s a i .atWait .work
  | skip (he : event a = none) (hu : UnknownAlarm s a) : Move s a i .work .counted
  | renew {p : Phase} (he : event a = none) (hp : p.early = true) : Move s a i p .work

theorem slot_ne_main {g : Shared} {i : Slot} : reporter g i ≠ .main := by
  intro h
  have := slotOf_reporter g i
  rw [h] at this
  cases this

theorem event_none (ht : t ≠ .main) {l : Loc t} (hc : phase t l ≠ .atCount)
    (hw : phase t l ≠ .atWait) : event (.exec t l ok) = none := by
  rw [event_exec ht]
  split <;> simp_all

theorem event_count {l : Loc t} :
    event (.exec t l ok) = some (.count i) ↔ phase t l = .atCount ∧ slotOf t = some i := by
  by_cases ht : t = .main
  · subst ht
    refine ⟨fun h => ?_, fun h => nomatch h.1⟩
    cases l <;> cases h
  · rw [event_exec ht]
    split <;> simp_all

theorem event_take {l : Loc t} :
    event (.exec t l ok) = some (.take i) ↔ phase t l = .atWait ∧ slotOf t = some i := by
  by_cases ht : t = .main
  · subst ht
    refine ⟨fun h => ?_, fun h => nomatch h.1⟩
    cases l <;> cases h
  · rw [event_exec ht]
    split <;> simp_all

theorem event_other (ht : t ≠ .main) {l : Loc t} {e : Barrier.Event Slot}
    (h : event (.exec t l ok) = some e) : ∃ i, e = .count i ∨ e = .take i := by
  rw [event_exec ht] at h
  split at h
  · obtain ⟨i, _, rfl⟩ := Option.map_eq_some_iff.mp h
    exact ⟨i, .inl rfl⟩
  · obtain ⟨i, _, rfl⟩ := Option.map_eq_some_iff.mp h
    exact ⟨i, .inr rfl⟩
  · cases h

/-- Only `main` posts and releases. -/
theorem event_ne_post (ht : t ≠ .main) {l : Loc t} : event (.exec t l ok) ≠ some (.post i) := by
  intro h
  obtain ⟨_, h | h⟩ := event_other ht h <;> cases h

theorem event_ne_release (ht : t ≠ .main) {l : Loc t} : event (.exec t l ok) ≠ some .release := by
  intro h
  obtain ⟨_, h | h⟩ := event_other ht h <;> cases h

/-- A step of the reporter itself. -/
theorem move_exec (hs : slotOf t = some i) (he : (sistema.op s t).Enabled s.sem) :
    Move s (.exec t (s.loc t) ok) i (phase t (s.loc t))
      (phase t ((code t (s.loc t)).dest (s.loc t) s.glob ok)) := by
  have ht : t ≠ .main := by
    rintro rfl
    cases hs
  by_cases hu : Unknown s.glob t (s.loc t)
  · obtain ⟨_, hp, hd, _⟩ := unknown_thread hu
    rw [hp, hd]
    exact .skip (event_none ht (by rw [hp]; nofun) (by rw [hp]; nofun)) hu
  have hn := phase_dest t (s.loc t) s.glob ok hu
  by_cases hc : phase t (s.loc t) = .atCount
  · rw [hc] at hn ⊢
    simp only [Phase.next, decide_eq_true_eq] at hn
    rw [hn]
    exact .count (event_count.mpr ⟨hc, hs⟩)
  by_cases hw : phase t (s.loc t) = .atWait
  · obtain ⟨k, hk⟩ := atWait_op hw hs
    rw [hw] at hn ⊢
    simp only [Phase.next, decide_eq_true_eq] at hn
    rw [hn]
    refine .take (event_take.mpr ⟨hw, hs⟩) ?_
    have ho : sistema.op s t = .wait (.msg i) k := hk
    rwa [ho] at he
  · exact .next (event_none ht hc hw) hn hc hw

theorem interruptible_phase {l : Loc t} (h : (code t l).interruptible = true)
    (hs : slotOf t = some i) (g : Shared) : phase t l ≠ .atCount ∧ phase t l ≠ .atWait ∧ ¬ Unknown g t l := by
  refine ⟨fun hc => ?_, fun hw => ?_, fun hu => ?_⟩
  · have hg := (atCount_op hc g).1
    rw [Op.interruptible_glob h] at hg
    have := congrArg Shared.msgRead hg
    simp at this
  · obtain ⟨k, hk⟩ := atWait_op hw hs
    rw [hk] at h
    cases h
  · rw [(unknown_thread hu).2.2.2] at h
    cases h

theorem move_step (hs : sistema.Step s a s') (hi : EngineInv s)
    (hr : Replaced EnginePc.uncounted s) (i : Slot) : Move s a i (phaseAt s i) (phaseAt s' i) := by
  obtain hrep | ⟨hw, he, hn⟩ := reporter_step hs hi hr i
  rotate_left
  · rw [hw]
    exact .renew hn he
  have hslot := slotOf_reporter s.glob i
  have hmain := @slot_ne_main s.glob i
  have hstill : ∀ {a : Label}, event a = none → ∀ p, Move s a i p p :=
    fun h p => .still (by rw [h]; nofun) (by rw [h]; nofun)
  unfold phaseAt
  rw [hrep]
  generalize hreq : reporter s.glob i = r at hslot hmain
  cases hs with
  | @exec t ok _ _ he =>
    by_cases ht : r = t
    · subst ht
      rw [effect_loc_self]
      exact move_exec hslot he
    · rw [effect_loc_of_ne ht]
      have hne : ∀ hp : phase t (s.loc t) = .atCount ∨ phase t (s.loc t) = .atWait,
          slotOf t ≠ some i := fun hp hs =>
        ht (hreq.symm.trans (reporter_of_late hi hr hp hs).symm)
      exact .still (fun h => hne (.inl (event_count.mp h).1) (event_count.mp h).2)
        fun h => hne (.inr (event_take.mp h).1) (event_take.mp h).2
  | die => rw [die_loc]; exact hstill rfl _
  | @cont t _ _ =>
    by_cases ht : r = t
    · subst ht
      rw [wake_loc_self]
      split
      · rename_i hint
        obtain ⟨h1, h2, h3⟩ := interruptible_phase hint hslot s.glob
        exact .next rfl (phase_dest _ _ _ _ h3) h1 h2
      · exact hstill rfl _
    · rw [wake_loc_of_ne ht]
      exact hstill rfl _
  | @int t l _ _ hl =>
    have ht : r ≠ t := by
      rintro rfl
      cases r with
      | main => exact hmain rfl
      | _ => cases hl
    rw [handle_loc_of_ne ht]
    exact hstill rfl _
  | env => exact hstill rfl _

theorem Move.early {p p' : Phase} (hm : Move s a i p p') (h : BarrierInv s b)
    (hp : p.early = true → b.count i = b.took i) (hp' : p'.early = true) :
    (b.record (event a)).count i = (b.record (event a)).took i := by
  cases hm with
  | still hc ht =>
    rw [Barrier.Ledger.record_count_of_ne hc, Barrier.Ledger.record_took_of_ne ht]
    exact hp hp'
  | next he hn hc hw =>
    rw [he]
    exact hp (Phase.early_of_next hn hw hp')
  | count | skip => cases hp'
  | take he hs =>
    have ht := h.token i
    have := h.ok.count_of_token (i := i) (by omega)
    rw [he]
    simp [Barrier.Ledger.record, Barrier.Ledger.apply, this]
  | renew he hr =>
    rw [he]
    exact hp hr

theorem main_wake : (sistema.wake s t).loc .main = s.loc .main := by
  by_cases ht : t = .main
  · subst ht
    rw [wake_loc_self, if_neg]
    simp [Program.op, sistema, code, main_not_interruptible]
  · exact wake_loc_of_ne (Ne.symm ht)

/-- Only operations of `main` and of the reporters change the semaphores, and
waking, death and the simulator change nothing of the barrier. -/
theorem step_still (hs : sistema.Step s a s') (hst : Steady s a) :
    (∃ t ok, a = .exec t (s.loc t) ok ∧ s' = sistema.effect s t ok) ∨
      event a = none ∧ s'.sem = s.sem ∧ s'.glob.msgRead = s.glob.msgRead ∧
        s'.loc .main = s.loc .main := by
  cases hs with
  | @exec t ok => exact .inl ⟨t, ok, rfl, rfl⟩
  | die => exact .inr ⟨rfl, rfl, rfl, die_loc⟩
  | cont => exact .inr ⟨rfl, rfl, rfl, main_wake⟩
  | int => exact hst.1.elim
  | env e => cases e <;> exact .inr ⟨rfl, rfl, rfl, rfl⟩

/-- The events of the barrier in `main`. -/
theorem main_event {l : MainPc} {e : Barrier.Event Slot} (h : l.event = some e) :
    (l = .reset ∧ e = .release) ∨ ∃ j, l = .post j ∧ e = .post j := by
  cases l with
  | reset =>
    cases h
    exact .inl ⟨rfl, rfl⟩
  | post j =>
    cases h
    exact .inr ⟨j, rfl, rfl⟩
  | _ => cases h

theorem token_step (hs : sistema.Step s a s') (hst : Steady s a) (h : BarrierInv s b) (i : Slot) :
    s'.sem (.msg i) + (b.record (event a)).took i = (b.record (event a)).posted i := by
  have ht := h.token i
  obtain ⟨t, ok, rfl, rfl⟩ | ⟨he, hsem, _, _⟩ := step_still hs hst
  rotate_left
  · rw [he, hsem]
    exact ht
  rw [effect_sem]
  by_cases htm : t = .main
  · subst htm
    have hop : sistema.op s .main = main (s.loc .main) := rfl
    cases hl : (s.loc .main).event with
    | none =>
      have he : event (.exec .main (s.loc .main) ok) = none := hl
      rw [he, hop, Op.sems_quiet (main_quiet h.plain hl i)]
      exact ht
    | some e =>
      have he : event (.exec .main (s.loc .main) ok) = some e := hl
      rw [he, hop]
      obtain ⟨hl', rfl⟩ | ⟨j, hl', rfl⟩ := main_event hl
      · rw [hl']
        exact ht
      · rw [hl']
        by_cases hj : i = j
        · subst hj
          rw [Barrier.Ledger.record_post]
          simp only [main, Op.sems, if_true]
          have : (b.record (some (.post i))).took i = b.took i := rfl
          omega
        · rw [Barrier.Ledger.record_posted_of_ne (by simpa using Ne.symm hj),
            Barrier.Ledger.record_took_of_ne (e := some (.post j)) (by simp)]
          simpa [main, Op.sems, hj] using ht
  · rw [Barrier.Ledger.record_posted_of_ne (event_ne_post htm)]
    by_cases hw : phase t (s.loc t) = .atWait ∧ slotOf t = some i
    · obtain ⟨hw, hslot⟩ := hw
      obtain ⟨k, hk⟩ := atWait_op hw hslot
      have hop : sistema.op s t = .wait (.msg i) k := hk
      have hpos := hs.exec_inv.2.2.2.1
      rw [hop] at hpos ⊢
      rw [event_take.mpr ⟨hw, hslot⟩, Barrier.Ledger.record_take]
      simp only [Op.sems, if_true]
      have : 0 < s.sem (.msg i) := hpos
      omega
    · have hne : event (.exec t (s.loc t) ok) ≠ some (.take i) := fun he => hw (event_take.mp he)
      have hop : sistema.op s t = code t (s.loc t) := rfl
      rw [Barrier.Ledger.record_took_of_ne hne, hop, Op.sems_quiet (quiet_msg htm _ hw)]
      exact ht

theorem seen_step (hs : sistema.Step s a s') (hst : Steady s a) (h : BarrierInv s b) :
    ∑ i, (b.record (event a)).count i = s'.glob.msgRead + 7 * (b.record (event a)).releases := by
  have hseen := h.seen
  obtain ⟨t, ok, rfl, rfl⟩ | ⟨he, _, hread, _⟩ := step_still hs hst
  rotate_left
  · rw [he, hread]
    exact hseen
  rw [effect_glob]
  by_cases htm : t = .main
  · subst htm
    have hop : sistema.op s .main = main (s.loc .main) := rfl
    cases hl : (s.loc .main).event with
    | none =>
      have he : event (.exec .main (s.loc .main) ok) = none := hl
      rw [he, hop, main_msgRead hl]
      exact hseen
    | some e =>
      have he : event (.exec .main (s.loc .main) ok) = some e := hl
      rw [he, hop]
      obtain ⟨hl', rfl⟩ | ⟨j, hl', rfl⟩ := main_event hl
      · have hfull := h.full hl'
        rw [hl']
        simp only [Barrier.Ledger.record, Option.elim, Barrier.Ledger.apply, main, Op.glob]
        omega
      · rw [hl']
        exact hseen
  · have hop : sistema.op s t = code t (s.loc t) := rfl
    rw [hop]
    by_cases hc : phase t (s.loc t) = .atCount
    · obtain ⟨i, hslot⟩ := slotOf_some (l := s.loc t) (by rw [hc]; decide)
      rw [event_count.mpr ⟨hc, hslot⟩, (atCount_op hc _).1]
      simp only [Barrier.Ledger.record, Option.elim, Barrier.sum_count, hseen]
      simp only [Barrier.Ledger.apply]
      omega
    · have hne : ∀ i, event (.exec t (s.loc t) ok) ≠ some (.count i) :=
        fun i he => hc (event_count.mp he).1
      simp only [Barrier.Ledger.record_count_of_ne (hne _)]
      rw [Barrier.Ledger.record_releases_of_ne (event_ne_release htm), msgRead_other htm hc]
      exact hseen

theorem due_step (hs : sistema.Step s a s') (hst : Steady s a) (h : BarrierInv s b) (i : Slot) :
    (b.record (event a)).posted i + (if (s'.loc .main).due i then 1 else 0) =
      (b.record (event a)).releases := by
  have hdue := h.due i
  obtain ⟨t, ok, rfl, rfl⟩ | ⟨he, _, _, hmain⟩ := step_still hs hst
  rotate_left
  · rw [he, hmain]
    exact hdue
  by_cases htm : t = .main
  · subst htm
    have hop : sistema.op s .main = main (s.loc .main) := rfl
    rw [effect_loc_self, hop]
    cases hl : (s.loc .main).event with
    | none =>
      have he : event (.exec .main (s.loc .main) ok) = none := hl
      rw [he, main_due hl]
      exact hdue
    | some e =>
      have he : event (.exec .main (s.loc .main) ok) = some e := hl
      rw [he]
      obtain ⟨hl', rfl⟩ | ⟨j, hl', rfl⟩ := main_event hl
      · rw [hl'] at hdue ⊢
        simpa [Barrier.Ledger.record, Barrier.Ledger.apply, main, Op.dest, MainPc.due] using hdue
      · rw [hl'] at hdue ⊢
        rw [main_due_post]
        have hr : (b.record (some (.post j))).releases = b.releases := rfl
        by_cases hj : i = j
        · subst hj
          rw [Barrier.Ledger.record_post, hr]
          simpa [MainPc.due] using hdue
        · rw [Barrier.Ledger.record_posted_of_ne (by simpa using Ne.symm hj), hr]
          have hlt : j < i ↔ j ≤ i := ⟨le_of_lt, fun hle => lt_of_le_of_ne hle (Ne.symm hj)⟩
          simpa [MainPc.due, hlt] using hdue
  · rw [effect_loc_of_ne (Ne.symm htm), Barrier.Ledger.record_posted_of_ne (event_ne_post htm),
      Barrier.Ledger.record_releases_of_ne (event_ne_release htm)]
    exact hdue

/-- Nobody counts between the test of the counter and its reset. -/
theorem full_step (hs : sistema.Step s a s') (hst : Steady s a) (h : BarrierInv s b)
    (hh : ∀ t, s.held t = holds t (s.loc t)) (hm : Mutex s .read)
    (hr : s'.loc .main = .reset) : s'.glob.msgRead = 7 := by
  obtain ⟨t, ok, rfl, rfl⟩ | ⟨_, _, hread, hmain⟩ := step_still hs hst
  rotate_left
  · rw [hread]
    exact h.full (hmain ▸ hr)
  rw [effect_glob]
  by_cases htm : t = .main
  · subst htm
    have hop : sistema.op s .main = main (s.loc .main) := rfl
    rw [effect_loc_self, hop] at hr
    obtain ⟨hl, h7⟩ := main_reset hr
    rw [hop, hl]
    exact h7
  · have hop : sistema.op s t = code t (s.loc t) := rfl
    rw [effect_loc_of_ne (Ne.symm htm)] at hr
    by_cases hc : phase t (s.loc t) = .atCount
    · have ht : .read ∈ s.held t := by
        rw [hh]
        exact (atCount_op hc s.glob).2
      have hm' : .read ∈ s.held .main := by
        rw [hh, hr]
        simp [holds, MainPc.holds]
      exact absurd (hm.unique ht hm') htm
    · rw [hop, msgRead_other htm hc]
      exact h.full hr

theorem plain_step (hs : sistema.Step s a s') (hst : Steady s a) (h : BarrierInv s b) :
    (s'.loc .main).plain = true := by
  obtain ⟨t, ok, rfl, rfl⟩ | ⟨_, _, _, hmain⟩ := step_still hs hst
  · by_cases htm : t = .main
    · subst htm
      rw [effect_loc_self]
      exact main_plain h.plain _ _
    · rw [effect_loc_of_ne (Ne.symm htm)]
      exact h.plain
  · rw [hmain]
    exact h.plain

theorem enabled_step (hs : sistema.Step s a s') (hst : Steady s a) (hi : EngineInv s)
    (hr : Replaced EnginePc.uncounted s) (h : BarrierInv s b) :
    ∀ e ∈ event a, b.Enabled e := by
  intro e he
  have he : event a = some e := he
  cases e with
  | count i =>
    have hm := move_step hs hi hr i
    generalize hp : phaseAt s i = p at hm
    generalize phaseAt s' i = p' at hm
    cases hm with
    | count => exact h.early i (by rw [hp]; rfl)
    | still hc => exact absurd he hc
    | _ => simp_all
  | take i =>
    have hm := move_step hs hi hr i
    generalize phaseAt s i = p at hm
    generalize phaseAt s' i = p' at hm
    cases hm with
    | take _ hpos =>
      have := h.token i
      exact show b.took i < b.posted i by omega
    | still _ ht => exact absurd he ht
    | _ => simp_all
  | post j =>
    obtain ⟨t, ok, rfl, rfl⟩ | ⟨hn, _⟩ := step_still hs hst
    · by_cases htm : t = .main
      · subst htm
        obtain ⟨_, he⟩ | ⟨j', hl, he⟩ := main_event he <;> cases he
        have := h.due j
        rw [hl] at this
        simp only [MainPc.due, le_refl, decide_true, if_true] at this
        exact show b.posted j < b.releases by omega
      · exact absurd he (event_ne_post htm)
    · rw [hn] at he
      cases he
  | release =>
    obtain ⟨t, ok, rfl, rfl⟩ | ⟨hn, _⟩ := step_still hs hst
    · by_cases htm : t = .main
      · subst htm
        obtain ⟨hl, _⟩ | ⟨_, _, he⟩ := main_event he
        · have h7 := h.full hl
          have hseen := h.seen
          intro i
          have hcard : Fintype.card Slot = 7 := rfl
          have := h.ok.counted_of_full (by rw [hcard]; omega) i
          omega
        · cases he
      · exact absurd he (event_ne_release htm)
    · rw [hn] at he
      cases he

theorem barrierInv_step (hs : sistema.Step s a s') (hst : Steady s a) (hi : EngineInv s)
    (hr : Replaced EnginePc.uncounted s) (hh : ∀ t, s.held t = holds t (s.loc t))
    (hm : Mutex s .read) (h : BarrierInv s b) : BarrierInv s' (b.record (event a)) where
  ok := by
    have := enabled_step hs hst hi hr h
    cases he : event a with
    | none => exact h.ok
    | some e => exact h.ok.apply (this e he)
  token := token_step hs hst h
  due := due_step hs hst h
  early i := (move_step hs hi hr i).early h (h.early i)
  seen := seen_step hs hst h
  full := full_step hs hst h hh hm
  plain := plain_step hs hst h

/-- What happens at the barrier in a run. -/
def events (tr : List Label) : List (Barrier.Event Slot) := tr.filterMap event

theorem events_snoc (tr : List Label) (a : Label) : events (tr ++ [a]) = events tr ++ (event a).toList := by
  cases h : event a <;> simp [events, List.filterMap_append, h]

variable {C : State → Label → Prop} {inp : Input} {tr : List Label}

/-- A steady run of the controller is a legal run of the barrier. -/
theorem barrier_run (h : sistema.Run C (init inp) tr s) (hC : ∀ s a, C s a → Steady s a) :
    Barrier.Legal (events tr) ∧ BarrierInv s (Barrier.ledger (events tr)) := by
  induction h with
  | nil => exact ⟨.nil, barrierInv_init inp⟩
  | @snoc tr s s' a hrun hs hc ih =>
    obtain ⟨hl, hb⟩ := ih
    have hst := hC s a hc
    have hi := engineInv hrun
    have hr := replaced_run uncounted_kept (fun s a hc => (hC s a hc).2) hrun
    rw [events_snoc, Barrier.ledger_record]
    exact ⟨hl.record (enabled_step hs hst hi hr hb),
      barrierInv_step hs hst hi hr (held_eq hrun) (mutex hrun rfl) hb⟩

end Sistema
