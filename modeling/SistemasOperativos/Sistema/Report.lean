import SistemasOperativos.Sistema.Touchdown

/-!
# The report of a landing

`main` polls `is_on` and returns when it finds it cleared, while the landing check has
its last message still to send.
-/
namespace Sistema

open Threads Threads.Program

variable {s s' : State} {a : Label} {t : Tid} {tr : List Label} {inp : Input} {ok : Bool}

/-- The landing is declared, and its message not yet handed to `sendto`. -/
def LandingPc.owes : LandingPc → Bool
  | .unlockTouch _ _ | .report _ .lock => true
  | .report _ (.sendto numsec) => numsec = 1
  | _ => false

/-- `is_on = 0`. -/
def declares : Label → Bool
  | .exec .signalLandingCheck (.touch _) _ => true
  | _ => false

def Msg.landed : Msg → Bool
  | .distancia _ .satisfactorio => true
  | _ => false

/-- `sendto` with the text of a landing, whatever it returns. -/
def reports : Label → Bool
  | .exec t l _ => ((code t l).sent true).any Msg.landed
  | _ => false

/-- The loop test of `main`. -/
def polls : Label → Bool
  | .exec .main .head _ => true
  | _ => false

/-- A `SIGINT` from another thread than the landing check. -/
def interferes (s : State) : Label → Bool
  | .exec t l _ => t ≠ .signalLandingCheck ∧ (code t l).signals .int s.glob = some .main
  | _ => false

/-- No other signal is raised, and `main` does not poll while the report is due. -/
def Patient (s : State) (a : Label) : Prop :=
  interferes s a = false ∧ (polls a = true → (s.loc .signalLandingCheck).owes = false)

instance (s : State) (a : Label) : Decidable (Patient s a) :=
  inferInstanceAs (Decidable (_ ∧ (_ → _)))

/-- The process has ended, or nothing keeps it from ending any more. -/
def Leaving (s : State) : Prop :=
  s.ended = true ∨ (s.thr .main).int = true ∨ (s.loc .main).leaves = true

/-- The landing is declared and its message handed over. -/
def LandingPc.Paid (l : LandingPc) : Prop := l.down = true ∧ l.owes = false

structure ReportInv (tr : List Label) (s : State) : Prop where
  on : s.glob.isOn = !(s.loc .signalLandingCheck).down
  flat : s.glob.landscape = false
  told : (s.loc .signalLandingCheck).Paid → ∃ a ∈ tr, reports a = true
  gone : Leaving s → (s.loc .signalLandingCheck).Paid

/-! ## The landing check -/

theorem on_step (hs : sistema.Step s a s') (h : s.glob.isOn = !(s.loc .signalLandingCheck).down) :
    s'.glob.isOn = !(s'.loc .signalLandingCheck).down := by
  refine step_slice hs .signalLandingCheck (I := fun l g => g.isOn = !LandingPc.down l) h ?_ ?_ ?_ ?_ ?_
  · intro ok _ _ _
    exact down_dest h
  · intro t ok ht _ _
    exact (isOn_other ht _ _).trans h
  · intro _ hi
    have hglob : (signalLandingCheck (s.loc .signalLandingCheck)).glob s.glob = s.glob :=
      Op.interruptible_glob hi s.glob
    exact (congrArg Shared.isOn hglob).symm.trans (down_dest h)
  · intro l _ hl
    cases hl
  · intro e _
    cases e <;> exact h

theorem landscape_step (hs : sistema.Step s a s') (h : s.glob.landscape = false) :
    s'.glob.landscape = false := by
  obtain ⟨t, l, ok, -, -, -, hw⟩ | ⟨w, -, hw⟩ | hw := step_writes hs
  · generalize s'.glob = g' at hw
    cases hw with
    | descend => exact (congrArg Shared.landscape (descend_eq _)).trans h
    | _ => exact h
  · rw [hw]
    cases w <;> exact h
  · rw [hw]
    exact h

/-- Once it is paid nothing is owed again. -/
theorem paid_dest {l : LandingPc} {g : Shared} (h : l.Paid) :
    ((signalLandingCheck l).dest l g ok).Paid := by
  obtain ⟨hd, ho⟩ := h
  have hloop : ∀ n d, (LandingPc.report d (sendLoop (n * 2))).owes = false := by
    intro n d
    obtain h | h := sendLoop_cases (n * 2) <;> rw [h]
    · simp only [LandingPc.owes, decide_eq_false_iff_not]
      omega
    · rfl
  cases l with
  | report d p =>
    cases p with
    | lock => cases ho
    | sendto numsec =>
      simp only [signalLandingCheck, sendMesg, Op.dest]
      split
      · exact ⟨rfl, rfl⟩
      · split
        · exact ⟨rfl, rfl⟩
        · exact ⟨rfl, hloop numsec d⟩
    | sleep numsec => exact ⟨rfl, hloop numsec d⟩
    | _ => exact ⟨rfl, rfl⟩
  | unlockTouch => cases ho
  | sleep | kill | finished => exact ⟨rfl, rfl⟩
  | _ => cases hd

/-- What is owed is paid by the first `sendto`. -/
theorem told_dest {l : LandingPc} {g : Shared} (hon : g.isOn = !l.down)
    (h : ((signalLandingCheck l).dest l g ok).Paid) :
    l.Paid ∨ reports (.exec .signalLandingCheck l ok) = true := by
  have hkept : ((signalLandingCheck l).glob g).isOn = !((signalLandingCheck l).dest l g ok).down :=
    down_dest hon
  have hup : l.down = false → ((signalLandingCheck l).dest l g ok).down = true →
      ((signalLandingCheck l).dest l g ok).owes = true := by
    intro hl hd
    cases l with
    | touch => rfl
    | unlockTouch | report | sleep | kill | finished => cases hl
    | change d p | send d p =>
      rw [hd] at hkept
      cases p <;> cases hkept.symm.trans hon
    | _ =>
      rw [hd] at hkept
      cases hkept.symm.trans hon
  cases hl : l.down with
  | false => cases h.2.symm.trans (hup hl h.1)
  | true =>
    cases l with
    | unlockTouch i d => obtain rfl | rfl := gyro_cases i <;> cases h.2
    | report d p =>
      cases p with
      | lock => cases h.2
      | sendto numsec => exact .inr rfl
      | _ => exact .inl ⟨rfl, rfl⟩
    | sleep | kill | finished => exact .inl ⟨rfl, rfl⟩
    | _ => cases hl

theorem paid_step (hs : sistema.Step s a s') (h : (s.loc .signalLandingCheck).Paid) :
    (s'.loc .signalLandingCheck).Paid := by
  obtain he | ⟨ok, he⟩ | he := step_loc hs .signalLandingCheck
  · rwa [he]
  · rw [he]
    exact paid_dest h
  · cases he

theorem told_step (hs : sistema.Step s a s')
    (hon : s.glob.isOn = !(s.loc .signalLandingCheck).down)
    (h : (s'.loc .signalLandingCheck).Paid) :
    (s.loc .signalLandingCheck).Paid ∨ reports a = true := by
  revert h
  refine step_slice hs .signalLandingCheck (I := fun l _ => LandingPc.Paid l →
    (s.loc .signalLandingCheck).Paid ∨ reports a = true) .inl ?_ ?_ ?_ ?_ ?_
  · rintro ok rfl - - h
    exact told_dest hon h
  · intro _ _ _ _ _
    exact .inl
  · intro _ hi h
    refine (told_dest hon h).imp id fun hr => ?_
    have hnone : (code .signalLandingCheck (s.loc .signalLandingCheck)).sent true = none :=
      Op.interruptible_sent hi true
    rw [reports, hnone] at hr
    cases hr
  · intro l _ hl
    cases hl
  · intro _ _
    exact .inl

/-! ## `main` -/

/-- The process ends where `main` is leaving. -/
def atExit : (t : Tid) → Loc t → Bool
  | .main, l => l.leaves
  | _, _ => false

theorem exits {l : Loc t} (h : (code t l).isExit = true) : atExit t l = true := by
  have hc := code_calls t l
  generalize code t l = o at hc h
  cases hc with
  | plain hp => cases hp.isExit.symm.trans h
  | exit hl => exact hl
  | _ => cases h

theorem leaves_dest {l : MainPc} {g : Shared} (h : l.leaves = false)
    (hd : ((main l).dest l g ok).leaves = true) : l = .head ∧ (g.isOn && !g.landscape) = false := by
  cases l with
  | head =>
    refine ⟨rfl, ?_⟩
    cases hg : g.isOn && !g.landscape with
    | false => rfl
    | true =>
      simp only [main, Op.dest, hg, if_true] at hd
      cases hd
  | createGyros p =>
    cases p with
    | clearState i => cases hd
    | storeThread i t => obtain rfl | rfl := gyro_cases i <;> cases hd
    | _ => cases hd
  | test =>
    simp only [main, Op.dest] at hd
    split at hd <;> cases hd
  | post i =>
    simp only [main, Op.dest] at hd
    split at hd <;> cases hd
  | exit | handler => cases h
  | _ => cases hd

theorem gone_step (hs : sistema.Step s a s') (hc : Patient s a) (h : ReportInv tr s)
    (hl : Leaving s') : (s'.loc .signalLandingCheck).Paid := by
  by_cases hgone : Leaving s
  · exact paid_step hs (h.gone hgone)
  have hint : (s.thr .main).int = false := by
    simpa using fun hi => hgone (.inr (.inl hi))
  have hstay : (s.loc .main).leaves = false := by
    simpa using fun hm => hgone (.inr (.inr hm))
  obtain he | hi | hm := hl
  · obtain ⟨t, ok, -, hexit⟩ := newly_ended hs he
    have hleaves := exits hexit
    cases t with
    | main => cases hstay.symm.trans hleaves
    | _ => cases hleaves
  · obtain ⟨t, ok, rfl, hsig⟩ := newly_interrupted hs hint hi
    refine paid_step hs ?_
    by_cases ht : t = .signalLandingCheck
    · subst ht
      have hkill := signals_int hsig
      generalize s.loc .signalLandingCheck = l at hkill
      cases l with
      | kill => exact ⟨rfl, rfl⟩
      | _ => cases hkill
    · cases hc.1.symm.trans (decide_eq_true ⟨ht, hsig⟩)
  · refine paid_step hs (step_slice hs .main
      (I := fun l _ => MainPc.leaves l = true → (s.loc .signalLandingCheck).Paid)
      (fun hm => by cases hstay.symm.trans hm) ?_ ?_ ?_ ?_ ?_ hm)
    · rintro ok rfl _ _ hm
      obtain ⟨hhead, hoff⟩ := leaves_dest hstay hm
      have hpoll : polls (.exec .main (s.loc .main) ok) = true := by
        rw [hhead]
        rfl
      have hon := h.on
      rw [h.flat, Bool.not_false, Bool.and_true] at hoff
      rw [hoff] at hon
      exact ⟨by simpa using hon, hc.2 hpoll⟩
    · intro _ _ _ _ _ hm
      cases hstay.symm.trans hm
    · intro _ hi _
      have hnot : (sistema.op s .main).interruptible = false := main_not_interruptible _
      cases hnot.symm.trans hi
    · rintro l rfl _ _
      cases hs with
      | int _ hset _ => cases hint.symm.trans hset
    · intro _ _ hm
      cases hstay.symm.trans hm

theorem reportInv_run (h : sistema.Run Patient (init inp) tr s) : ReportInv tr s := by
  induction h with
  | nil => exact ⟨rfl, rfl, nofun, by rintro (h | h | h) <;> cases h⟩
  | @snoc tr s s' a _ hs hc ih =>
    refine ⟨on_step hs ih.on, landscape_step hs ih.flat, fun hp => ?_, gone_step hs hc ih⟩
    obtain hp | ha := told_step hs ih.on hp
    · obtain ⟨b, hb, hr⟩ := ih.told hp
      exact ⟨b, List.mem_append_left _ hb, hr⟩
    · exact ⟨a, List.mem_append_right _ List.mem_cons_self, ha⟩

/-- If `main` is patient the process ends only after the landing has been reported. -/
theorem landing_reported (h : sistema.Run Patient (init inp) tr s) (he : s.ended = true) :
    ∃ a ∈ tr, reports a = true :=
  (reportInv_run h).told ((reportInv_run h).gone (.inl he))

/-- `main` returns after the message of a landing. -/
theorem landing_reported_once : ∃ tr s, sistema.Run Patient (init ⟨0, 100, fun _ => 0, 0⟩) tr s ∧
    s.ended = true ∧ ∃ a ∈ tr, reports a = true := by
  have hrun : ∃ tr s, sistema.Run Patient (init ⟨0, 100, fun _ => 0, 0⟩) tr s ∧
      s.ended = true := by
    refine run_of_check (boot ++ burst .signalLandingCheck 14 ++ burst .main 2) ?_
    decide +kernel
  obtain ⟨tr, s, h, he⟩ := hrun
  exact ⟨tr, s, h, he, landing_reported h he⟩

/-- `main` polls as soon as the landing is declared, and returns without the report. -/
theorem landing_unreported : ∃ inp tr s,
    sistema.Run (fun s a => interferes s a = false) (init inp) tr s ∧ s.ended = true ∧
    s.glob.isOn = false ∧ tr.any declares = true ∧ tr.any reports = false := by
  refine ⟨⟨0, 100, fun _ => 0, 0⟩, ?_⟩
  refine run_of_check (boot ++ burst .signalLandingCheck 10 ++ burst .main 2) ?_
  decide +kernel

end Sistema
