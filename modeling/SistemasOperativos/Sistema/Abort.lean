import SistemasOperativos.Sistema.Messages
import SistemasOperativos.Sistema.Fuel

/-!
# The abort of a landing

`EVENT_4` and `manual_explote` are tested, and the source never sets them. What is left is
the test of the fuel, which the thread makes under `sem_gas` and acts on after it.
-/
namespace Sistema

open Threads Threads.Program

variable {s s' : State} {a : Label} {tr : List Label} {inp : Input} {ok : Bool}
variable {C : State → Label → Prop}

/-- From the test that finds too little fuel up to the signal. -/
def ExplotePc.aborts : ExplotePc → Bool
  | .unlockGas low => low
  | .clearManual | .abort _ | .waitAbort | .sleep | .kill => true
  | _ => false

/-- From the test that finds an explosion up to the end of its message. -/
def ExplotePc.explodes : ExplotePc → Bool
  | .unlockAction m | .send m _ => m = .abortando
  | _ => false

structure AbortInv (s : State) : Prop where
  action : s.glob.currentAction ≠ .event4
  manual : s.glob.manualExplote = false
  low : (s.loc .signalExploteRocket).aborts = true → s.glob.gasoline < 10
  quiet : (s.loc .signalExploteRocket).explodes = false

theorem aborts_dest {l : ExplotePc} {g : Shared}
    (h : ((signalExploteRocket l).dest l g ok).aborts = true) :
    l.aborts = true ∨ l = .testGas ∧ (g.gasoline < 10 ∨ g.manualExplote = true) := by
  cases l with
  | testGas => exact .inr ⟨rfl, by simpa [signalExploteRocket, Op.dest, ExplotePc.aborts] using h⟩
  | unlockGas low =>
    cases low with
    | true => exact .inl rfl
    | false => cases h
  | clearManual | abort | waitAbort | sleep | kill => exact .inl rfl
  | send m p =>
    cases p with
    | sendto numsec =>
      simp only [signalExploteRocket, sendMesg, Op.dest] at h
      split at h
      · cases h
      · split at h <;> cases h
    | _ => cases h
  | head =>
    simp only [signalExploteRocket, Op.dest] at h
    split at h <;> cases h
  | _ => cases h

theorem explodes_dest {l : ExplotePc} {g : Shared} (hg : g.currentAction ≠ .event4)
    (h : l.explodes = false) : ((signalExploteRocket l).dest l g ok).explodes = false := by
  cases l with
  | testAction => simp [signalExploteRocket, Op.dest, hg, ExplotePc.explodes]
  | unlockAction m => exact h
  | send m p =>
    refine sendMesg_dest (A := fun l => ExplotePc.explodes l = false) ?_ ?_ p
    · exact fun _ => h
    · rfl
  | abort p =>
    refine sendMesg_dest (A := fun l => ExplotePc.explodes l = false) ?_ ?_ p
    · exact fun _ => rfl
    · rfl
  | head =>
    simp only [signalExploteRocket, Op.dest]
    split <;> rfl
  | unlockGas low => cases low <;> rfl
  | _ => rfl

theorem action_step (hs : sistema.Step s a s') (h : s.glob.currentAction ≠ .event4) :
    s'.glob.currentAction ≠ .event4 := by
  obtain ⟨t, l, ok, -, -, -, hw⟩ | ⟨w, -, hw⟩ | hw := step_writes hs
  · generalize s'.glob = g' at hw
    cases hw with
    | descend => rwa [descend_eq]
    | assign1 | assign3 | assign5 => exact fun he => by cases he
    | _ => exact h
  · rw [hw]
    cases w <;> exact h
  · rwa [hw]

theorem manual_step (hs : sistema.Step s a s') (h : s.glob.manualExplote = false) :
    s'.glob.manualExplote = false := by
  obtain ⟨t, l, ok, -, -, -, hw⟩ | ⟨w, -, hw⟩ | hw := step_writes hs
  · generalize s'.glob = g' at hw
    cases hw with
    | descend => rwa [descend_eq]
    | clearManual => rfl
    | _ => exact h
  · rw [hw]
    cases w <;> exact h
  · rwa [hw]

theorem abortInv_step (hs : sistema.Step s a s') (h : AbortInv s) : AbortInv s' := by
  refine ⟨action_step hs h.action, manual_step hs h.manual, fun hl => ?_, ?_⟩
  · refine (gasoline_step hs).trans_lt ?_
    obtain hl' | ⟨ok, hl'⟩ | hl' := step_loc hs .signalExploteRocket
    · exact h.low (hl' ▸ hl)
    · rw [hl'] at hl
      obtain hl | ⟨-, hgas | hman⟩ := aborts_dest hl
      · exact h.low hl
      · exact hgas
      · cases h.manual.symm.trans hman
    · cases hl'
  · obtain hl' | ⟨ok, hl'⟩ | hl' := step_loc hs .signalExploteRocket
    · exact hl' ▸ h.quiet
    · rw [hl']
      exact explodes_dest h.action h.quiet
    · cases hl'

theorem abortInv (h : sistema.Run C (init inp) tr s) : AbortInv s := by
  refine h.invariant ?_ fun _ _ _ hi hs _ => abortInv_step hs hi
  refine ⟨?_, rfl, ?_, rfl⟩
  · intro he
    cases he
  · intro he
    cases he

theorem carried_abortando {l : ExplotePc}
    (h : carried .signalExploteRocket l = some .abortando) : l.aborts = true ∨ l.explodes = true := by
  cases l with
  | abort p => exact .inl rfl
  | unlockAction m | send m p =>
    obtain rfl := Option.some.inj h
    exact .inr rfl
  | _ => cases h

/-- The only `pthread_kill` of the check is at the end of an abort. -/
theorem raises_aborts (hs : sistema.Step s a s') (ha : raises s a = true) :
    (s.loc .signalExploteRocket).aborts = true := by
  cases hs with
  | @exec t ok _ _ _ =>
    cases t with
    | signalExploteRocket =>
      have hkill : interrupts .signalExploteRocket (s.loc .signalExploteRocket) = true :=
        signals_int (of_decide_eq_true ha)
      generalize s.loc .signalExploteRocket = l at hkill
      cases l with
      | kill => rfl
      | _ => cases hkill
    | _ => cases ha
  | _ => cases ha

/-- Nobody announces an abort, and the process is not ended for one, unless there are less
than ten units of fuel at that moment. -/
theorem abort_sound (h : sistema.Run C (init inp) tr s) (hs : sistema.Step s a s')
    (ha : sent a = some .abortando ∨ raises s a = true) : s.glob.gasoline < 10 := by
  have hinv := abortInv h
  obtain ha | ha := ha
  · cases hs with
    | @exec t ok _ _ _ =>
      have hcar : carried t (s.loc t) = some .abortando := sent_carried ha
      obtain rfl := explote_of_slot (own h t _ hcar)
      obtain hl | hl := carried_abortando hcar
      · exact hinv.low hl
      · cases hinv.quiet.symm.trans hl
    | _ => cases ha
  · exact hinv.low (raises_aborts hs ha)

/-- With five units the first round of the check is an abort. -/
theorem abort_of_five : ∃ tr s s', sistema.Run Any (init ⟨100, 5, fun _ => 0, 0⟩) tr s ∧
    sistema.Step s (.exec .signalExploteRocket (s.loc .signalExploteRocket) true) s' ∧
    sent (.exec .signalExploteRocket (s.loc .signalExploteRocket) true) = some .abortando ∧
    s.glob.gasoline < 10 := by
  have hrun : ∃ tr s, sistema.Run Any (init ⟨100, 5, fun _ => 0, 0⟩) tr s ∧
      s.Running .signalExploteRocket ∧ s.cancelled .signalExploteRocket = false ∧
      s.loc .signalExploteRocket = .abort (.sendto 1) := by
    refine run_of_check (boot ++ burst .signalExploteRocket 7) ?_
    decide +kernel
  obtain ⟨tr, s, h, hr, hc, hl⟩ := hrun
  obtain ⟨s', hs, ha⟩ := sendto_step hr hc (congrArg (code .signalExploteRocket) hl)
  exact ⟨tr, s, s', h, hs, ha, abort_sound h hs (.inl ha)⟩

end Sistema
