import SistemasOperativos.Sistema.Ticks
import SistemasOperativos.Sistema.Schedules

/-!
# Low fuel

The check of the fuel is at the barrier once in a round. Once the fuel is low, it
counts at most two more messages before it raises the signal.
-/
namespace Sistema

open Threads Threads.Program

variable {s s' s₁ s₂ : State} {a : Label} {tr tr₁ tr₂ : List Label} {ok : Bool} {inp : Input}

/-- The engine updates the fuel. -/
def burns : Label → Bool := atEngine EnginePc.burns

/-- `signal_explote_rocket` executes `pthread_kill(main_id, SIGINT)`. -/
def raises (s : State) : Label → Bool
  | .exec .signalExploteRocket l _ => (signalExploteRocket l).signals .int s.glob = some .main
  | _ => false

/-- A call of `send_mesg` has its `++msg_read` before it. -/
def SendPc.left : SendPc → ℕ
  | .unlockRead | .unlockSock => 0
  | _ => 1

/-- The messages still counted before the signal when the fuel is low. -/
def ExplotePc.left : ExplotePc → ℕ
  | .head | .testcancel | .lockGas | .testGas | .clearManual | .waitMsg => 1
  | .unlockGas low => if low then 1 else 2
  | .abort p => p.left
  | .waitAbort | .sleep | .kill | .finished => 0
  | .lockAction | .testAction | .unlockAction _ => 2
  | .send _ p => p.left + 1

theorem sendLoop_left (numsec : ℕ) : (sendLoop numsec).left = 1 := by
  obtain h | h := sendLoop_cases numsec <;> rw [h] <;> rfl

theorem sendMesg_left {L : Type} {f : L → ℕ} {m : Msg} {pc : SendPc → L} {k l : L} {n : ℕ}
    (hpc : ∀ q, f (pc q) = q.left + n) (hk : f k = n) (p : SendPc) (g : Shared) :
    f ((sendMesg m pc k p).dest l g ok) + (if p.phase = .atCount then 1 else 0) = p.left + n := by
  cases p with
  | sendto numsec =>
    simp only [sendMesg, Op.dest]
    split
    · rw [hpc]
      rfl
    · split
      · rw [hpc]
        rfl
      · rw [hpc, sendLoop_left]
        rfl
  | sleep numsec =>
    simp only [sendMesg, Op.dest]
    rw [hpc, sendLoop_left]
    rfl
  | unlockSock => exact hk.trans (Nat.zero_add n).symm
  | count =>
    simp only [sendMesg, Op.dest, hpc]
    exact Nat.add_right_comm 0 n 1
  | _ =>
    simp only [sendMesg, Op.dest, hpc]
    rfl

theorem left_dest {l : ExplotePc} {g : Shared} (hg : g.gasoline < 10) (hl : l ≠ .kill) :
    ((signalExploteRocket l).dest l g ok).left + (if l.phase = .atCount then 1 else 0) ≤
      l.left := by
  cases l with
  | abort p =>
    exact (sendMesg_left (f := ExplotePc.left) (n := 0) (fun _ => rfl) rfl p g).le
  | send m p =>
    exact (sendMesg_left (f := ExplotePc.left) (n := 1) (fun _ => rfl) rfl p g).le
  | head =>
    simp only [signalExploteRocket, Op.dest]
    split <;> decide
  | testGas => simp [signalExploteRocket, Op.dest, hg, ExplotePc.left, ExplotePc.phase]
  | unlockGas low => cases low <;> exact le_rfl
  | kill => exact absurd rfl hl
  | _ => exact le_rfl

/-- What the check comes to at the end of an abort. -/
theorem raises_kill : raises s (.exec .signalExploteRocket .kill ok) = true := rfl

/-- The signal is then pending for `main`. -/
theorem raises_int (hs : sistema.Step s a s') (ha : raises s a = true) :
    (s'.thr .main).int = true := by
  cases hs with
  | @exec t ok _ _ _ =>
    cases t with
    | signalExploteRocket =>
      have hsig : (sistema.op s .signalExploteRocket).signals .int s.glob = some .main :=
        of_decide_eq_true ha
      rw [effect_int, hsig, decide_eq_true rfl, Bool.or_true]
    | _ => cases ha
  | _ => cases ha

theorem explote_of_slot {t : Tid} (h : slotOf t = some 3) : t = .signalExploteRocket := by
  cases t with
  | signalGyro i => obtain rfl | rfl := gyro_cases i <;> cases h
  | signalExploteRocket => rfl
  | _ => cases h

/-- The messages that are left only get fewer. -/
theorem left_step (hs : sistema.Step s a s') (hg : s.glob.gasoline < 10) (hr : raises s a = false) :
    (s'.loc .signalExploteRocket).left + (if event a = some (.count 3) then 1 else 0) ≤
      (s.loc .signalExploteRocket).left := by
  cases hs with
  | @exec t ok _ _ _ =>
    by_cases ht : t = .signalExploteRocket
    · subst ht
      rw [effect_loc_self]
      have hl : s.loc .signalExploteRocket ≠ .kill := by
        intro hl
        rw [hl] at hr
        cases raises_kill.symm.trans hr
      have hiff : event (.exec .signalExploteRocket (s.loc .signalExploteRocket) ok) =
          some (.count 3) ↔ (s.loc .signalExploteRocket).phase = .atCount :=
        event_count.trans (and_iff_left rfl)
      simp only [hiff]
      exact left_dest hg hl
    · have hne : event (.exec t (s.loc t) ok) ≠ some (.count 3) :=
        fun he => ht (explote_of_slot (event_count.mp he).2)
      rw [effect_loc_of_ne (Ne.symm ht), if_neg hne]
      exact le_rfl
  | die =>
    rw [die_loc]
    exact le_rfl
  | @cont t _ _ =>
    by_cases ht : t = .signalExploteRocket
    · subst ht
      rw [wake_loc_self]
      split
      · rename_i hi
        have hl : s.loc .signalExploteRocket ≠ .kill := by
          intro hl
          have hop : sistema.op s .signalExploteRocket = signalExploteRocket .kill :=
            congrArg signalExploteRocket hl
          rw [hop] at hi
          cases hi
        exact (Nat.le_add_right _ _).trans (left_dest hg hl)
      · exact le_rfl
    · rw [wake_loc_of_ne (Ne.symm ht)]
      exact le_rfl
  | @int t l _ _ hl =>
    cases t with
    | main =>
      rw [handle_loc_of_ne (by nofun)]
      exact le_rfl
    | _ => cases hl
  | env => exact le_rfl

/-- Neither `terminte_program` nor a restart begins, and the signal is not raised. -/
def BeforeSignal (s : State) (a : Label) : Prop := Calm s a ∧ raises s a = false

instance (s : State) (a : Label) : Decidable (BeforeSignal s a) :=
  inferInstanceAs (Decidable (_ ∧ _))

/-- What the check of the fuel still counts from a state of low fuel. -/
theorem left_run (h : sistema.Run BeforeSignal s₁ tr₂ s₂) (hg : s₁.glob.gasoline < 10)
    (tr₁ : List Label) : s₂.glob.gasoline < 10 ∧
      (Barrier.ledger (events (tr₁ ++ tr₂))).count 3 + (s₂.loc .signalExploteRocket).left ≤
        (Barrier.ledger (events tr₁)).count 3 + (s₁.loc .signalExploteRocket).left := by
  induction h with
  | nil => exact ⟨hg, by rw [List.append_nil]⟩
  | @snoc tr s s' a _ hs hc ih =>
    obtain ⟨hlow, hle⟩ := ih
    have hstep := left_step hs hlow hc.2
    refine ⟨(gasoline_step hs).trans_lt hlow, ?_⟩
    rw [← List.append_assoc, events_snoc, Barrier.ledger_record]
    by_cases he : event a = some (.count 3)
    · rw [if_pos he] at hstep
      rw [he, Barrier.Ledger.record_count]
      omega
    · rw [if_neg he] at hstep
      rw [Barrier.Ledger.record_count_of_ne he]
      omega

theorem SendPc.left_le (p : SendPc) : p.left ≤ 1 ∧ (p.phase.early = false → p.left = 0) := by
  cases p with
  | unlockRead | unlockSock => exact ⟨Nat.zero_le 1, fun _ => rfl⟩
  | _ => exact ⟨le_rfl, nofun⟩

theorem left_le (l : ExplotePc) : l.left ≤ 2 ∧ (l.phase.early = false → l.left ≤ 1) := by
  cases l with
  | abort p =>
    have h := p.left_le.1
    exact ⟨h.trans (by decide), fun _ => h⟩
  | send m p =>
    refine ⟨Nat.succ_le_succ p.left_le.1, fun he => ?_⟩
    exact Nat.succ_le_succ (p.left_le.2 he).le
  | unlockGas low => cases low <;> exact ⟨by decide, by decide⟩
  | lockAction | testAction | unlockAction => exact ⟨le_rfl, nofun⟩
  | _ => exact ⟨by decide, by decide⟩

/-- At any moment of low fuel the signal is at most two releases away. -/
theorem releases_left (h₁ : sistema.Run Calm (init inp) tr₁ s₁) (hg : s₁.glob.gasoline < 10)
    (h₂ : sistema.Run BeforeSignal s₁ tr₂ s₂) :
    (Barrier.ledger (events (tr₁ ++ tr₂))).releases ≤
      (Barrier.ledger (events tr₁)).releases + 2 := by
  have hb₁ := calm_barrier h₁ fun _ _ => id
  have hb₂ := calm_barrier (h₁.append (h₂.mono fun _ _ hc => hc.1)) fun _ _ => id
  have hrel := hb₂.ok.releases_le 3
  have hleft := (left_run h₂ hg tr₁).2
  obtain ⟨htwo, hone⟩ := left_le (s₁.loc .signalExploteRocket)
  cases he : (s₁.loc .signalExploteRocket).phase.early with
  | true =>
    have := hb₁.early 3 he
    have := hb₁.ok.took_le 3
    have := hb₁.ok.posted_le 3
    omega
  | false =>
    have := hone he
    have := hb₁.ok.count_le_releases 3
    omega

/-- From a state with less than ten units of fuel on, the engine makes at most three
more ticks before the signal. -/
theorem three_ticks (h₁ : sistema.Run Calm (init inp) tr₁ s₁) (hg : s₁.glob.gasoline < 10)
    (h₂ : sistema.Run BeforeSignal s₁ tr₂ s₂) :
    tr₂.countP descends ≤ 3 ∧ tr₂.countP burns ≤ 3 := by
  have hrun := h₁.append (h₂.mono fun _ _ hc => hc.1)
  have hrel := releases_left h₁ hg h₂
  have hle : ∀ {x y}, OncePerRound x y → tr₂.countP (atEngine x) ≤ 3 := by
    intro x y hxy
    have h1 := (ticks_bounds hxy h₁ fun _ _ => id).1
    have h2 := (ticks_bounds hxy hrun fun _ _ => id).2
    rw [List.countP_append] at h2
    omega
  exact ⟨hle descends_once, hle burns_once⟩

/-- The bound is reached when a correction thread burns the tenth unit between the
check and the tick of a round. -/
theorem three_ticks_sharp : ∃ tr₁ s₁ tr₂ s₂,
    sistema.Run Calm (init ⟨10, 10, fun _ => 1, 0⟩) tr₁ s₁ ∧ s₁.glob.gasoline < 10 ∧
    sistema.Run BeforeSignal s₁ tr₂ s₂ ∧ tr₂.countP descends = 3 ∧
    tr₂.countP descends ≤ 3 ∧ tr₂.countP burns ≤ 3 := by
  have hrun : ∃ tr₁ s₁, sistema.Run Calm (init ⟨10, 10, fun _ => 1, 0⟩) tr₁ s₁ ∧
      s₁.glob.gasoline < 10 ∧
      ((sistema.play BeforeSignal (List.flatten [burst (.gyroscopeThread 0 0) 1, burst engine 26,
        burst (.signalGyro 0) 9, burst (.signalGyro 1) 17, burst .signalRestartLanding 17,
        burst .signalLandingCheck 17, manualReport, burst .main 12, burst engine 27,
        burst (.signalGyro 0) 17, burst (.signalGyro 1) 17, burst .signalRestartLanding 18,
        burst .signalExploteRocket 13, burst .signalLandingCheck 18,
        burst .sigHandlerManual 10, burst .main 12, burst engine 13]) [] s₁).any fun r =>
          r.1.countP descends = 3) = true := by
    refine run_of_check (List.flatten [boot, burst .signalExploteRocket 14,
      burst (.gyroscopeThread 0 0) 2, burst (.signalGyro 0) 8, [.cont (.gyroscopeThread 0 0)],
      burst (.gyroscopeThread 0 0) 7]) ?_
    decide +kernel
  obtain ⟨tr₁, s₁, h₁, hg, hplay⟩ := hrun
  obtain ⟨tr₂, s₂, h₂, h3⟩ := run_of_check (Q := fun tr _ => tr.countP descends = 3) _ hplay
  exact ⟨tr₁, s₁, tr₂, s₂, h₁, hg, h₂, h3, three_ticks h₁ hg h₂⟩

end Sistema
