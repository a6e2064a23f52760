import SistemasOperativos.ReadWriter.Exclusion

/-!
# How often a waiting writer is overtaken

A writer that waits for `empty` has `turn`. Nobody else goes through the turnstile, so
that a reader overtakes it only if it was through before, and only once.
-/
namespace ReadWriter

open Threads Threads.Program

variable {readers writers : ℕ} {s s' s₁ s₂ : State readers writers} {a : Label readers writers}
variable {r : Fin readers} {w : Fin writers} {tr : List (Label readers writers)}

/-- A step taken while `w` is between `sem_wait(&turn)` and `sem_wait(&empty)`. -/
def Waiting (w : Fin writers) (s : State readers writers) (_ : Label readers writers) : Prop :=
  s.loc (.writer w) = .waitEmpty

instance (w : Fin writers) (s : State readers writers) (a : Label readers writers) :
    Decidable (Waiting w s a) :=
  inferInstanceAs (Decidable (s.loc (.writer w) = WriterPc.waitEmpty))

/-- An operation of the turnstile. -/
def passes : Label readers writers → Bool
  | .exec (.reader _) .waitTurn _ | .exec (.reader _) .postTurn _ => true
  | _ => false

def writes : Label readers writers → Bool
  | .exec (.writer _) .write _ => true
  | _ => false

/-- The step into the reading section. -/
def startsReading : Label readers writers → Bool
  | .exec (.reader _) .postMutexIn _ => true
  | _ => false

def startedBy (r : Fin readers) : Label readers writers → Bool
  | .exec (.reader r') .postMutexIn _ => r' = r
  | _ => false

/-- Through the turnstile and not yet reading. -/
def ReaderPc.through : ReaderPc → Bool
  | .waitMutexIn | .loadIn | .storeIn _ | .testIn | .waitEmpty | .postMutexIn => true
  | _ => false

theorem turn_taken (h : Inv s) (hw : s.loc (.writer w) = .waitEmpty) :
    s.sem .turn = 0 ∧ ∀ t, .turn ∈ holds t (s.loc t) → t = .writer w := by
  have hheld : .turn ∈ s.held (.writer w) := by
    rw [h.tracks, hw]
    exact List.mem_singleton_self _
  refine ⟨?_, fun t ht => ?_⟩
  · obtain ⟨-, hn⟩ | ⟨h0, -⟩ := h.turn
    · exact absurd hheld (hn _)
    · exact h0
  · refine h.turn.unique ?_ hheld
    rw [h.tracks]
    exact ht

theorem waiting_quiet (hs : (readWriter readers writers).Step s a s') (h : Inv s)
    (hw : Waiting w s a) : passes a = false ∧ writes a = false := by
  obtain ⟨h0, hturn⟩ := turn_taken h hw
  obtain ⟨t, ok, rfl, -, he⟩ := step_exec hs h.alive
  have hheld := hturn t
  have hop : (readWriter readers writers).op s t = code t (s.loc t) := rfl
  rw [hop] at he
  cases t with
  | reader r =>
    generalize s.loc (.reader r) = l at hheld he
    cases l with
    | waitTurn => exact absurd h0 (Nat.pos_iff_ne_zero.mp he)
    | postTurn => cases hheld (List.mem_singleton_self _)
    | _ => exact ⟨rfl, rfl⟩
  | writer w' =>
    generalize hl : s.loc (.writer w') = l at hheld
    cases l with
    | write =>
      cases hheld (List.mem_cons_self)
      cases hw.symm.trans hl
    | _ => exact ⟨rfl, rfl⟩

/-- A reader that starts to read is behind the turnstile again. -/
theorem through_step (hs : (readWriter readers writers).Step s a s') (h : Inv s)
    (hp : passes a = false) (r : Fin readers) :
    (startedBy r a).toNat + (s'.loc (.reader r)).through.toNat ≤
      (s.loc (.reader r)).through.toNat := by
  obtain ⟨t, ok, rfl, rfl, -⟩ := step_exec hs h.alive
  by_cases ht : .reader r = t
  · subst ht
    have hop : (readWriter readers writers).op s (.reader r) =
        code (.reader r : Tid readers writers) (s.loc (.reader r)) := rfl
    rw [effect_loc_self, hop]
    generalize s.loc (.reader r) = l at hp
    cases l with
    | waitTurn | postTurn => cases hp
    | postMutexIn => simp [startedBy, code, reader, Op.dest, ReaderPc.through]
    | testIn | testOut =>
      simp only [code, reader, Op.dest]
      split <;> exact le_rfl
    | _ => exact le_rfl
  · rw [effect_loc_of_ne ht]
    have hnone : startedBy r (.exec t (s.loc t) ok) = false := by
      cases t with
      | reader r' =>
        generalize s.loc (.reader r') = l
        cases l with
        | postMutexIn => exact decide_eq_false fun he => ht (congrArg Tid.reader he.symm)
        | _ => rfl
      | writer w' => rfl
    rw [hnone, Bool.toNat_false, Nat.zero_add]

theorem waiting_run (h : (readWriter readers writers).Run (Waiting w) s₁ tr s₂) (hi : Inv s₁) :
    Inv s₂ ∧ (∀ a ∈ tr, passes a = false ∧ writes a = false) ∧
      ∀ r, tr.countP (startedBy r) + (s₂.loc (.reader r)).through.toNat ≤
        (s₁.loc (.reader r)).through.toNat := by
  induction h with
  | nil => exact ⟨hi, fun _ ha => absurd ha List.not_mem_nil, fun r => by simp⟩
  | @snoc tr s s' a _ hs hw ih =>
    obtain ⟨hinv, hquiet, hcount⟩ := ih
    have hq := waiting_quiet hs hinv hw
    refine ⟨inv_step hs hinv, fun b hb => ?_, fun r => ?_⟩
    · obtain hb | hb := List.mem_append.mp hb
      · exact hquiet b hb
      · exact List.mem_singleton.mp hb ▸ hq
    · have hr := hcount r
      have hstep := through_step hs hinv hq.1 r
      rw [countP_snoc]
      omega

theorem startsReading_sum (tr : List (Label readers writers)) :
    tr.countP startsReading ≤ ∑ r, tr.countP (startedBy r) := by
  induction tr with
  | nil => simp
  | cons a tr ih =>
    simp only [List.countP_cons, Finset.sum_add_distrib]
    refine Nat.add_le_add ih ?_
    cases ha : startsReading a with
    | false => simp
    | true =>
      have hby : ∃ r, startedBy r a = true := by
        unfold startsReading at ha
        split at ha
        · exact ⟨_, decide_eq_true rfl⟩
        · cases ha
      obtain ⟨r, hr⟩ := hby
      have hle := Finset.single_le_sum (f := fun r => if startedBy r a = true then 1 else 0)
        (fun _ _ => Nat.zero_le _) (Finset.mem_univ r)
      simpa [hr] using hle

/-- While a writer waits for `empty`, no reader goes through the turnstile and no writer
writes; each reader starts to read at most once, all of them at most as often as there
are readers. -/
theorem overtaking_bounded
    (h₁ : (readWriter readers writers).Reachable (init readers writers) s₁)
    (h₂ : (readWriter readers writers).Run (Waiting w) s₁ tr s₂) :
    (∀ a ∈ tr, passes a = false) ∧ (∀ a ∈ tr, writes a = false) ∧
    (∀ r, tr.countP (startedBy r) ≤ 1) ∧ tr.countP startsReading ≤ readers := by
  obtain ⟨-, hquiet, hcount⟩ := waiting_run h₂ (inv_reachable h₁)
  have hone : ∀ r, tr.countP (startedBy r) ≤ 1 := by
    intro r
    have hr := hcount r
    have hle := Bool.toNat_le (s₁.loc (.reader r)).through
    omega
  refine ⟨fun a ha => (hquiet a ha).1, fun a ha => (hquiet a ha).2, hone, ?_⟩
  refine (startsReading_sum tr).trans ((Finset.sum_le_card_nsmul _ _ 1 fun r _ => hone r).trans ?_)
  simp

/-- Two readers are through the turnstile when the writer takes `turn`, and overtake it. -/
theorem overtaking_twice : ∃ (s₁ s₂ : State 3 3) (tr : List (Label 3 3)),
    (readWriter 3 3).Reachable (init 3 3) s₁ ∧ (readWriter 3 3).Run (Waiting 1) s₁ tr s₂ ∧
    tr.countP startsReading = 2 ∧ (∀ a ∈ tr, passes a = false) ∧ (∀ a ∈ tr, writes a = false) ∧
    (∀ r, tr.countP (startedBy r) ≤ 1) ∧ tr.countP startsReading ≤ 3 := by
  have hrun : ∃ tr₁ s₁, (readWriter 3 3).Run Any (init 3 3) tr₁ s₁ ∧
      (((readWriter 3 3).play (Waiting 1) (burst (.reader 0) 6 ++ burst (.reader 1) 5) [] s₁).any
        fun r => r.1.countP startsReading = 2) = true := by
    refine run_of_check (burst (.reader 0) 2 ++ burst (.reader 1) 2 ++ burst (.writer 1) 1) ?_
    decide +kernel
  obtain ⟨tr₁, s₁, h₁, hplay⟩ := hrun
  obtain ⟨tr, s₂, h₂, hc⟩ := run_of_check (Q := fun tr _ => tr.countP startsReading = 2) _ hplay
  exact ⟨s₁, s₂, tr, h₁.reachable, h₂, hc, overtaking_bounded h₁.reachable h₂⟩

end ReadWriter
