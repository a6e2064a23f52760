import SistemasOperativos.ReadWriter.Exclusion

/-!
# Readers and writers do not stop

Whoever waits for `empty` with a lock waits for a thread that waits for nothing, or for a
reader that the counter rules out.
-/
namespace ReadWriter

open Threads Threads.Program

variable {readers writers : ℕ} {s : State readers writers} {t : Tid readers writers}
variable {r : Fin readers} {w : Fin writers} {σ : Sem → ℕ}

theorem reader_blocked {l : ReaderPc} (h : ¬ (code (.reader r : Tid readers writers) l).Enabled σ) :
    (l = .waitTurn ∧ σ .turn = 0) ∨
      ((l = .waitMutexIn ∨ l = .waitMutexOut) ∧ σ .mutex = 0) ∨
      (l = .waitEmpty ∧ σ .empty = 0) := by
  cases l with
  | waitTurn => exact .inl ⟨rfl, Nat.eq_zero_of_not_pos h⟩
  | waitMutexIn => exact .inr (.inl ⟨.inl rfl, Nat.eq_zero_of_not_pos h⟩)
  | waitMutexOut => exact .inr (.inl ⟨.inr rfl, Nat.eq_zero_of_not_pos h⟩)
  | waitEmpty => exact .inr (.inr ⟨rfl, Nat.eq_zero_of_not_pos h⟩)
  | _ => exact absurd trivial h

theorem writer_blocked {l : WriterPc} (h : ¬ (code (.writer w : Tid readers writers) l).Enabled σ) :
    (l = .waitTurn ∧ σ .turn = 0) ∨ (l = .waitEmpty ∧ σ .empty = 0) := by
  cases l with
  | waitTurn => exact .inl ⟨rfl, Nat.eq_zero_of_not_pos h⟩
  | waitEmpty => exact .inr ⟨rfl, Nat.eq_zero_of_not_pos h⟩
  | _ => exact absurd trivial h

/-- Every thread is stopped in a `sem_wait`. -/
def AllBlocked (s : State readers writers) : Prop := ∀ t, ¬ (code t (s.loc t)).Enabled s.sem

theorem holder (h : Inv s) {x : Sem} (hm : Mutex s x) (h0 : s.sem x = 0) :
    ∃ t, x ∈ holds t (s.loc t) := by
  obtain ⟨h1, -⟩ | ⟨-, t, ht, -⟩ := hm
  · cases h0.symm.trans h1
  · rw [h.tracks t] at ht
    exact ⟨t, ht⟩

/-- A stopped thread with `mutex` is a first reader at `empty`. -/
theorem mutex_holder (hb : AllBlocked s) (ht : .mutex ∈ holds t (s.loc t)) :
    ∃ r, s.loc (.reader r) = .waitEmpty ∧ s.sem .empty = 0 := by
  cases t with
  | reader r =>
    obtain ⟨hl, -⟩ | ⟨hl | hl, -⟩ | ⟨hl, h0⟩ := reader_blocked (hb (.reader r))
    · rw [hl] at ht
      cases ht
    · rw [hl] at ht
      cases ht
    · rw [hl] at ht
      cases ht
    · exact ⟨r, hl, h0⟩
  | writer w => exact absurd ht (writer_free w _)

/-- Stopped threads do not have `empty`: a first reader that waits for it is alone. -/
theorem empty_free (h : Inv s) (hb : AllBlocked s) : s.sem .empty ≠ 0 := by
  intro h0
  have hempty := h.empty
  by_cases hg : Grouped s
  · obtain ⟨r, hr⟩ := hg
    obtain ⟨hl, -⟩ | ⟨hl | hl, hm0⟩ | ⟨hl, -⟩ := reader_blocked (hb (.reader r))
    · rw [hl] at hr
      cases hr
    · rw [hl] at hr
      cases hr
    · obtain ⟨t, ht⟩ := holder h h.mutex hm0
      obtain ⟨r', hl', -⟩ := mutex_holder hb ht
      -- both are counted, but the first reader has counted one
      have hone : s.glob.noReaders = 1 := by
        have hok := h.ok r'
        rwa [hl'] at hok
      have hcount := h.count
      have hc : counted s r = true := congrArg ReaderPc.counted hl
      have hc' : counted s r' = true := congrArg ReaderPc.counted hl'
      obtain rfl := census_unique (by omega) hc hc'
      cases hl.symm.trans hl'
    · rw [hl] at hr
      cases hr
  · rw [if_neg hg] at hempty
    obtain ⟨w, hw⟩ := exists_of_census (p := inside s) (by omega)
    have hin : (s.loc (.writer w)).inside = true := hw
    obtain ⟨hl, -⟩ | ⟨hl, -⟩ := writer_blocked (hb (.writer w))
    · rw [hl] at hin
      cases hin
    · rw [hl] at hin
      cases hin

theorem mutex_free (h : Inv s) (hb : AllBlocked s) : s.sem .mutex ≠ 0 := by
  intro h0
  obtain ⟨t, ht⟩ := holder h h.mutex h0
  obtain ⟨r, -, he⟩ := mutex_holder hb ht
  exact empty_free h hb he

theorem turn_free (h : Inv s) (hb : AllBlocked s) : s.sem .turn ≠ 0 := by
  intro h0
  obtain ⟨t, ht⟩ := holder h h.turn h0
  cases t with
  | reader r =>
    have hl := reader_blocked (hb (.reader r))
    generalize s.loc (.reader r) = l at hl ht
    cases l with
    | postTurn => simp at hl
    | _ => simp [holds, ReaderPc.holds] at ht
  | writer w =>
    obtain ⟨hl, -⟩ | ⟨-, he⟩ := writer_blocked (hb (.writer w))
    · rw [hl] at ht
      cases ht
    · exact empty_free h hb he

/-- With at least one thread, some thread can always take its next step. -/
theorem some_thread_steps (hn : 0 < readers + writers)
    (h : (readWriter readers writers).Reachable (init readers writers) s) :
    ∃ t s', (readWriter readers writers).Step s (.exec t (s.loc t) true) s' := by
  have hi := inv_reachable h
  by_contra hstop
  have hb : AllBlocked s := by
    intro t he
    exact hstop ⟨t, _, hi.alive.exec (P := readWriter readers writers) he true⟩
  have hturn := turn_free hi hb
  have hmutex := mutex_free hi hb
  have hempty := empty_free hi hb
  by_cases hr : 0 < readers
  · obtain ⟨-, h0⟩ | ⟨-, h0⟩ | ⟨-, h0⟩ := reader_blocked (hb (.reader ⟨0, hr⟩))
    · exact hturn h0
    · exact hmutex h0
    · exact hempty h0
  · obtain ⟨-, h0⟩ | ⟨-, h0⟩ := writer_blocked (hb (.writer ⟨0, by omega⟩))
    · exact hturn h0
    · exact hempty h0

/-- A writer waits for `empty` with `turn`, a reader for `turn`, and a reader goes on. -/
theorem some_thread_steps_once : ∃ s : State 3 1, (readWriter 3 1).Reachable (init 3 1) s ∧
    s.loc (.writer 0) = .waitEmpty ∧ s.sem .empty = 0 ∧ s.sem .turn = 0 ∧
    ∃ t s', (readWriter 3 1).Step s (.exec t (s.loc t) true) s' := by
  have hrun : ∃ tr s, (readWriter 3 1).Run Any (init 3 1) tr s ∧
      s.loc (.writer 0) = .waitEmpty ∧ s.sem .empty = 0 ∧ s.sem .turn = 0 := by
    refine run_of_check (burst (.reader 0) 7 ++ burst (.writer 0) 1) ?_
    decide +kernel
  obtain ⟨tr, s, h, hl, he, ht⟩ := hrun
  exact ⟨s, h.reachable, hl, he, ht, some_thread_steps (by decide) h.reachable⟩

end ReadWriter
