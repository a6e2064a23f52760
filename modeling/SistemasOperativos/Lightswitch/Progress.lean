import SistemasOperativos.Lightswitch.Exclusion
import SistemasOperativos.Threads.Rank

/-!
# What stops the lightswitches

A writer passes `noReaders` to `lock` by value. If a reader has it at that moment the copy is
0, and nobody ever posts a copy that another call waits for: the first writer stays there
with `mutex`, and soon nobody else moves. Nothing else stops the program.
-/
namespace Lightswitch

open Threads Threads.Program

variable {readers writers : ℕ} {s s' : State readers writers} {a : Label readers writers}
variable {t u : Tid readers writers} {r : Fin readers} {w : Fin writers} {ok : Bool} {i : ℕ}
variable {tr : List (Label readers writers)} {σ : Sem readers writers → ℕ}
variable {C D : State readers writers → Label readers writers → Prop}

/-- The writer waits for a copy that is 0. -/
def Stuck (s : State readers writers) (w : Fin writers) : Prop :=
  (∃ i, s.loc (.writer w) = .lock i .waitSemaphore) ∧ s.sem (.semaphore (.writer w)) = 0

/-! ## What holds in every run -/

/-- The parameter of the call is set, and not taken yet. -/
def LockPc.passed : LockPc → Bool
  | .waitMutex | .load | .store _ | .waitSemaphore => true
  | _ => false

def atEnd : (t : Tid readers writers) → Loc t → Bool
  | .reader _, .finished => true
  | .writer _, .finished => true
  | _, _ => false

structure Sound (s : State readers writers) : Prop where
  untouched : Untouched s
  tracks : Tracks discipline s
  mutex : ∀ x, x.lock = true → Mutex s x
  copies : ∀ r i p, s.loc (.reader r) = .lock i p → p.passed = true →
    s.sem (.semaphore (.reader r)) = 1
  ended : s.ended = false
  life : ∀ t, s.life t = .running ∨ s.life t = .finished ∧ atEnd t (s.loc t) = true

theorem noWriters_free (l : Loc t) : .noWriters ∉ holds t l := by
  cases t with
  | reader r =>
    cases l with
    | lock i p => cases p <;> simp [holds, ReaderPc.holds, LockPc.holds]
    | unlock i p => cases p <;> simp [holds, ReaderPc.holds, UnlockPc.holds]
    | _ => simp [holds, ReaderPc.holds]
  | writer w =>
    cases l with
    | lock i p => cases p <;> simp [holds, WriterPc.holds, LockPc.holds]
    | unlock i p => cases p <;> simp [holds, WriterPc.holds, UnlockPc.holds]
    | _ => simp [holds, WriterPc.holds]

theorem Sound.noWriters (h : Sound s) : s.sem .noWriters = 1 := by
  obtain ⟨h1, -⟩ | ⟨-, t, ht, -⟩ := h.mutex .noWriters rfl
  · exact h1
  · exact absurd (h.tracks t ▸ ht) (noWriters_free _)

/-- A parameter belongs to its thread. -/
theorem sems_parameter (hu : u ≠ t) (l : Loc t) :
    (code t l).sems σ (.semaphore u) = σ (.semaphore u) := by
  have hne : (.semaphore u : Sem readers writers) ≠ .semaphore t := fun h => hu (by cases h; rfl)
  cases t with
  | reader r =>
    cases l with
    | lock i p => cases p <;> simp [code, readR, lock, Op.sems, hne]
    | unlock i p => cases p <;> simp [code, readR, unlock, Op.sems, hne]
    | _ => simp [code, readR, Op.sems]
  | writer w =>
    cases l with
    | lock i p => cases p <;> simp [code, writeR, lock, Op.sems, hne]
    | unlock i p => cases p <;> simp [code, writeR, unlock, Op.sems, hne]
    | _ => simp [code, writeR, Op.sems]

theorem copies_exec (h : Sound s) (r : Fin readers) (i : ℕ) (p : LockPc)
    (hl : ((lightswitches readers writers).effect s t ok).loc (.reader r) = .lock i p)
    (hp : p.passed = true) :
    ((lightswitches readers writers).effect s t ok).sem (.semaphore (.reader r)) = 1 := by
  have hop : (lightswitches readers writers).op s t = code t (s.loc t) := rfl
  rw [effect_sem, hop]
  by_cases ht : .reader r = t
  · subst ht
    rw [effect_loc_self, hop] at hl
    have hw := h.noWriters
    have hc := h.copies r
    generalize s.loc (.reader r) = l at hl hc
    cases l with
    | head j =>
      simp only [code, readR, Op.dest] at hl
      split at hl <;> cases hl
    | waitReaders j =>
      obtain ⟨rfl, rfl⟩ := ReaderPc.lock.inj hl
      cases hp
    | lock j q =>
      cases q with
      | pass => simpa [code, readR, lock, Op.sems] using hw
      | waitMutex | load => exact hc j _ rfl rfl
      | store v => exact hc j _ rfl rfl
      | waitSemaphore =>
        obtain ⟨rfl, rfl⟩ := ReaderPc.lock.inj hl
        cases hp
      | postMutex => cases hl
    | unlock j q =>
      cases q with
      | store v =>
        simp only [code, readR, unlock, Op.dest] at hl
        cases hl
      | _ => cases hl
    | _ => cases hl
  · rw [effect_loc_of_ne ht] at hl
    rw [sems_parameter ht]
    exact h.copies r i p hl hp

/-- Nobody creates threads or ends the process, and a thread returns at its end. -/
theorem code_ends (l : Loc t) (g : Shared) : (code t l).creates g = none ∧
    (code t l).isExit = false ∧ ((code t l).isRet = true → atEnd t l = true) := by
  cases t with
  | reader r =>
    cases l with
    | lock i p => cases p <;> exact ⟨rfl, rfl, fun h => by cases h⟩
    | unlock i p => cases p <;> exact ⟨rfl, rfl, fun h => by cases h⟩
    | finished => exact ⟨rfl, rfl, fun _ => rfl⟩
    | _ => exact ⟨rfl, rfl, fun h => by cases h⟩
  | writer w =>
    cases l with
    | lock i p => cases p <;> exact ⟨rfl, rfl, fun h => by cases h⟩
    | unlock i p => cases p <;> exact ⟨rfl, rfl, fun h => by cases h⟩
    | finished => exact ⟨rfl, rfl, fun _ => rfl⟩
    | _ => exact ⟨rfl, rfl, fun h => by cases h⟩

theorem dest_of_isRet {S G M T K : Type} {o : Op S G M T K} (h : o.isRet = true) (l : K) (g : G)
    (ok : Bool) : o.dest l g ok = l := by
  cases o <;> first
    | rfl
    | cases h

theorem life_exec (h : Sound s) (hr : s.Running t) (u : Tid readers writers) :
    ((lightswitches readers writers).effect s t ok).life u = .running ∨
      ((lightswitches readers writers).effect s t ok).life u = .finished ∧
        atEnd u (((lightswitches readers writers).effect s t ok).loc u) = true := by
  have hop : (lightswitches readers writers).op s t = code t (s.loc t) := rfl
  obtain ⟨hcreate, -, hend⟩ := code_ends (s.loc t) s.glob
  by_cases hu : u = t
  · subst hu
    rw [effect_life_self, effect_loc_self, hop, hcreate, if_neg (by nofun)]
    split
    · rename_i hret
      rw [dest_of_isRet hret]
      exact .inr ⟨rfl, hend hret⟩
    · exact .inl hr.2
  · rw [effect_life_of_ne hu, effect_loc_of_ne hu, hop, hcreate, if_neg (by nofun)]
    exact h.life u

theorem sound_init : Sound (init readers writers) where
  untouched := ⟨fun _ => rfl, fun _ => rfl⟩
  tracks t := by cases t <;> rfl
  mutex x hx := by
    cases x with
    | semaphore t => cases hx
    | _ => exact .inl ⟨rfl, fun _ => List.not_mem_nil⟩
  copies r i p hl := by cases hl
  ended := rfl
  life t := .inl rfl

theorem sound_step (hs : (lightswitches readers writers).Step s a s') (h : Sound s) : Sound s' := by
  have hmutex : ∀ x, x.lock = true → Mutex s' x := fun x hx =>
    mutex_step discipline h.tracks hs hx (code_no_copy hx) (h.mutex x hx)
  have htracks := tracks_step discipline hs h.tracks
  obtain ⟨t, ok, rfl, rfl, hr, -⟩ := h.untouched.step (fun _ _ => rfl) hs
  obtain ⟨hcancel, hcont, -⟩ := code_local (s.loc t) s.glob
  refine ⟨h.untouched.effect hcancel hcont, htracks, hmutex, copies_exec h, ?_, life_exec h hr⟩
  have hexit : ((lightswitches readers writers).op s t).isExit = false :=
    (code_ends (s.loc t) s.glob).2.1
  show (s.ended || ((lightswitches readers writers).op s t).isExit) = false
  rw [h.ended, hexit]
  rfl

theorem sound (h : (lightswitches readers writers).Run C (init readers writers) tr s) : Sound s :=
  h.invariant sound_init fun _ _ _ hi hs _ => sound_step hs hi

/-! ## Who can be stopped -/

section calls
variable {L : Type} {self : Switch} {arg : Sem readers writers} {k : L}

theorem lock_blocked {pc : LockPc → L} {p : LockPc} (h : ¬ (lock self arg t pc k p).Enabled σ) :
    p = .waitMutex ∧ σ .mutex = 0 ∨ p = .waitSemaphore ∧ σ (.semaphore t) = 0 := by
  cases p with
  | waitMutex => exact .inl ⟨rfl, Nat.eq_zero_of_not_pos h⟩
  | waitSemaphore => exact .inr ⟨rfl, Nat.eq_zero_of_not_pos h⟩
  | _ => exact absurd trivial h

theorem unlock_blocked {pc : UnlockPc → L} {p : UnlockPc}
    (h : ¬ (unlock self arg t pc k p).Enabled σ) : p = .waitMutex ∧ σ .mutex = 0 := by
  cases p with
  | waitMutex => exact ⟨rfl, Nat.eq_zero_of_not_pos h⟩
  | _ => exact absurd trivial h

end calls

theorem reader_blocked {l : ReaderPc} (h : ¬ (code (.reader r : Tid readers writers) l).Enabled σ) :
    ((∃ i, l = .waitReaders i) ∧ σ .noReaders = 0) ∨
      ((∃ i, l = .lock i .waitMutex ∨ l = .unlock i .waitMutex) ∧ σ .mutex = 0) ∨
      ((∃ i, l = .lock i .waitSemaphore) ∧ σ (.semaphore (.reader r)) = 0) := by
  cases l with
  | waitReaders i => exact .inl ⟨⟨i, rfl⟩, Nat.eq_zero_of_not_pos h⟩
  | lock i p =>
    obtain ⟨rfl, h0⟩ | ⟨rfl, h0⟩ := lock_blocked h
    · exact .inr (.inl ⟨⟨i, .inl rfl⟩, h0⟩)
    · exact .inr (.inr ⟨⟨i, rfl⟩, h0⟩)
  | unlock i p =>
    obtain ⟨rfl, h0⟩ := unlock_blocked h
    exact .inr (.inl ⟨⟨i, .inr rfl⟩, h0⟩)
  | _ => exact absurd trivial h

theorem writer_blocked {l : WriterPc} (h : ¬ (code (.writer w : Tid readers writers) l).Enabled σ) :
    ((∃ i, l = .waitWriters i) ∧ σ .argNoWriters = 0) ∨
      ((∃ i, l = .lock i .waitMutex ∨ l = .unlock i .waitMutex) ∧ σ .mutex = 0) ∨
      ((∃ i, l = .lock i .waitSemaphore) ∧ σ (.semaphore (.writer w)) = 0) := by
  cases l with
  | waitWriters i => exact .inl ⟨⟨i, rfl⟩, Nat.eq_zero_of_not_pos h⟩
  | lock i p =>
    obtain ⟨rfl, h0⟩ | ⟨rfl, h0⟩ := lock_blocked h
    · exact .inr (.inl ⟨⟨i, .inl rfl⟩, h0⟩)
    · exact .inr (.inr ⟨⟨i, rfl⟩, h0⟩)
  | unlock i p =>
    obtain ⟨rfl, h0⟩ := unlock_blocked h
    exact .inr (.inl ⟨⟨i, .inr rfl⟩, h0⟩)
  | _ => exact absurd trivial h

/-- Whoever has not returned is stopped in a `sem_wait`. -/
def AllBlocked (s : State readers writers) : Prop :=
  ∀ t, s.life t = .running → ¬ (code t (s.loc t)).Enabled s.sem

theorem not_held_at_end {x : Sem readers writers} {l : Loc t} (h : atEnd t l = true) :
    x ∉ holds t l := by
  cases t <;> cases l <;> first
    | exact List.not_mem_nil
    | cases h

/-- A lock that is taken is with a thread that has not returned. -/
theorem holder (h : Sound s) {x : Sem readers writers} (hx : x.lock = true) (h0 : s.sem x = 0) :
    ∃ t, x ∈ holds t (s.loc t) ∧ s.life t = .running := by
  obtain ⟨h1, -⟩ | ⟨-, t, ht, -⟩ := h.mutex x hx
  · cases h0.symm.trans h1
  · rw [h.tracks t] at ht
    obtain hl | ⟨-, hend⟩ := h.life t
    · exact ⟨t, ht, hl⟩
    · exact absurd ht (not_held_at_end hend)

theorem reader_copy (h : Sound s) (hl : s.loc (.reader r) = .lock i .waitSemaphore) :
    s.sem (.semaphore (.reader r)) = 1 :=
  h.copies r i _ hl rfl

/-- If all are stopped, the one with `mutex` is a stuck writer. -/
theorem mutex_holder (h : Sound s) (hb : AllBlocked s) (h0 : s.sem .mutex = 0) :
    ∃ w, Stuck s w := by
  obtain ⟨t, ht, hl⟩ := holder h rfl h0
  cases t with
  | reader r =>
    obtain ⟨⟨i, hr⟩, -⟩ | ⟨⟨i, hr | hr⟩, -⟩ | ⟨⟨i, hr⟩, hcopy⟩ := reader_blocked (hb _ hl)
    · rw [hr] at ht
      cases ht
    · rw [hr] at ht
      simp [holds, ReaderPc.holds, LockPc.holds] at ht
    · rw [hr] at ht
      cases ht
    · cases hcopy.symm.trans (reader_copy h hr)
  | writer w =>
    obtain ⟨⟨i, hr⟩, -⟩ | ⟨⟨i, hr | hr⟩, -⟩ | ⟨hi, hcopy⟩ := writer_blocked (hb _ hl)
    · rw [hr] at ht
      cases ht
    · rw [hr] at ht
      cases ht
    · rw [hr] at ht
      cases ht
    · exact ⟨w, hi, hcopy⟩

theorem reader_stopped (h : Sound s) (hb : AllBlocked s) (hl : s.life (.reader r) = .running) :
    ∃ w, Stuck s w := by
  obtain ⟨-, h0⟩ | ⟨-, h0⟩ | ⟨⟨i, hr⟩, h0⟩ := reader_blocked (hb _ hl)
  · -- the one with `noReaders` is in its call of `lock`
    obtain ⟨t, ht, hl⟩ := holder h rfl h0
    cases t with
    | reader r' =>
      obtain ⟨⟨i, hr⟩, -⟩ | ⟨-, h0⟩ | ⟨⟨i, hr⟩, hcopy⟩ := reader_blocked (hb _ hl)
      · rw [hr] at ht
        cases ht
      · exact mutex_holder h hb h0
      · cases hcopy.symm.trans (reader_copy h hr)
    | writer w =>
      generalize s.loc (.writer w) = l at ht
      cases l with
      | lock i p => cases p <;> simp [holds, WriterPc.holds, LockPc.holds] at ht
      | unlock i p => cases p <;> simp [holds, WriterPc.holds, UnlockPc.holds] at ht
      | _ => simp [holds, WriterPc.holds] at ht
  · exact mutex_holder h hb h0
  · cases h0.symm.trans (reader_copy h hr)

theorem writer_stopped (h : Sound s) (hb : AllBlocked s) (hl : s.life (.writer w) = .running) :
    ∃ w, Stuck s w := by
  obtain ⟨-, h0⟩ | ⟨-, h0⟩ | ⟨hi, hcopy⟩ := writer_blocked (hb _ hl)
  · obtain ⟨t, ht, hl⟩ := holder h rfl h0
    have hstop := hb t hl
    cases t with
    | reader r =>
      generalize s.loc (.reader r) = l at ht
      cases l with
      | lock i p => cases p <;> simp [holds, ReaderPc.holds, LockPc.holds] at ht
      | unlock i p => cases p <;> simp [holds, ReaderPc.holds, UnlockPc.holds] at ht
      | _ => simp [holds, ReaderPc.holds] at ht
    | writer w' =>
      obtain ⟨⟨i, hr⟩, -⟩ | ⟨⟨i, hr | hr⟩, -⟩ | ⟨⟨i, hr⟩, -⟩ := writer_blocked hstop
      · rw [hr] at ht
        cases ht
      · rw [hr] at ht
        cases ht
      · rw [hr] at ht
        cases ht
      · rw [hr] at ht
        simp [holds, WriterPc.holds, LockPc.holds] at ht
  · exact mutex_holder h hb h0
  · exact ⟨w, hi, hcopy⟩

/-- Some thread can take its next step, or all have returned, or a writer waits for a copy
of `noReaders` that was 0 when it was made. -/
theorem goes_on_unless_stuck
    (h : (lightswitches readers writers).Reachable (init readers writers) s) :
    (∃ t s', (lightswitches readers writers).Step s (.exec t (s.loc t) true) s') ∨
      (∀ t, s.life t = .finished) ∨ ∃ w, Stuck s w := by
  obtain ⟨tr, hrun⟩ := h
  have hi := sound hrun
  by_contra hn
  push Not at hn
  obtain ⟨hstop, ⟨t, ht⟩, hstuck⟩ := hn
  have hb : AllBlocked s := by
    intro u hu he
    exact hstop u _ (.exec true ⟨hi.ended, hu⟩ (fun _ => hi.untouched.cancelled u) he)
  have hl : s.life t = .running := (hi.life t).resolve_right fun hf => ht hf.1
  obtain ⟨w, hw⟩ : ∃ w, Stuck s w := by
    cases t with
    | reader r => exact reader_stopped hi hb hl
    | writer w => exact writer_stopped hi hb hl
  exact hstuck w hw

/-- The first reader has `noReaders`, the writer its copy, and both wait for ever. -/
theorem stuck_in_the_first_round : ∃ s : State 1 1, (lightswitches 1 1).Reachable (init 1 1) s ∧
    s.loc (.reader 0) = .lock 0 .waitMutex ∧ s.sem .mutex = 0 ∧ Stuck s 0 ∧
    ((∃ t s', (lightswitches 1 1).Step s (.exec t (s.loc t) true) s') ∨
      (∀ t, s.life t = .finished) ∨ ∃ w, Stuck s w) := by
  have hrun : ∃ tr s, (lightswitches 1 1).Run Any (init 1 1) tr s ∧
      s.loc (.reader 0) = .lock 0 .waitMutex ∧ s.sem .mutex = 0 ∧
      s.loc (.writer 0) = .lock 0 .waitSemaphore ∧ s.sem (.semaphore (.writer 0)) = 0 := by
    refine run_of_check (burst (.reader 0) 2 ++ burst (.writer 0) 5 ++ burst (.reader 0) 1) ?_
    decide +kernel
  obtain ⟨tr, s, h, hr, hm, hw, hc⟩ := hrun
  exact ⟨s, h.reachable, hr, hm, ⟨⟨0, hw⟩, hc⟩, goes_on_unless_stuck h.reachable⟩

/-! ## What a stuck writer leaves to the others -/

theorem stuck_step (hs : (lightswitches readers writers).Step s a s') (h : Sound s)
    (hw : Stuck s w) : Stuck s' w := by
  obtain ⟨t, ok, rfl, rfl, -, he⟩ := h.untouched.step (fun _ _ => rfl) hs
  obtain ⟨⟨i, hl⟩, h0⟩ := hw
  have hop : (lightswitches readers writers).op s t = code t (s.loc t) := rfl
  have hne : .writer w ≠ t := by
    rintro rfl
    rw [hop, hl] at he
    exact absurd he (by simp [code, writeR, lock, Op.Enabled, h0])
  refine ⟨⟨i, ?_⟩, ?_⟩
  · rw [effect_loc_of_ne hne, hl]
  · rw [effect_sem, hop, sems_parameter hne, h0]

/-- The way to the next wait for `mutex`. -/
def ReaderPc.rank : ReaderPc → ℕ
  | .head _ => 3
  | .waitReaders _ => 2
  | .lock _ .pass => 1
  | .lock _ _ => 0
  | .postReaders _ => 4
  | .loadValidation _ => 3
  | .storeValidation _ _ => 2
  | .unlock _ .pass => 1
  | .unlock _ _ => 0
  | .finished => 0

def WriterPc.rank : WriterPc → ℕ
  | .head _ => 2
  | .lock _ .pass => 1
  | .lock _ _ => 0
  | .waitWriters _ => 4
  | .write _ => 3
  | .postWriters _ => 2
  | .unlock _ .pass => 1
  | .unlock _ _ => 0
  | .finished => 0

def rank : (t : Tid readers writers) → Loc t → ℕ
  | .reader _ => ReaderPc.rank
  | .writer _ => WriterPc.rank

theorem rank_le (t : Tid readers writers) (l : Loc t) : rank t l ≤ 4 := by
  cases t with
  | reader r =>
    cases l with
    | lock i p | unlock i p => cases p <;> simp [rank, ReaderPc.rank]
    | _ => simp [rank, ReaderPc.rank]
  | writer w =>
    cases l with
    | lock i p | unlock i p => cases p <;> simp [rank, WriterPc.rank]
    | _ => simp [rank, WriterPc.rank]

/-- A thread that neither has `mutex` nor gets it is on its way to a wait for it. -/
theorem rank_dest {l : Loc t} {g : Shared} (hm : .mutex ∉ holds t l)
    (he : (code t l).Enabled σ) (h0 : σ .mutex = 0) (hr : (code t l).isRet = false) :
    rank t ((code t l).dest l g ok) < rank t l := by
  cases t with
  | reader r =>
    cases l with
    | head i =>
      simp only [code, readR, Op.dest]
      split <;> simp [rank, ReaderPc.rank]
    | lock i p =>
      cases p with
      | pass => exact Nat.zero_lt_one
      | waitMutex => exact absurd h0 (Nat.ne_of_gt he)
      | _ => exact absurd List.mem_cons_self hm
    | unlock i p =>
      cases p with
      | pass => exact Nat.zero_lt_one
      | waitMutex => exact absurd h0 (Nat.ne_of_gt he)
      | _ => exact absurd List.mem_cons_self hm
    | finished => cases hr
    | _ => simp [code, readR, Op.dest, rank, ReaderPc.rank]
  | writer w =>
    cases l with
    | head i =>
      simp only [code, writeR, Op.dest]
      split <;> simp [rank, WriterPc.rank]
    | lock i p =>
      cases p with
      | pass => exact Nat.zero_lt_one
      | waitMutex => exact absurd h0 (Nat.ne_of_gt he)
      | _ => exact absurd List.mem_cons_self hm
    | unlock i p =>
      cases p with
      | pass => exact Nat.zero_lt_one
      | waitMutex => exact absurd h0 (Nat.ne_of_gt he)
      | _ => exact absurd List.mem_cons_self hm
    | finished => cases hr
    | _ => simp [code, writeR, Op.dest, rank, WriterPc.rank]

theorem rank_step (h : Sound s) (hw : Stuck s w)
    (he : ((lightswitches readers writers).op s t).Enabled s.sem)
    (hr : ((lightswitches readers writers).op s t).isRet = false) :
    rank t (((lightswitches readers writers).op s t).dest (s.loc t) s.glob ok) < rank t (s.loc t) := by
  obtain ⟨⟨i, hl⟩, h0⟩ := hw
  have hmem : .mutex ∈ s.held (.writer w) := by
    rw [h.tracks, hl]
    exact List.mem_cons_self
  have hmutex : s.sem .mutex = 0 := by
    obtain ⟨-, hn⟩ | ⟨h0, -⟩ := h.mutex .mutex rfl
    · exact absurd hmem (hn _)
    · exact h0
  refine rank_dest (fun hm => ?_) he hmutex hr
  -- the only thread with `mutex` is the one that is stuck
  have hheld : .mutex ∈ s.held t := by
    rw [h.tracks]
    exact hm
  obtain rfl := (h.mutex .mutex rfl).unique hheld hmem
  have hop : (lightswitches readers writers).op s (.writer w) = code (.writer w) (s.loc (.writer w)) := rfl
  rw [hop, hl] at he
  exact absurd he (by simp [code, writeR, lock, Op.Enabled, h0])

theorem not_interruptible (l : Loc t) : (code t l).interruptible = false := by
  cases t with
  | reader r =>
    cases l with
    | lock i p | unlock i p => cases p <;> rfl
    | _ => rfl
  | writer w =>
    cases l with
    | lock i p | unlock i p => cases p <;> rfl
    | _ => rfl

theorem stuck_ranks (w : Fin writers) (t : Tid readers writers) :
    Ranks (lightswitches readers writers) (fun s => Sound s ∧ Stuck s w) t (rank t)
      ((lightswitches readers writers).goesOn t) := by
  refine goesOn_ranks (fun s ok hi he hr _ => ?_) fun _ _ h => by cases h
  obtain he | he := he
  · exact rank_step hi.1 hi.2 he hr
  · cases (not_interruptible (s.loc t)).symm.trans he

/-- A stuck writer stays, and nobody else gets past a `sem_wait(&mutex)` again: every thread
has at most four steps left before its last one. -/
theorem stuck_for_ever (h : (lightswitches readers writers).Run C (init readers writers) tr s)
    (hw : Stuck s w) {tr' : List (Label readers writers)}
    (h' : (lightswitches readers writers).Run D s tr' s') :
    Stuck s' w ∧ ∀ t, tr'.countP ((lightswitches readers writers).goesOn t) ≤ 4 := by
  have hI : ∀ tr' s', (lightswitches readers writers).Run D s tr' s' → Sound s' ∧ Stuck s' w := by
    intro tr' s' hr
    refine hr.invariant (I := fun s => Sound s ∧ Stuck s w) ⟨sound h, hw⟩ ?_
    intro s a s' hi hs _
    exact ⟨sound_step hs hi.1, stuck_step hs hi.1 hi.2⟩
  refine ⟨(hI tr' s' h').2, fun t => ?_⟩
  have hb := (stuck_ranks w t).bound h' hI
  have hle := rank_le t (s.loc t)
  omega

/-- With three readers: the two others come to `noReaders`, the first to `mutex`. -/
theorem stuck_with_readers : ∃ tr s tr' s', (lightswitches 3 1).Run Any (init 3 1) tr s ∧
    Stuck s (0 : Fin 1) ∧ (lightswitches 3 1).Run Any s tr' s' ∧ tr'.length = 3 ∧ Stuck s' (0 : Fin 1) ∧
    ∀ t, tr'.countP ((lightswitches 3 1).goesOn t) ≤ 4 := by
  have hrun : ∃ tr s, (lightswitches 3 1).Run Any (init 3 1) tr s ∧
      s.loc (.writer 0) = .lock 0 .waitSemaphore ∧ s.sem (.semaphore (.writer 0)) = 0 ∧
      (((lightswitches 3 1).play Any (burst (.reader 0) 1 ++ burst (.reader 1) 1 ++
        burst (.reader 2) 1) [] s).any fun r => r.1.length = 3) = true := by
    refine run_of_check (burst (.reader 0) 2 ++ burst (.writer 0) 5) ?_
    decide +kernel
  obtain ⟨tr, s, h, hl, h0, hplay⟩ := hrun
  obtain ⟨tr', s', h', hn⟩ := run_of_check (Q := fun tr _ => tr.length = 3) _ hplay
  have hw : Stuck s (0 : Fin 1) := ⟨⟨0, hl⟩, h0⟩
  exact ⟨tr, s, tr', s', h, hw, h', hn, stuck_for_ever h hw h'⟩

end Lightswitch
