import SistemasOperativos.Lightswitch.Code
import SistemasOperativos.Threads.Locks
import SistemasOperativos.Threads.Plain

/-!
# What the lightswitches exclude

The readers take a copy of `noWriters` and the writers another, so that neither keeps the
other out. The exclusion holds as long as the copies are used as if they were one.
-/
namespace Lightswitch

open Threads Threads.Program

variable {readers writers : ℕ} {s s' : State readers writers} {a : Label readers writers}
variable {t : Tid readers writers} {r : Fin readers} {w : Fin writers} {ok : Bool} {c : Int}
variable {g : Shared} {tr : List (Label readers writers)}

/-! ## Places -/

/-- Between `readS.lock` and `readS.unlock`. -/
def ReaderPc.reading : ReaderPc → Bool
  | .postReaders _ | .loadValidation _ | .storeValidation _ _ | .unlock _ .pass => true
  | _ => false

/-- Between `sem_wait(&data->noWriters)` and its post. -/
def WriterPc.writing : WriterPc → Bool
  | .write _ | .postWriters _ => true
  | _ => false

/-- Between the increment of `readS.counter` and its decrement. -/
def ReaderPc.counted : ReaderPc → Bool
  | .lock _ .waitSemaphore | .lock _ .postMutex => true
  | .postReaders _ | .loadValidation _ | .storeValidation _ _ => true
  | .unlock _ .pass | .unlock _ .waitMutex | .unlock _ .load | .unlock _ (.store _) => true
  | _ => false

/-- Counted, and past the `sem_wait` in `lock`. -/
def ReaderPc.settled : ReaderPc → Bool
  | .lock _ .waitSemaphore => false
  | l => l.counted

/-- What a reader with `mutex` knows of the counter. -/
def ReaderPc.Ok (c : Int) : ReaderPc → Prop
  | .lock _ (.store v) => v = c + 1
  | .unlock _ (.store v) => v = c - 1
  | _ => True

def Exclusive (s : State readers writers) : Prop :=
  ∀ r w, (s.loc (.writer w)).writing = true → (s.loc (.reader r)).reading = false

/-- A reader takes its copy of `noWriters` while no writer has `data->noWriters`, and a
writer takes `data->noWriters` while `readS.counter` is 0. -/
def AsOne (s : State readers writers) : Label readers writers → Prop
  | .exec (.reader _) (.lock _ .waitSemaphore) _ => s.sem .argNoWriters ≠ 0
  | .exec (.writer _) (.waitWriters _) _ => s.glob.counter .readS = 0
  | _ => True

instance (s : State readers writers) (a : Label readers writers) : Decidable (AsOne s a) := by
  unfold AsOne
  split <;> infer_instance

/-! ## The locks -/

def LockPc.holds : LockPc → List (Sem readers writers)
  | .load | .store _ | .waitSemaphore | .postMutex => [.mutex]
  | .pass | .waitMutex => []

def UnlockPc.holds : UnlockPc → List (Sem readers writers)
  | .load | .store _ | .postSemaphore | .postMutex => [.mutex]
  | .pass | .waitMutex => []

def ReaderPc.holds : ReaderPc → List (Sem readers writers)
  | .lock _ p => p.holds ++ [.noReaders]
  | .postReaders _ => [.noReaders]
  | .unlock _ p => p.holds
  | _ => []

def WriterPc.holds : WriterPc → List (Sem readers writers)
  | .lock _ p => p.holds
  | .write _ | .postWriters _ => [.argNoWriters]
  | .unlock _ p => p.holds
  | _ => []

def holds : (t : Tid readers writers) → Loc t → List (Sem readers writers)
  | .reader _ => ReaderPc.holds
  | .writer _ => WriterPc.holds

section Calls
variable {L : Type} {self : Switch} {arg : Sem readers writers} {k : L}

/-- The locks of the call itself, and those it leaves alone. -/
theorem lock_held {pc : LockPc → L} {h : L → List (Sem readers writers)}
    {b : List (Sem readers writers)} (hpc : ∀ q, h (pc q) = q.holds ++ b) (hk : h k = b)
    (p : LockPc) (l : L) (g : Shared) (ok : Bool) :
    h ((lock self arg t pc k p).dest l g ok) = (lock self arg t pc k p).held Sem.lock (p.holds ++ b) := by
  cases p with
  | store v =>
    simp only [lock, Op.dest, Op.held, hpc]
    split <;> rfl
  | postMutex => simp [lock, Op.dest, Op.held, hk, LockPc.holds]
  | _ => exact hpc _

theorem unlock_held {pc : UnlockPc → L} {h : L → List (Sem readers writers)}
    (hpc : ∀ q, h (pc q) = q.holds) (hk : h k = []) (p : UnlockPc) (l : L) (g : Shared)
    (ok : Bool) : h ((unlock self arg t pc k p).dest l g ok) =
      (unlock self arg t pc k p).held Sem.lock p.holds := by
  cases p with
  | store v =>
    simp only [unlock, Op.dest, Op.held, hpc]
    split <;> rfl
  | postMutex => simp [unlock, Op.dest, Op.held, hk, UnlockPc.holds]
  | postSemaphore =>
    have hne : (.mutex : Sem readers writers) ≠ .semaphore t := by
      intro h
      cases h
    simp [unlock, Op.dest, Op.held, hpc, UnlockPc.holds, List.erase_cons_tail, hne]
  | _ => exact hpc _

theorem lock_posts {pc : LockPc → L} {x : Sem readers writers} {p : LockPc} {j : L}
    (h : lock self arg t pc k p = .post x j) : x ∈ p.holds := by
  cases p <;> cases h
  exact List.mem_cons_self

theorem unlock_posts {pc : UnlockPc → L} {x : Sem readers writers} {p : UnlockPc} {j : L}
    (h : unlock self arg t pc k p = .post x j) (hx : x.lock = true) : x ∈ p.holds := by
  cases p <;> cases h
  · cases hx
  · exact List.mem_cons_self

end Calls

theorem LockPc.nodup (p : LockPc) : (p.holds ++ [.noReaders] : List (Sem readers writers)).Nodup := by
  cases p <;> simp [LockPc.holds]

def discipline : Discipline (lightswitches readers writers) where
  holds := holds
  start t := by cases t <;> rfl
  step t l g ok := by
    cases t with
    | reader r =>
      cases l with
      | head i =>
        simp only [lightswitches, code, readR, Op.dest]
        split <;> rfl
      | lock i p =>
        exact lock_held (h := ReaderPc.holds) (b := [.noReaders]) (fun _ => rfl) rfl p _ g ok
      | unlock i p => exact unlock_held (h := ReaderPc.holds) (fun _ => rfl) rfl p _ g ok
      | _ => rfl
    | writer w =>
      cases l with
      | head i =>
        simp only [lightswitches, code, writeR, Op.dest]
        split <;> rfl
      | lock i p =>
        have hnil : ∀ q : LockPc, ((WriterPc.lock i q).holds : List (Sem readers writers)) =
            q.holds ++ [] := fun q => (List.append_nil _).symm
        refine (lock_held (h := WriterPc.holds) (k := .waitWriters i) hnil rfl p _ g ok).trans ?_
        rw [List.append_nil]
        rfl
      | unlock i p => exact unlock_held (h := WriterPc.holds) (fun _ => rfl) rfl p _ g ok
      | _ => rfl
  int t l l' h := by cases h
  posts t l x k h hx := by
    cases t with
    | reader r =>
      cases l with
      | lock i p => exact List.mem_append_left _ (lock_posts h)
      | unlock i p => exact unlock_posts h hx
      | _ => cases h <;> exact List.mem_cons_self
    | writer w =>
      cases l with
      | lock i p => exact lock_posts h
      | unlock i p => exact unlock_posts h hx
      | _ => cases h <;> exact List.mem_cons_self
  nodup t l := by
    cases t with
    | reader r =>
      cases l with
      | lock i p => exact p.nodup
      | unlock i p => cases p <;> simp [holds, ReaderPc.holds, UnlockPc.holds]
      | _ => simp [holds, ReaderPc.holds]
    | writer w =>
      cases l with
      | lock i p => cases p <;> simp [holds, WriterPc.holds, LockPc.holds]
      | unlock i p => cases p <;> simp [holds, WriterPc.holds, UnlockPc.holds]
      | _ => simp [holds, WriterPc.holds]

/-! ## The counter -/

structure Inv (s : State readers writers) : Prop where
  untouched : Untouched s
  tracks : Tracks discipline s
  mutex : Mutex s .mutex
  writers : Mutex s .argNoWriters
  ok : ∀ r, (s.loc (.reader r)).Ok (s.glob.counter .readS)
  count : s.glob.counter .readS = census fun r => (s.loc (.reader r)).counted
  apart : ∀ r w, (s.loc (.reader r)).settled = true → (s.loc (.writer w)).writing = false

/-- The operation cancels, signals and overwrites nothing but a parameter. -/
theorem code_local (l : Loc t) (g : Shared) : (code t l).cancels g = none ∧
    (code t l).signals .cont g = none ∧
      ∀ x y k, code t l = .copy x y k → x = .semaphore t := by
  cases t with
  | reader r =>
    cases l with
    | lock i p => cases p <;> exact ⟨rfl, rfl, fun x y k h => by cases h <;> rfl⟩
    | unlock i p => cases p <;> exact ⟨rfl, rfl, fun x y k h => by cases h <;> rfl⟩
    | _ => exact ⟨rfl, rfl, fun x y k h => by cases h⟩
  | writer w =>
    cases l with
    | lock i p => cases p <;> exact ⟨rfl, rfl, fun x y k h => by cases h <;> rfl⟩
    | unlock i p => cases p <;> exact ⟨rfl, rfl, fun x y k h => by cases h <;> rfl⟩
    | _ => exact ⟨rfl, rfl, fun x y k h => by cases h⟩

theorem code_no_copy {x : Sem readers writers} (hx : x.lock = true) (t : Tid readers writers)
    (l : Loc t) (y : Sem readers writers) (k : Loc t) : code t l ≠ .copy x y k := by
  intro h
  obtain rfl := (code_local l ⟨fun _ => 0, 0⟩).2.2 x y k h
  cases hx

theorem writer_counter (l : WriterPc) (g : Shared) :
    ((code (.writer w : Tid readers writers) l).glob g).counter .readS = g.counter .readS := by
  cases l with
  | lock i p => cases p <;> rfl
  | unlock i p => cases p <;> rfl
  | _ => rfl

/-- Without `mutex` a reader leaves the counter alone and knows nothing of it. -/
theorem reader_free {l : ReaderPc}
    (h : .mutex ∉ holds (.reader r : Tid readers writers) l) (g : Shared) (c : Int) :
    ((code (.reader r : Tid readers writers) l).glob g).counter .readS = g.counter .readS ∧
      l.Ok c ∧ l.settled = l.counted := by
  cases l with
  | lock i p =>
    cases p with
    | pass | waitMutex => exact ⟨rfl, trivial, rfl⟩
    | _ => exact absurd List.mem_cons_self h
  | unlock i p =>
    cases p with
    | pass | waitMutex => exact ⟨rfl, trivial, rfl⟩
    | _ => exact absurd List.mem_cons_self h
  | _ => exact ⟨rfl, trivial, rfl⟩

theorem free_counter {l : Loc t} (h : .mutex ∉ holds t l) (g : Shared) :
    ((code t l).glob g).counter .readS = g.counter .readS := by
  cases t with
  | reader r => exact (reader_free h g 0).1
  | writer w => exact writer_counter l g

theorem reader_ok {l : ReaderPc} (g : Shared) (ok : Bool) :
    ReaderPc.Ok (((code (.reader r : Tid readers writers) l).glob g).counter .readS)
      ((code (.reader r : Tid readers writers) l).dest l g ok) := by
  cases l with
  | head i =>
    simp only [code, readR, Op.dest]
    split <;> trivial
  | lock i p =>
    cases p with
    | load => rfl
    | store v =>
      simp only [code, readR, lock, Op.dest]
      split <;> trivial
    | _ => trivial
  | unlock i p =>
    cases p with
    | load => rfl
    | store v =>
      simp only [code, readR, unlock, Op.dest]
      split <;> trivial
    | _ => trivial
  | _ => trivial

variable (writers) in
theorem reader_count {l : ReaderPc} (h : l.Ok (g.counter .readS)) (ok : Bool) :
    ((code (.reader r : Tid readers writers) l).glob g).counter .readS + l.counted.toNat =
      g.counter .readS + (ReaderPc.counted
        ((code (.reader r : Tid readers writers) l).dest l g ok)).toNat := by
  cases l with
  | head i =>
    simp only [code, readR, Op.dest, Op.glob]
    split <;> rfl
  | lock i p =>
    cases p with
    | store v =>
      obtain rfl : v = g.counter .readS + 1 := h
      simp only [code, readR, lock, Op.dest, Op.glob, setCounter, Function.update_self]
      split <;> exact add_zero _
    | _ => rfl
  | unlock i p =>
    cases p with
    | store v =>
      obtain rfl : v = g.counter .readS - 1 := h
      simp only [code, readR, unlock, Op.dest, Op.glob, setCounter, Function.update_self]
      split <;> exact (Int.sub_add_cancel _ _).trans (add_zero _).symm
    | _ => rfl
  | _ => rfl

/-- A reader settles by its `sem_wait`, or by a counter that others have raised. -/
theorem settled_dest {l : ReaderPc} (h : ReaderPc.settled
    ((code (.reader r : Tid readers writers) l).dest l g ok) = true) :
    l.settled = true ∨ (∃ i, l = .lock i .waitSemaphore) ∨
      ∃ i v, l = .lock i (.store v) ∧ v ≠ 1 := by
  cases l with
  | head i =>
    simp only [code, readR, Op.dest] at h
    split at h <;> cases h
  | lock i p =>
    cases p with
    | waitSemaphore => exact .inr (.inl ⟨i, rfl⟩)
    | store v =>
      by_cases hv : v = 1
      · subst hv
        cases h
      · exact .inr (.inr ⟨i, v, rfl, hv⟩)
    | postMutex => exact .inl rfl
    | _ => cases h
  | unlock i p =>
    cases p with
    | store v =>
      simp only [code, readR, unlock, Op.dest] at h
      split at h <;> cases h
    | pass | waitMutex | load => exact .inl rfl
    | _ => cases h
  | postReaders | loadValidation | storeValidation => exact .inl rfl
  | _ => cases h

theorem writing_dest {l : WriterPc} (h : WriterPc.writing
    ((code (.writer w : Tid readers writers) l).dest l g ok) = true) :
    l.writing = true ∨ ∃ i, l = .waitWriters i := by
  cases l with
  | head i =>
    simp only [code, writeR, Op.dest] at h
    split at h <;> cases h
  | lock i p =>
    cases p with
    | store v =>
      simp only [code, writeR, lock, Op.dest] at h
      cases h
    | _ => cases h
  | unlock i p =>
    cases p with
    | store v =>
      simp only [code, writeR, unlock, Op.dest] at h
      cases h
    | _ => cases h
  | waitWriters i => exact .inr ⟨i, rfl⟩
  | write => exact .inl rfl
  | _ => cases h

/-! ## One step -/

theorem ok_exec (h : Inv s) (r : Fin readers) :
    (((lightswitches readers writers).effect s t ok).loc (.reader r)).Ok
      (((lightswitches readers writers).effect s t ok).glob.counter .readS) := by
  have hop : (lightswitches readers writers).op s t = code t (s.loc t) := rfl
  rw [effect_glob, hop]
  by_cases ht : .reader r = t
  · subst ht
    rw [effect_loc_self]
    exact reader_ok s.glob ok
  · rw [effect_loc_of_ne ht]
    by_cases hm : .mutex ∈ holds t (s.loc t)
    · -- the thread with `mutex` is another one
      have hfree : .mutex ∉ holds (.reader r : Tid readers writers) (s.loc (.reader r)) := fun hr =>
        ht (h.mutex.unique (h.tracks _ ▸ hr) (h.tracks _ ▸ hm))
      exact (reader_free hfree s.glob _).2.1
    · rw [free_counter hm]
      exact h.ok r

theorem count_exec (h : Inv s) :
    ((lightswitches readers writers).effect s t ok).glob.counter .readS =
      census fun r => (((lightswitches readers writers).effect s t ok).loc (.reader r)).counted := by
  have hop : (lightswitches readers writers).op s t = code t (s.loc t) := rfl
  have hcount := h.count
  rw [effect_glob, hop]
  cases t with
  | reader r =>
    have hmove : census (fun j =>
        (((lightswitches readers writers).effect s (.reader r) ok).loc (.reader j)).counted) + _ = _ :=
      census_effect (P := lightswitches readers writers) (s := s) (e := Tid.reader)
        (f := fun _ => ReaderPc.counted) (fun _ _ h => Tid.reader.inj h) r
    have hself := reader_count writers (r := r) (h.ok r) ok
    rw [hop] at hmove
    omega
  | writer w =>
    have hsame : census (fun r =>
        (((lightswitches readers writers).effect s (.writer w) ok).loc (.reader r)).counted) = _ :=
      census_effect_other (P := lightswitches readers writers) (s := s) (t := .writer w)
        (e := Tid.reader) (f := fun _ => ReaderPc.counted) (by simp)
    rw [writer_counter, hcount]
    exact congrArg Nat.cast hsame.symm

/-- Where the counter is more than one reader's, another reader is settled. -/
theorem settled_other (h : Inv s) {i : ℕ} {v : Int} (hl : s.loc (.reader r) = .lock i (.store v))
    (hv : v ≠ 1) : ∃ r', (s.loc (.reader r')).settled = true := by
  have hok := h.ok r
  rw [hl] at hok
  have hv' : v = s.glob.counter .readS + 1 := hok
  have hcount := h.count
  obtain ⟨r', hr'⟩ := exists_of_census (p := fun r => (s.loc (.reader r)).counted) (by omega)
  refine ⟨r', ?_⟩
  by_cases hm : .mutex ∈ holds (.reader r' : Tid readers writers) (s.loc (.reader r'))
  · have heq : (.reader r' : Tid readers writers) = .reader r := by
      refine h.mutex.unique (h.tracks _ ▸ hm) ?_
      rw [h.tracks, hl]
      exact List.mem_cons_self
    obtain rfl := Tid.reader.inj heq
    rw [hl] at hr'
    cases hr'
  · rw [(reader_free hm s.glob 0).2.2]
    exact hr'

theorem not_writing (h : Inv s) (hfree : s.sem .argNoWriters ≠ 0) (w : Fin writers) :
    (s.loc (.writer w)).writing = false := by
  obtain ⟨-, hn⟩ | ⟨h0, -⟩ := h.writers
  · have hw := hn (.writer w)
    rw [h.tracks] at hw
    generalize s.loc (.writer w) = l at hw
    cases l with
    | write | postWriters => exact absurd List.mem_cons_self hw
    | _ => rfl
  · exact absurd h0 hfree

theorem not_settled (h : Inv s) (h0 : s.glob.counter .readS = 0) (r : Fin readers) :
    (s.loc (.reader r)).settled = false := by
  have hcount := h.count
  by_contra hr
  have hc : (s.loc (.reader r)).counted = true := by
    generalize s.loc (.reader r) = l at hr
    unfold ReaderPc.settled at hr
    split at hr
    · exact absurd rfl hr
    · simpa using hr
  have hpos := census_pos (p := fun r => (s.loc (.reader r)).counted) hc
  omega

theorem apart_exec (h : Inv s) (hc : AsOne s (.exec t (s.loc t) ok)) (r : Fin readers)
    (w : Fin writers)
    (hr : (((lightswitches readers writers).effect s t ok).loc (.reader r)).settled = true) :
    (((lightswitches readers writers).effect s t ok).loc (.writer w)).writing = false := by
  have hop : (lightswitches readers writers).op s t = code t (s.loc t) := rfl
  by_contra hw
  rw [Bool.not_eq_false] at hw
  cases t with
  | reader r₀ =>
    rw [effect_loc_of_ne (by nofun)] at hw
    by_cases hne : r = r₀
    · subst hne
      rw [effect_loc_self, hop] at hr
      obtain hr | ⟨i, hl⟩ | ⟨i, v, hl, hv⟩ := settled_dest hr
      · cases (h.apart r w hr).symm.trans hw
      · rw [hl] at hc
        cases (not_writing h hc w).symm.trans hw
      · obtain ⟨r', hr'⟩ := settled_other h hl hv
        cases (h.apart r' w hr').symm.trans hw
    · rw [effect_loc_of_ne (by simpa using hne)] at hr
      cases (h.apart r w hr).symm.trans hw
  | writer w₀ =>
    rw [effect_loc_of_ne (by nofun)] at hr
    by_cases hne : w = w₀
    · subst hne
      rw [effect_loc_self, hop] at hw
      obtain hw | ⟨i, hl⟩ := writing_dest hw
      · cases (h.apart r w hr).symm.trans hw
      · rw [hl] at hc
        cases (not_settled h hc r).symm.trans hr
    · rw [effect_loc_of_ne (by simpa using hne)] at hw
      cases (h.apart r w hr).symm.trans hw

theorem inv_init : Inv (init readers writers) where
  untouched := ⟨fun _ => rfl, fun _ => rfl⟩
  tracks t := by cases t <;> rfl
  mutex := .inl ⟨rfl, fun _ => List.not_mem_nil⟩
  writers := .inl ⟨rfl, fun _ => List.not_mem_nil⟩
  ok _ := trivial
  count := congrArg Nat.cast (census_none fun _ => rfl).symm
  apart _ _ _ := rfl

theorem inv_step (hs : (lightswitches readers writers).Step s a s') (hc : AsOne s a)
    (h : Inv s) : Inv s' := by
  obtain ⟨t, ok, rfl, rfl, -, -⟩ := h.untouched.step (fun _ _ => rfl) hs
  obtain ⟨hcancel, hcont, -⟩ := code_local (s.loc t) s.glob
  exact {
    untouched := h.untouched.effect hcancel hcont
    tracks := tracks_step discipline hs h.tracks
    mutex := mutex_step discipline h.tracks hs rfl (fun t l y k => code_no_copy rfl t l y k) h.mutex
    writers :=
      mutex_step discipline h.tracks hs rfl (fun t l y k => code_no_copy rfl t l y k) h.writers
    ok := ok_exec h
    count := count_exec h
    apart := apart_exec h hc }

theorem exclusive_run (h : (lightswitches readers writers).Run AsOne (init readers writers) tr s) :
    Exclusive s := by
  have hi : Inv s := h.invariant inv_init fun _ _ _ hi hs hc => inv_step hs hc hi
  intro r w hw
  by_contra hr
  have hset : (s.loc (.reader r)).settled = true := by
    generalize s.loc (.reader r) = l at hr
    cases l with
    | postReaders | loadValidation | storeValidation => rfl
    | unlock i p =>
      cases p with
      | pass => rfl
      | _ => exact absurd rfl hr
    | _ => exact absurd rfl hr
  cases (hi.apart r w hset).symm.trans hw

/-! ## Every program with a reader and a writer -/

theorem reader_and_writer (n m : ℕ) : ∃ tr s,
    (lightswitches (n + 1) (m + 1)).Run Any (init (n + 1) (m + 1)) tr s ∧
    (s.loc (.writer 0)).writing = true ∧ (s.loc (.reader 0)).reading = true := by
  refine run_of_check (burst (.reader 0) 9 ++ burst (.writer 0) 8) ?_
  rfl

/-- Every run excludes if and only if there are no readers or no writers, and with both
of them a run does in which the copies are used as one semaphore. -/
theorem lightswitch_exclusion (readers writers : ℕ) :
    ((∀ s, (lightswitches readers writers).Reachable (init readers writers) s → Exclusive s) ↔
      readers = 0 ∨ writers = 0) ∧
    ∀ tr s, (lightswitches readers writers).Run AsOne (init readers writers) tr s →
      Exclusive s := by
  refine ⟨⟨fun h => ?_, fun h s _ r w _ => ?_⟩, fun tr s => exclusive_run⟩
  · by_contra hn
    obtain ⟨n, rfl⟩ : ∃ n, readers = n + 1 := ⟨readers - 1, by omega⟩
    obtain ⟨m, rfl⟩ : ∃ m, writers = m + 1 := ⟨writers - 1, by omega⟩
    obtain ⟨tr, s, hr, hw, hread⟩ := reader_and_writer n m
    cases hread.symm.trans (h s hr.reachable 0 0 hw)
  · obtain rfl | rfl := h
    · exact r.elim0
    · exact w.elim0

/-- A writer has been in, and two readers read. -/
theorem lightswitch_exclusion_run : ∃ (tr : List (Label 3 1)) (s : State 3 1),
    (lightswitches 3 1).Run AsOne (init 3 1) tr s ∧ (s.loc (.reader 0)).reading = true ∧
    (s.loc (.reader 2)).reading = true ∧ Exclusive s ∧
    ¬ ∀ s, (lightswitches 3 1).Reachable (init 3 1) s → Exclusive s := by
  obtain ⟨hall, hrun⟩ := lightswitch_exclusion 3 1
  have hplay : ∃ tr s, (lightswitches 3 1).Run AsOne (init 3 1) tr s ∧
      (s.loc (.reader 0)).reading = true ∧ (s.loc (.reader 2)).reading = true := by
    refine run_of_check (burst (.writer 0) 10 ++ burst (.reader 0) 9 ++ burst (.reader 2) 8) ?_
    decide +kernel
  obtain ⟨tr, s, h, h0, h2⟩ := hplay
  exact ⟨tr, s, h, h0, h2, hrun tr s h, fun hex => by cases hall.mp hex <;> contradiction⟩

/-- The three readers and the writer of `main`: a writer prints while a reader reads. -/
theorem both_inside : ∃ s : State 3 1, (lightswitches 3 1).Reachable (init 3 1) s ∧
    (s.loc (.writer 0)).writing = true ∧ (s.loc (.reader 0)).reading = true := by
  obtain ⟨tr, s, h, hw, hr⟩ := reader_and_writer 2 0
  exact ⟨s, h.reachable, hw, hr⟩

end Lightswitch
