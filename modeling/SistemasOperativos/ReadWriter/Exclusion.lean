import SistemasOperativos.ReadWriter.Code
import SistemasOperativos.Threads.Locks
import SistemasOperativos.Threads.Plain

/-!
# Exclusion of readers and writers

The semaphore `empty` is taken by a writer or by the readers as a group, and the counter
is right because it is changed under `mutex` alone.
-/
namespace ReadWriter

open Threads Threads.Program

variable {readers writers : ℕ} {s s' : State readers writers} {a : Label readers writers}
variable {t : Tid readers writers} {r : Fin readers} {ok : Bool} {c : Int} {g : Shared}

/-! ## The locks -/

def ReaderPc.holds : ReaderPc → List Sem
  | .postTurn => [.turn]
  | .loadIn | .storeIn _ | .testIn | .waitEmpty | .postMutexIn => [.mutex]
  | .loadOut | .storeOut _ | .testOut | .postEmpty | .postMutexOut => [.mutex]
  | .waitTurn | .waitMutexIn | .read | .waitMutexOut => []

def WriterPc.holds : WriterPc → List Sem
  | .waitEmpty | .write | .postTurn => [.turn]
  | .waitTurn | .postEmpty => []

def holds : (t : Tid readers writers) → Loc t → List Sem
  | .reader _ => ReaderPc.holds
  | .writer _ => WriterPc.holds

def discipline : Discipline (readWriter readers writers) where
  holds := holds
  start t := by cases t <;> rfl
  step t l g ok := by
    cases t with
    | reader r =>
      cases l with
      | testIn | testOut =>
        simp only [readWriter, code, reader, Op.dest]
        split <;> rfl
      | _ => rfl
    | writer w => cases l <;> rfl
  int t l l' h := by cases h
  posts t l x k h hx := by
    cases t with
    | reader r => cases l <;> cases h <;> first | exact List.mem_cons_self | cases hx
    | writer w => cases l <;> cases h <;> first | exact List.mem_cons_self | cases hx
  nodup t l := by
    cases t with
    | reader r => cases l <;> first | exact List.nodup_nil | exact List.nodup_singleton _
    | writer w => cases l <;> first | exact List.nodup_nil | exact List.nodup_singleton _

/-! ## Who counts -/

/-- Between the increment of `noReaders` and its decrement. -/
def ReaderPc.counted : ReaderPc → Bool
  | .testIn | .waitEmpty | .postMutexIn | .read | .waitMutexOut | .loadOut | .storeOut _ => true
  | _ => false

/-- The reading section, up to the decrement of `noReaders`. -/
def ReaderPc.reading : ReaderPc → Bool
  | .read | .waitMutexOut | .loadOut | .storeOut _ => true
  | _ => false

/-- Between `sem_wait(&empty)` and `sem_post(&empty)`. -/
def WriterPc.inside : WriterPc → Bool
  | .write | .postTurn | .postEmpty => true
  | _ => false

/-- The readers as a group have `empty` because of this one. -/
def ReaderPc.settled (c : Int) : ReaderPc → Bool
  | .postMutexIn | .read | .waitMutexOut | .loadOut | .storeOut _ | .postEmpty => true
  | .testOut => c = 0
  | _ => false

/-- What a reader with `mutex` knows of the counter. -/
def ReaderPc.Ok (c : Int) : ReaderPc → Prop
  | .storeIn v => v = c + 1
  | .waitEmpty => c = 1
  | .storeOut v => v = c - 1
  | .postEmpty => c = 0
  | _ => True

def counted (s : State readers writers) : Fin readers → Bool :=
  fun r => (s.loc (.reader r)).counted

def inside (s : State readers writers) : Fin writers → Bool :=
  fun w => (s.loc (.writer w)).inside

def Grouped (s : State readers writers) : Prop :=
  ∃ r, (s.loc (.reader r)).settled s.glob.noReaders = true

instance (s : State readers writers) : Decidable (Grouped s) :=
  inferInstanceAs (Decidable (∃ _, _))

structure Inv (s : State readers writers) : Prop where
  alive : Alive s
  tracks : Tracks discipline s
  turn : Mutex s .turn
  mutex : Mutex s .mutex
  ok : ∀ r, (s.loc (.reader r)).Ok s.glob.noReaders
  count : s.glob.noReaders = census (counted s)
  empty : s.sem .empty + census (inside s) + (if Grouped s then 1 else 0) = 1

/-! ## Every step is an operation of a thread -/

theorem code_plain (l : Loc t) : (code t l).Plain := by
  cases t <;> cases l <;> trivial

theorem step_exec (hs : (readWriter readers writers).Step s a s') (h : Alive s) :
    ∃ t ok, a = .exec t (s.loc t) ok ∧ s' = (readWriter readers writers).effect s t ok ∧
      ((readWriter readers writers).op s t).Enabled s.sem := by
  obtain ⟨t, ok, ha, hs', -, he⟩ := h.toUntouched.step (fun _ _ => rfl) hs
  exact ⟨t, ok, ha, hs', he⟩

theorem alive_exec (h : Alive s) : Alive ((readWriter readers writers).effect s t ok) :=
  h.effect (code_plain (s.loc t))

/-! ## Readers without `mutex` -/

theorem glob_free {l : Loc t} (h : .mutex ∉ holds t l) (g : Shared) : (code t l).glob g = g := by
  cases t with
  | reader r =>
    cases l with
    | storeIn v | storeOut v => exact absurd List.mem_cons_self h
    | _ => rfl
  | writer w => cases l <;> rfl

theorem ok_free {l : ReaderPc} (h : .mutex ∉ l.holds) : l.Ok c := by
  cases l with
  | storeIn | waitEmpty | storeOut | postEmpty => exact absurd List.mem_cons_self h
  | _ => trivial

theorem settled_free {l : ReaderPc} (h : .mutex ∉ l.holds) : l.settled c = l.counted := by
  cases l with
  | waitTurn | postTurn | waitMutexIn | read | waitMutexOut => rfl
  | _ => exact absurd List.mem_cons_self h

/-! ## One step -/

theorem reader_ok {l : ReaderPc} (h : l.Ok g.noReaders) :
    ReaderPc.Ok ((code (.reader r : Tid readers writers) l).glob g).noReaders
      ((code (.reader r : Tid readers writers) l).dest l g ok) := by
  cases l with
  | testIn | testOut =>
    simp only [code, reader, Op.dest, Op.glob]
    split
    · assumption
    · trivial
  | loadIn | loadOut => rfl
  | _ => trivial

theorem ok_exec (h : Inv s) (r : Fin readers) :
    (((readWriter readers writers).effect s t ok).loc (.reader r)).Ok
      ((readWriter readers writers).effect s t ok).glob.noReaders := by
  rw [effect_glob]
  by_cases ht : .reader r = t
  · subst ht
    rw [effect_loc_self]
    exact reader_ok (h.ok r)
  · rw [effect_loc_of_ne ht]
    by_cases hm : .mutex ∈ holds t (s.loc t)
    · -- the thread with `mutex` is another one
      refine ok_free fun hr => ht ?_
      refine h.mutex.unique ?_ ?_
      · rw [h.tracks]
        exact hr
      · rw [h.tracks]
        exact hm
    · rw [show (readWriter readers writers).op s t = code t (s.loc t) from rfl, glob_free hm]
      exact h.ok r

theorem reader_count (r : Fin readers) {l : ReaderPc} (h : l.Ok g.noReaders) (ok : Bool) :
    ((code (.reader r : Tid readers writers) l).glob g).noReaders + l.counted.toNat =
      g.noReaders + (ReaderPc.counted
        ((code (.reader r : Tid readers writers) l).dest l g ok)).toNat := by
  cases l with
  | testIn | testOut =>
    simp only [code, reader, Op.dest, Op.glob]
    split <;> rfl
  | storeIn v =>
    obtain rfl : v = g.noReaders + 1 := h
    exact add_zero _
  | storeOut v =>
    obtain rfl : v = g.noReaders - 1 := h
    show g.noReaders - 1 + 1 = g.noReaders + 0
    omega
  | _ => rfl

theorem writer_free (w : Fin writers) (l : WriterPc) :
    .mutex ∉ holds (.writer w : Tid readers writers) l := by
  cases l <;> simp [holds, WriterPc.holds]

theorem counted_exec (r : Fin readers) (ok : Bool) :
    census (counted ((readWriter readers writers).effect s (.reader r) ok)) +
        (s.loc (.reader r)).counted.toNat =
      census (counted s) + (ReaderPc.counted ((code (.reader r : Tid readers writers)
        (s.loc (.reader r))).dest (s.loc (.reader r)) s.glob ok)).toNat :=
  census_effect (P := readWriter readers writers) (s := s) (e := Tid.reader)
    (f := fun _ => ReaderPc.counted) (fun _ _ h => Tid.reader.inj h) r

theorem counted_writer (w : Fin writers) (ok : Bool) :
    census (counted ((readWriter readers writers).effect s (.writer w) ok)) = census (counted s) :=
  census_effect_other (P := readWriter readers writers) (t := .writer w) (e := Tid.reader)
    (f := fun _ => ReaderPc.counted) (by simp)

theorem count_exec (h : Inv s) : ((readWriter readers writers).effect s t ok).glob.noReaders =
    census (counted ((readWriter readers writers).effect s t ok)) := by
  rw [effect_glob]
  have hop : (readWriter readers writers).op s t = code t (s.loc t) := rfl
  have hcount := h.count
  rw [hop]
  cases t with
  | reader r =>
    have hmove := counted_exec (s := s) r ok
    have hloc : ((code (.reader r : Tid readers writers) (s.loc (.reader r))).glob
        s.glob).noReaders + _ = _ := reader_count r (h.ok r) ok
    omega
  | writer w => rw [counted_writer, ← hcount, glob_free (writer_free w _)]

/-! ## `empty` -/

/-- Another reader is counted. -/
def Others (s : State readers writers) (r : Fin readers) : Prop :=
  ∃ r', r' ≠ r ∧ counted s r' = true

/-- While a reader has `mutex` the others are settled as far as they are counted. -/
theorem settled_other (h : Inv s) (hr : .mutex ∈ (s.loc (.reader r)).holds) {r' : Fin readers}
    (hne : r' ≠ r) : (s.loc (.reader r')).settled c = counted s r' := by
  refine settled_free fun hr' => hne ?_
  have heq : (.reader r' : Tid readers writers) = .reader r := by
    refine h.mutex.unique ?_ ?_
    · rw [h.tracks]
      exact hr'
    · rw [h.tracks]
      exact hr
  simpa using heq

theorem grouped_holder (h : Inv s) (hr : .mutex ∈ (s.loc (.reader r)).holds) :
    Grouped s ↔ (s.loc (.reader r)).settled s.glob.noReaders = true ∨ Others s r := by
  constructor
  · rintro ⟨r', hs⟩
    by_cases hne : r' = r
    · exact .inl (hne ▸ hs)
    · exact .inr ⟨r', hne, (settled_other h hr hne).symm.trans hs⟩
  · rintro (hs | ⟨r', hne, hc⟩)
    · exact ⟨r, hs⟩
    · exact ⟨r', (settled_other h hr hne).trans hc⟩

theorem grouped_exec (h : Inv s) (hr : .mutex ∈ (s.loc (.reader r)).holds) (ok : Bool) :
    Grouped ((readWriter readers writers).effect s (.reader r) ok) ↔
      (((readWriter readers writers).effect s (.reader r) ok).loc (.reader r)).settled
        ((readWriter readers writers).effect s (.reader r) ok).glob.noReaders = true ∨
      Others s r := by
  have hother : ∀ r', r' ≠ r →
      ((readWriter readers writers).effect s (.reader r) ok).loc (.reader r') =
        s.loc (.reader r') := fun r' hne => effect_loc_of_ne (by simpa using hne)
  constructor
  · rintro ⟨r', hs⟩
    by_cases hne : r' = r
    · exact .inl (hne ▸ hs)
    · rw [hother r' hne, settled_other h hr hne] at hs
      exact .inr ⟨r', hne, hs⟩
  · rintro (hs | ⟨r', hne, hc⟩)
    · exact ⟨r, hs⟩
    · refine ⟨r', ?_⟩
      rwa [hother r' hne, settled_other h hr hne]

/-- A counted reader is alone, or the counter says more than one. -/
theorem others_of_count (h : Inv s) (hc : (s.loc (.reader r)).counted = true)
    (hn : s.glob.noReaders ≠ 1) : Others s r := by
  refine exists_other r ?_
  have hone : (counted s r).toNat = 1 := congrArg Bool.toNat hc
  have hpos := census_pos (p := counted s) (i := r) hc
  have hcount := h.count
  omega

theorem not_others (h : Inv s) (hn : s.glob.noReaders = 0) : ¬ Others s r := by
  rintro ⟨r', -, hc⟩
  have hpos := census_pos hc
  have hcount := h.count
  omega

/-- What the semaphore counts with the group of readers. -/
def room (s : State readers writers) : ℕ := s.sem .empty + (if Grouped s then 1 else 0)

theorem room_of {n : ℕ} (hn : s.sem .empty = n) (hg : Grouped s) : room s = n + 1 := by
  rw [room, hn, if_pos hg]

theorem room_of_not {n : ℕ} (hn : s.sem .empty = n) (hg : ¬ Grouped s) : room s = n := by
  rw [room, hn, if_neg hg, add_zero]

theorem room_congr (hn : s'.sem .empty = s.sem .empty) (hg : Grouped s' ↔ Grouped s) :
    room s' = room s := by
  unfold room
  rw [hn]
  congr 1
  simp only [hg]

/-- A reader without `mutex` changes nothing of the group. -/
theorem room_free (hr : .mutex ∉ (s.loc (.reader r)).holds) :
    room ((readWriter readers writers).effect s (.reader r) ok) = room s := by
  have hglob : ((readWriter readers writers).effect s (.reader r) ok).glob = s.glob :=
    glob_free (t := .reader r) (l := s.loc (.reader r)) hr s.glob
  have hself : (((readWriter readers writers).effect s (.reader r) ok).loc (.reader r)).settled
      s.glob.noReaders = (s.loc (.reader r)).settled s.glob.noReaders := by
    have hop : (readWriter readers writers).op s (.reader r) =
        code (.reader r : Tid readers writers) (s.loc (.reader r)) := rfl
    rw [effect_loc_self, hop]
    generalize s.loc (.reader r) = l at hr
    cases l with
    | waitTurn | postTurn | waitMutexIn | read | waitMutexOut => rfl
    | _ => exact absurd List.mem_cons_self hr
  refine room_congr ?_ (exists_congr fun r' => ?_)
  · show (code (.reader r : Tid readers writers) (s.loc (.reader r))).sems s.sem .empty = _
    generalize s.loc (.reader r) = l at hr
    cases l with
    | waitTurn | postTurn | waitMutexIn | read | waitMutexOut => rfl
    | _ => exact absurd List.mem_cons_self hr
  · rw [hglob]
    by_cases hne : r' = r
    · rw [hne, hself]
    · rw [effect_loc_of_ne (by simpa using hne)]

/-- A reader with `mutex` gives the group what it takes, and takes it back from the group. -/
theorem room_holder (h : Inv s) (hr : .mutex ∈ (s.loc (.reader r)).holds)
    (he : ((readWriter readers writers).op s (.reader r)).Enabled s.sem) :
    room ((readWriter readers writers).effect s (.reader r) ok) = room s := by
  have hg := grouped_holder h hr
  have hg' := grouped_exec h hr ok
  have hmore := others_of_count (r := r) h
  have hnone := not_others (r := r) h
  have hok := h.ok r
  have hempty := h.empty
  have hsem : ((readWriter readers writers).effect s (.reader r) ok).sem .empty =
      (code (.reader r : Tid readers writers) (s.loc (.reader r))).sems s.sem .empty := rfl
  have hop : (readWriter readers writers).op s (.reader r) =
      code (.reader r : Tid readers writers) (s.loc (.reader r)) := rfl
  rw [effect_loc_self, effect_glob, hop] at hg'
  rw [hop] at he
  generalize s.loc (.reader r) = l at hr he hg hg' hmore hok hsem
  cases l with
  | testIn =>
    by_cases hc : s.glob.noReaders = 1
    · refine room_congr hsem (hg'.trans (Iff.trans ?_ hg.symm))
      simp [code, reader, Op.dest, hc, ReaderPc.settled]
    · have hO := hmore rfl hc
      exact room_congr hsem (iff_of_true (hg'.mpr (.inr hO)) (hg.mpr (.inr hO)))
  | waitEmpty =>
    have hfree : 0 < s.sem .empty := he
    have hnot : ¬ Grouped s := by
      intro hG
      rw [if_pos hG] at hempty
      omega
    rw [room_of hsem (hg'.mpr (.inl rfl)), room_of_not rfl hnot]
    exact Nat.sub_add_cancel hfree
  | storeOut v =>
    obtain rfl : v = s.glob.noReaders - 1 := hok
    refine room_congr hsem (iff_of_true (hg'.mpr ?_) (hg.mpr (.inl rfl)))
    by_cases hc : s.glob.noReaders = 1
    · left
      simp [code, reader, Op.dest, Op.glob, hc, ReaderPc.settled]
    · exact .inr (hmore rfl hc)
  | postEmpty =>
    have hO := hnone hok
    have hnot : ¬ Grouped ((readWriter readers writers).effect s (.reader r) ok) := by
      rw [hg']
      rintro (hs | hO')
      · cases hs
      · exact hO hO'
    rw [room_of rfl (hg.mpr (.inl rfl)), room_of_not hsem hnot]
    rfl
  | testOut =>
    refine room_congr hsem (hg'.trans (Iff.trans ?_ hg.symm))
    simp only [code, reader, Op.dest, Op.glob, ReaderPc.settled]
    by_cases hc : s.glob.noReaders = 0 <;> simp [hc]
  | waitTurn | postTurn | waitMutexIn | read | waitMutexOut => simp [ReaderPc.holds] at hr
  | _ => exact room_congr hsem (hg'.trans hg.symm)

theorem inside_reader (r : Fin readers) (ok : Bool) :
    census (inside ((readWriter readers writers).effect s (.reader r) ok)) = census (inside s) :=
  census_effect_other (P := readWriter readers writers) (t := .reader r) (e := Tid.writer)
    (f := fun _ => WriterPc.inside) (by simp)

theorem inside_exec (w : Fin writers) (ok : Bool) :
    census (inside ((readWriter readers writers).effect s (.writer w) ok)) +
        (s.loc (.writer w)).inside.toNat =
      census (inside s) + (WriterPc.inside ((code (.writer w : Tid readers writers)
        (s.loc (.writer w))).dest (s.loc (.writer w)) s.glob ok)).toNat :=
  census_effect (P := readWriter readers writers) (s := s) (e := Tid.writer)
    (f := fun _ => WriterPc.inside) (fun _ _ h => Tid.writer.inj h) w

/-- A writer takes `empty` for itself. -/
theorem writer_empty {w : Fin writers} {l : WriterPc} {σ : Sem → ℕ}
    (he : (code (.writer w : Tid readers writers) l).Enabled σ) (g : Shared) (ok : Bool) :
    (code (.writer w : Tid readers writers) l).sems σ .empty + (WriterPc.inside
      ((code (.writer w : Tid readers writers) l).dest l g ok)).toNat =
      σ .empty + l.inside.toNat := by
  cases l with
  | waitEmpty =>
    have hpos : 0 < σ .empty := he
    exact Nat.sub_add_cancel hpos
  | _ => rfl

theorem empty_exec (h : Inv s) (he : ((readWriter readers writers).op s t).Enabled s.sem) :
    ((readWriter readers writers).effect s t ok).sem .empty +
      census (inside ((readWriter readers writers).effect s t ok)) +
      (if Grouped ((readWriter readers writers).effect s t ok) then 1 else 0) = 1 := by
  have hempty := h.empty
  cases t with
  | reader r =>
    have hroom : room ((readWriter readers writers).effect s (.reader r) ok) = room s := by
      by_cases hr : .mutex ∈ (s.loc (.reader r)).holds
      · exact room_holder h hr he
      · exact room_free hr
    rw [inside_reader]
    unfold room at hroom
    omega
  | writer w =>
    have hgroup : Grouped ((readWriter readers writers).effect s (.writer w) ok) ↔ Grouped s := by
      have hglob : ((readWriter readers writers).effect s (.writer w) ok).glob = s.glob :=
        glob_free (writer_free w _) s.glob
      refine exists_congr fun r => ?_
      rw [hglob, effect_loc_of_ne (by nofun)]
    have hmove := inside_exec (s := s) w ok
    have hloc := writer_empty he s.glob ok
    have hsem : ((readWriter readers writers).effect s (.writer w) ok).sem .empty =
        (code (.writer w : Tid readers writers) (s.loc (.writer w))).sems s.sem .empty := rfl
    simp only [hgroup, hsem]
    omega

theorem code_no_copy (x y : Sem) (k : Loc t) (l : Loc t) : code t l ≠ .copy x y k := by
  cases t <;> cases l <;> nofun

theorem inv_init : Inv (init readers writers) where
  alive := ⟨⟨fun _ => rfl, fun _ => rfl⟩, rfl, fun _ => rfl⟩
  tracks t := by cases t <;> rfl
  turn := .inl ⟨rfl, fun _ => List.not_mem_nil⟩
  mutex := .inl ⟨rfl, fun _ => List.not_mem_nil⟩
  ok _ := trivial
  count := by simp [census, counted, init, start, State.loc, Thread.unborn, ReaderPc.counted]
  empty := by
    have hnot : ¬ Grouped (init readers writers) := by
      rintro ⟨r, hr⟩
      cases hr
    rw [if_neg hnot]
    simp [census, inside, init, start, State.loc, Thread.unborn, WriterPc.inside]

theorem inv_step (hs : (readWriter readers writers).Step s a s') (h : Inv s) : Inv s' := by
  obtain ⟨t, ok, rfl, rfl, he⟩ := step_exec hs h.alive
  exact {
    alive := alive_exec h.alive
    tracks := tracks_step discipline hs h.tracks
    turn := mutex_step discipline h.tracks hs rfl (fun t l y k => code_no_copy _ y k l) h.turn
    mutex := mutex_step discipline h.tracks hs rfl (fun t l y k => code_no_copy _ y k l) h.mutex
    ok := ok_exec h
    count := count_exec h
    empty := empty_exec h he }

theorem inv_reachable (h : (readWriter readers writers).Reachable (init readers writers) s) :
    Inv s := by
  obtain ⟨tr, hr⟩ := h
  exact hr.invariant inv_init fun _ _ _ hi hs _ => inv_step hs hi

/-- A writer inside is alone there and no reader is reading, and the counter is the number
of readers between their increment and their decrement. -/
theorem exclusion (h : (readWriter readers writers).Reachable (init readers writers) s) :
    (∀ w, (s.loc (.writer w)).inside = true →
      (∀ w', (s.loc (.writer w')).inside = true → w' = w) ∧
      ∀ r, (s.loc (.reader r)).reading = false) ∧
    s.glob.noReaders = census fun r => (s.loc (.reader r)).counted := by
  have hi := inv_reachable h
  refine ⟨fun w hw => ?_, hi.count⟩
  have hempty := hi.empty
  have hpos := census_pos (p := inside s) hw
  refine ⟨fun w' hw' => census_unique (p := inside s) (by omega) hw' hw, fun r => ?_⟩
  by_contra hr
  have hgroup : Grouped s := by
    refine ⟨r, ?_⟩
    generalize s.loc (.reader r) = l at hr
    cases l with
    | read | waitMutexOut | loadOut | storeOut => rfl
    | _ => exact absurd rfl hr
  rw [if_pos hgroup] at hempty
  omega

/-- A writer is inside while two readers wait, one of them counted. -/
theorem exclusion_once : ∃ s : State 3 3, (readWriter 3 3).Reachable (init 3 3) s ∧
    (s.loc (.writer 1)).inside = true ∧ s.loc (.reader 0) = .waitEmpty ∧
    (∀ w, (s.loc (.writer w)).inside = true → w = 1) ∧
    (∀ r, (s.loc (.reader r)).reading = false) ∧
    s.glob.noReaders = census fun r => (s.loc (.reader r)).counted := by
  have hrun : ∃ tr s, (readWriter 3 3).Run Any (init 3 3) tr s ∧
      (s.loc (.writer 1)).inside = true ∧ s.loc (.reader 0) = .waitEmpty := by
    refine run_of_check (burst (.reader 0) 2 ++ burst (.reader 1) 2 ++ burst (.writer 1) 2 ++
      burst (.reader 0) 4) ?_
    decide +kernel
  obtain ⟨tr, s, h, hw, hl⟩ := hrun
  obtain ⟨hex, hcount⟩ := exclusion h.reachable
  exact ⟨s, h.reachable, hw, hl, (hex 1 hw).1, (hex 1 hw).2, hcount⟩

end ReadWriter
