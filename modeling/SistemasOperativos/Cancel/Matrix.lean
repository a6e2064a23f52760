import SistemasOperativos.Cancel.Code
import SistemasOperativos.Threads.Effect

/-!
# What is left of the matrix

A deferred cancellation waits for the end of a round, and all cells are the same. An
asynchronous one leaves the round where it is.
-/
namespace Cancel

open Threads Threads.Program Text

variable {m : ℕ → ℕ → ℤ} {i j : ℕ} {v : ℤ} {g : Shared} {ok : Bool}

def Uniform (v : ℤ) (m : ℕ → ℕ → ℤ) : Prop := ∀ a < size, ∀ b < size, m a b = v

/-- The round has come to a cell, and those before it are flipped. -/
def Swept (v : ℤ) (i j : ℕ) (m : ℕ → ℕ → ℤ) : Prop :=
  ∀ a < size, ∀ b < size, m a b = if a < i ∨ a = i ∧ b < j then 1 - v else v

theorem setCell_apply (i j : ℕ) (v : ℤ) (m : ℕ → ℕ → ℤ) (a b : ℕ) :
    setCell i j v m a b = if a = i ∧ b = j then v else m a b := by
  unfold setCell
  by_cases ha : a = i
  · subst ha
    by_cases hb : b = j <;> simp [hb]
  · simp [ha]

theorem swept_start (h : Uniform v m) : Swept v 0 0 m := by
  intro a ha b hb
  rw [h a ha b hb, if_neg (by omega)]

/-- One cell more. -/
theorem swept_setCell (h : Swept v i j m) (hi : i < size) (hj : j < size) :
    match after i j with
    | some (i', j') => i' < size ∧ j' < size ∧ Swept v i' j' (setCell i j (1 - v) m)
    | none => Uniform (1 - v) (setCell i j (1 - v) m) := by
  have hcell : ∀ a < size, ∀ b < size, setCell i j (1 - v) m a b =
      if a < i ∨ a = i ∧ b < j + 1 then 1 - v else v := by
    intro a ha b hb
    rw [setCell_apply, h a ha b hb]
    split_ifs <;> first
      | rfl
      | omega
  unfold after
  split_ifs with hj' hi'
  · exact ⟨hi, hj', hcell⟩
  · refine ⟨hi', by decide, fun a ha b hb => ?_⟩
    rw [hcell a ha b hb]
    split_ifs <;> first
      | rfl
      | omega
  · intro a ha b hb
    rw [hcell a ha b hb, if_pos (by omega)]

/-- A round of a matrix of zeros and ones. -/
structure Round (i j : ℕ) (m : ℕ → ℕ → ℤ) (v : ℤ) : Prop where
  row : i < size
  col : j < size
  bit : v = 0 ∨ v = 1
  swept : Swept v i j m

def Access.At (m : ℕ → ℕ → ℤ) : Access → Prop
  | .clear i j => i < size ∧ j < size ∧ Uniform 0 m
  | .test i j => ∃ v, Round i j m v
  | .store i j w => ∃ v, Round i j m v ∧ w = 1 - v

def SyncPc.At (m : ℕ → ℕ → ℤ) : SyncPc → Prop
  | .access p => p.At m
  | .testcancel => ∃ v, (v = 0 ∨ v = 1) ∧ Uniform v m

def AsyncPc.At (m : ℕ → ℕ → ℤ) : AsyncPc → Prop
  | .setcanceltype => Uniform 0 m
  | .cancel p | .access p => p.At m

theorem round_start (hv : v = 0 ∨ v = 1) (h : Uniform v m) : Round 0 0 m v :=
  ⟨by decide, by decide, hv, swept_start h⟩

/-- One access, whatever the assertions are. -/
theorem access_at {R : Type} (I : (ℕ → ℕ → ℤ) → R → Prop) (pc : Access → R) (k : R)
    (hpc : ∀ p m, p.At m → I m (pc p)) (hk : ∀ v m, v = 0 ∨ v = 1 → Uniform v m → I m k)
    (p : Access) (l : R) (h : p.At g.matrix) :
    I ((access pc k p).glob g).matrix ((access pc k p).dest l g ok) := by
  cases p with
  | clear i j =>
    obtain ⟨hi, hj, h⟩ := h
    have hzero : Uniform 0 (setCell i j 0 g.matrix) := by
      intro a ha b hb
      rw [setCell_apply, h a ha b hb, ite_self]
    refine hpc _ _ ?_
    show Access.At (setCell i j 0 g.matrix) _
    unfold after
    split_ifs with hj' hi'
    · exact ⟨hi, hj', hzero⟩
    · exact ⟨hi', by decide, hzero⟩
    · exact ⟨0, round_start (.inl rfl) hzero⟩
  | test i j =>
    obtain ⟨v, hr⟩ := h
    have hcell : g.matrix i j = v := by
      rw [hr.swept i hr.row j hr.col, if_neg (by omega)]
    refine hpc _ _ ⟨v, hr, ?_⟩
    rw [hcell]
    obtain rfl | rfl := hr.bit <;> rfl
  | store i j w =>
    obtain ⟨v, hr, rfl⟩ := h
    have hnext := swept_setCell hr.swept hr.row hr.col
    show I (setCell i j (1 - v) g.matrix) (match after i j with
      | some (i, j) => pc (.test i j)
      | none => k)
    cases ha : after i j with
    | none =>
      rw [ha] at hnext
      exact hk _ _ (by obtain rfl | rfl := hr.bit <;> simp) hnext
    | some c =>
      obtain ⟨i', j'⟩ := c
      rw [ha] at hnext
      exact hpc _ _ ⟨v, hnext.1, hnext.2.1, hr.bit, hnext.2.2⟩

theorem sync_at (l : SyncPc) (h : l.At g.matrix) :
    ((routineSync l).dest l g ok).At ((routineSync l).glob g).matrix := by
  cases l with
  | access p =>
    exact access_at SyncPc.At .access .testcancel (fun _ _ h => h) (fun v _ hv h => ⟨v, hv, h⟩) p _ h
  | testcancel =>
    obtain ⟨v, hv, h⟩ := h
    exact ⟨v, round_start hv h⟩

theorem async_at (l : AsyncPc) (h : l.At g.matrix) :
    ((routineAsync l).dest l g ok).At ((routineAsync l).glob g).matrix := by
  cases l with
  | access p =>
    exact access_at AsyncPc.At .cancel (.cancel (.test 0 0)) (fun _ _ h => h)
      (fun v _ hv h => ⟨v, round_start hv h⟩) p _ h
  | setcanceltype => exact ⟨by decide, by decide, h⟩
  | cancel p => exact h

/-! ## What is printed -/

section Routine
variable {R : Type} {routine : R → Instr R} {start : R} {s s' : State R} {a : Label R}
variable {tr : List (Label R)}

/-- A routine with an assertion about the matrix that only a cancellation ends. -/
structure Flips (routine : R → Instr R) (start : R) (I : (ℕ → ℕ → ℤ) → R → Prop) : Prop where
  start : I (fun _ _ => 0) start
  step : ∀ l g ok, I g.matrix l → I ((routine l).glob g).matrix ((routine l).dest l g ok)
  plain : ∀ l, (routine l).Plain
  awake : ∀ l, (routine l).interruptible = false

structure Inv (routine : R → Instr R) (I : (ℕ → ℕ → ℤ) → R → Prop) (s : State R) : Prop where
  cells : I s.glob.matrix (s.loc .routine)
  dead : s.life .routine = .finished → (routine (s.loc .routine)).cancelPoint = true
  joined : s.loc .main = .print ∨ s.loc .main = .finished → s.life .routine = .finished
  printed : s.loc .main = .finished → s.glob.printed =
    utf8 "Thread cancelled\nMatrix :\n" ++ printArray s.glob.matrix

theorem main_matrix (l : MainPc) (g : Shared) : ((main l).glob g).matrix = g.matrix := by
  cases l <;> rfl

variable {I : (ℕ → ℕ → ℤ) → R → Prop}

/-- Where a step of `main` comes to the matrix and to the end. -/
theorem main_dest (l : MainPc) (g : Shared) (ok : Bool) :
    ((main l).dest l g ok = .print → l = .join) ∧
      ((main l).dest l g ok = .finished → l = .print ∨ l = .finished) := by
  cases l <;> exact ⟨by first | exact fun _ => rfl | exact (fun h => by cases h),
    by first | exact fun _ => .inl rfl | exact fun _ => .inr rfl | exact (fun h => by cases h)⟩

/-- A step of `main` after its first. -/
theorem inv_main (h : Inv routine I s) (hl : s.loc .main ≠ .create)
    (hc : Joins s (.exec .main (s.loc .main) ok)) :
    Inv routine I ((program routine start).effect s .main ok) := by
  have hop : (program routine start).op s .main = main (s.loc .main) := rfl
  have hne : Tid.routine ≠ .main := by decide
  have hroutine : ((program routine start).effect s .main ok).loc .routine = s.loc .routine :=
    effect_loc_of_ne hne
  have hmatrix : ((program routine start).effect s .main ok).glob.matrix = s.glob.matrix := by
    rw [effect_glob, hop, main_matrix]
  have hlife : ((program routine start).effect s .main ok).life .routine = s.life .routine := by
    have hcreate : (main (s.loc .main)).creates s.glob = none := by
      generalize s.loc .main = l at hl
      cases l with
      | create => exact absurd rfl hl
      | _ => rfl
    rw [effect_life_of_ne hne, hop, hcreate, if_neg (by nofun)]
  have hmain : ((program routine start).effect s .main ok).loc .main =
      (main (s.loc .main)).dest (s.loc .main) s.glob ok := effect_loc_self
  obtain ⟨hprint, hfinished⟩ := main_dest (s.loc .main) s.glob ok
  refine ⟨?_, ?_, ?_, ?_⟩
  · rw [hmatrix, hroutine]
    exact h.cells
  · rw [hlife, hroutine]
    exact h.dead
  · rw [hmain, hlife]
    rintro (hd | hd)
    · have hj := hprint hd
      rw [hj] at hc
      exact hc
    · exact h.joined (hfinished hd)
  · rw [hmain, hmatrix]
    intro hd
    obtain hp | hf := hfinished hd
    · rw [effect_glob, hop, hp]
      rfl
    · rw [effect_glob, hop, hf]
      exact h.printed hf

/-- A step of the routine, which is only made before it is joined. -/
theorem inv_routine (hf : Flips routine start I) (h : Inv routine I s)
    (hr : s.Running .routine) : Inv routine I ((program routine start).effect s .routine ok) := by
  have hop : (program routine start).op s .routine = routine (s.loc .routine) := rfl
  have hplain := hf.plain (s.loc .routine)
  have hmain : ((program routine start).effect s .routine ok).loc .main = s.loc .main :=
    effect_loc_of_ne (by decide)
  have hlife : ((program routine start).effect s .routine ok).life .routine = .running := by
    rw [effect_life_self, hop, hplain.creates, hplain.isRet, if_neg (by nofun)]
    exact hr.2
  have hnot : ¬ (s.loc .main = .print ∨ s.loc .main = .finished) := by
    intro hl
    cases hr.2.symm.trans (h.joined hl)
  refine ⟨?_, fun hd => ?_, fun hl => ?_, fun hl => ?_⟩
  · rw [effect_glob, effect_loc_self, hop]
    exact hf.step _ _ _ h.cells
  · cases hlife.symm.trans hd
  · exact absurd (hmain ▸ hl) hnot
  · exact absurd (.inr (hmain ▸ hl)) hnot

theorem inv_create (h : Inv routine I s) (hl : s.loc .main = .create) :
    Inv routine I ((program routine start).effect s .main ok) := by
  have hop : (program routine start).op s .main = main .create := congrArg main hl
  have hmain : ((program routine start).effect s .main ok).loc .main = .sleep := by
    rw [effect_loc_self, hop]
    rfl
  refine ⟨?_, fun hd => ?_, fun hm => ?_, fun hm => ?_⟩
  · rw [effect_glob, hop, effect_loc_of_ne (by decide)]
    exact h.cells
  · have hborn : (main .create).creates s.glob = some .routine := rfl
    rw [effect_life_of_ne (by decide), hop, if_pos hborn] at hd
    cases hd
  · rw [hmain] at hm
    obtain hm | hm := hm <;> cases hm
  · rw [hmain] at hm
    cases hm

theorem inv_step (hf : Flips routine start I) (hs : (program routine start).Step s a s')
    (hc : Joins s a) (h : Inv routine I s) : Inv routine I s' := by
  cases hs with
  | @exec t ok hr _ _ =>
    cases t with
    | main =>
      by_cases hl : s.loc .main = .create
      · exact inv_create h hl
      · exact inv_main h hl hc
    | routine => exact inv_routine hf h hr
  | @die t hr hp _ =>
    cases t with
    | main =>
      have hlife : (die s .main).life .routine = s.life .routine := die_life_of_ne (by decide)
      refine ⟨?_, ?_, ?_, ?_⟩ <;> simp only [die_loc, die_glob, hlife]
      · exact h.cells
      · exact h.dead
      · exact h.joined
      · exact h.printed
    | routine =>
      refine ⟨?_, ?_, ?_, ?_⟩ <;> simp only [die_loc, die_glob, die_life_self]
      · exact h.cells
      · exact fun _ => hp
      · exact fun _ => trivial
      · exact h.printed
  | @cont t hr _ =>
    have hroutine : ((program routine start).wake s t).loc .routine = s.loc .routine := by
      cases t with
      | main => exact wake_loc_of_ne (by decide)
      | routine =>
        have hawake : ((program routine start).op s .routine).interruptible = false := hf.awake _
        rw [wake_loc_self, hawake, if_neg (by nofun)]
    have hmain : ((program routine start).wake s t).loc .main = s.loc .main ∨
        ((program routine start).wake s t).loc .main = .cancel := by
      cases t with
      | main =>
        rw [wake_loc_self]
        have hop : (program routine start).op s .main = main (s.loc .main) := rfl
        rw [hop]
        cases s.loc .main <;> simp [main, Op.interruptible, Op.dest]
      | routine => exact .inl (wake_loc_of_ne (by decide))
    refine ⟨?_, ?_, ?_, ?_⟩
    · rw [hroutine]
      exact h.cells
    · rw [hroutine, wake_life]
      exact h.dead
    · rw [wake_life]
      obtain hm | hm := hmain <;> rw [hm]
      · exact h.joined
      · rintro (hd | hd) <;> cases hd
    · obtain hm | hm := hmain <;> rw [hm]
      · exact h.printed
      · intro hd
        cases hd
  | int _ _ hl => cases hl
  | env e => exact e.elim

theorem inv_run (hf : Flips routine start I)
    (h : (program routine start).Run Joins (init start) tr s) : Inv routine I s := by
  have hinit : Inv routine I (init start) := by
    refine ⟨hf.start, ?_, ?_, ?_⟩
    · intro hd
      cases hd
    · rintro (hd | hd) <;> cases hd
    · intro hd
      cases hd
  exact h.invariant hinit fun _ _ _ hi hs hc => inv_step hf hs hc hi

/-- At the end the routine is where a cancellation is acted on, and the matrix is as it was
there. -/
theorem printed_of_cancelled (hf : Flips routine start I)
    (h : (program routine start).Run Joins (init start) tr s) (hl : s.loc .main = .finished) :
    ∃ l, I s.glob.matrix l ∧ (routine l).cancelPoint = true ∧ s.glob.printed =
      utf8 "Thread cancelled\nMatrix :\n" ++ printArray s.glob.matrix := by
  have hi := inv_run hf h
  exact ⟨_, hi.cells, hi.dead (hi.joined (.inr hl)), hi.printed hl⟩

end Routine

theorem sync_flips : Flips routineSync (.access (.clear 0 0)) SyncPc.At where
  start := ⟨by decide, by decide, fun _ _ _ _ => rfl⟩
  step l _ _ h := sync_at l h
  plain l := by
    cases l with
    | access p => cases p <;> trivial
    | testcancel => trivial
  awake l := by
    cases l with
    | access p => cases p <;> rfl
    | testcancel => rfl

theorem async_flips : Flips routineAsync .setcanceltype AsyncPc.At where
  start _ _ _ _ := rfl
  step l _ _ h := async_at l h
  plain l := by
    cases l with
    | access p => cases p <;> trivial
    | _ => trivial
  awake l := by
    cases l with
    | access p => cases p <;> rfl
    | _ => rfl

theorem printArray_congr {m m' : ℕ → ℕ → ℤ} (h : ∀ a < size, ∀ b < size, m a b = m' a b) :
    printArray m = printArray m' := by
  unfold printArray
  refine List.flatMap_congr fun i hi => ?_
  congr 2
  refine List.flatMap_congr fun j hj => ?_
  rw [h i (List.mem_range.mp hi) j (List.mem_range.mp hj)]

variable {R : Type} {s : State SyncPc} {s' : State AsyncPc} {tr : List (Label SyncPc)}
variable {tr' : List (Label AsyncPc)}

/-- A deferred cancellation leaves no round undone: all cells are 0 or all are 1. -/
theorem sync_uniform (h : cancelSync.Run Joins (init (.access (.clear 0 0))) tr s)
    (hl : s.loc .main = .finished) : ∃ v, (v = 0 ∨ v = 1) ∧
      s.glob.printed = utf8 "Thread cancelled\nMatrix :\n" ++ printArray fun _ _ => v := by
  obtain ⟨l, hi, hp, hout⟩ := printed_of_cancelled sync_flips h hl
  cases l with
  | access p => cases p <;> cases hp
  | testcancel =>
    obtain ⟨v, hv, hu⟩ := hi
    exact ⟨v, hv, by rw [hout, printArray_congr hu]⟩

/-- Cancelled in the first round. -/
theorem sync_of_first_round : ∃ tr s, cancelSync.Run Joins (init (.access (.clear 0 0))) tr s ∧
    s.loc .main = .finished ∧ tr.length = 306 ∧ ∃ v, (v = 0 ∨ v = 1) ∧
      s.glob.printed = utf8 "Thread cancelled\nMatrix :\n" ++ printArray fun _ _ => v := by
  have hrun : ∃ tr s, cancelSync.Run Joins (init (.access (.clear 0 0))) tr s ∧
      s.loc .main = .finished ∧ tr.length = 306 := by
    refine run_of_check (burst .main 1 ++ burst .routine 120 ++ burst .main 2 ++
      burst .routine 180 ++ [.die .routine] ++ burst .main 2) ?_
    decide +kernel
  obtain ⟨tr, s, h, hl, hn⟩ := hrun
  exact ⟨tr, s, h, hl, hn, sync_uniform h hl⟩

/-- An asynchronous cancellation can come anywhere: the cells before some place, row after
row, are flipped and the others are not. -/
theorem async_swept (h : cancelAsync.Run Joins (init .setcanceltype) tr' s')
    (hl : s'.loc .main = .finished) : ∃ v, (v = 0 ∨ v = 1) ∧ ∃ n, s'.glob.printed =
      utf8 "Thread cancelled\nMatrix :\n" ++
        printArray fun i j => if size * i + j < n then 1 - v else v := by
  obtain ⟨l, hi, hp, hout⟩ := printed_of_cancelled async_flips h hl
  have hround : ∀ {i j v}, Round i j s'.glob.matrix v → ∃ v, (v = 0 ∨ v = 1) ∧ ∃ n,
      s'.glob.printed = utf8 "Thread cancelled\nMatrix :\n" ++
        printArray fun i j => if size * i + j < n then 1 - v else v := by
    intro i j v hr
    refine ⟨v, hr.bit, size * i + j, ?_⟩
    rw [hout, printArray_congr fun a ha b hb => ?_]
    have hiff : size * a + b < size * i + j ↔ a < i ∨ a = i ∧ b < j := by
      have hj := hr.col
      unfold size at hb hj ⊢
      omega
    simp only [hr.swept a ha b hb, hiff]
  cases l with
  | cancel p =>
    cases p with
    | clear i j =>
      refine ⟨0, .inl rfl, 0, ?_⟩
      rw [hout, printArray_congr hi.2.2]
      simp
    | test i j =>
      obtain ⟨v, hr⟩ := hi
      exact hround hr
    | store i j w =>
      obtain ⟨v, hr, -⟩ := hi
      exact hround hr
  | access p => cases p <;> cases hp
  | setcanceltype => cases hp

/-- Cancelled at the fourth cell of the second row. -/
theorem async_in_second_row : ∃ tr s, cancelAsync.Run Joins (init .setcanceltype) tr s ∧
    s.loc .main = .finished ∧ s.loc .routine = .cancel (.test 1 3) ∧ ∃ v, (v = 0 ∨ v = 1) ∧
      ∃ n, s.glob.printed = utf8 "Thread cancelled\nMatrix :\n" ++
        printArray fun i j => if size * i + j < n then 1 - v else v := by
  have hrun : ∃ tr s, cancelAsync.Run Joins (init .setcanceltype) tr s ∧
      s.loc .main = .finished ∧ s.loc .routine = .cancel (.test 1 3) := by
    refine run_of_check (burst .main 1 ++ burst .routine 253 ++ burst .main 2 ++
      [.die .routine] ++ burst .main 2) ?_
    decide +kernel
  obtain ⟨tr, s, h, hl, hr⟩ := hrun
  exact ⟨tr, s, h, hl, hr, async_swept h hl⟩

end Cancel
