import SistemasOperativos.Descriptors.Code

/-!
# Descriptors are used up

The copy of descriptor 0 is never closed: a round takes one slot for good. When no slot is
left for it, descriptor 0 stays the end of the pipe.
-/
namespace Descriptors

open Table Process

variable {p q : Process} {t : Table File} {f : File} {i n : ℕ} {rounds : List Bool}

/-- After a round the same descriptors are open, descriptor 0 is the standard input, and
no call has failed. -/
def Same (p q : Process) : Prop :=
  q.table.opened = p.table.opened ∧ q.table.file 0 = some .stdin ∧ q.failed = false

def Kept {ι : Type} (step : ι → Process → Process) : List ι → Process → Prop
  | [], _ => True
  | r :: rounds, p => Same p (step r p) ∧ Kept step rounds (step r p)

/-! ## The loops over `num_proc` -/

/-- What a round does to the table when it has two slots for the pipe. -/
theorem measure_pipe (h0 : p.table.file 0 = some f) (hfree : 2 ≤ p.table.free) :
    ∃ (a b : ℕ) (t : Table File), a ≠ b ∧ a ≠ 0 ∧ b ≠ 0 ∧ t.length = p.table.length ∧
      t.free + 2 = p.table.free ∧ t.file 0 = some f ∧ t.file a = some (.read i) ∧
      t.file b = some (.write i) ∧ p.pipe i = { p with table := t, fds := ((a : ℤ), (b : ℤ)) } := by
  obtain ⟨a, b, hab, ha, hb, ha0, hb0, hpipe⟩ := pipe_some hfree (.read i) (.write i)
  have hfa := free_open ha ha0 (.read i)
  have hne : a ≠ 0 ∧ b ≠ 0 := ⟨(ne_of_file (i := 0) h0 ha0).symm, (ne_of_file (i := 0) h0 hb0).symm⟩
  have hb' : b < (p.table.put a (some (.read i))).length := by rwa [length_put]
  have hfb := free_open hb' ((file_put_of_ne hab _).trans hb0) (.write i)
  refine ⟨a, b, _, hab, hne.1, hne.2, ?_, ?_, ?_, ?_, file_put_self hb' _, ?_⟩
  · rw [length_put, length_put]
  · omega
  · exact ((file_put_of_ne hne.2 _).trans (file_put_of_ne hne.1 _)).trans h0
  · exact (file_put_of_ne hab.symm _).trans (file_put_self ha _)
  · simp [Process.pipe, hpipe]

/-- Descriptor 0 becomes the end of the pipe, and the two others are closed. -/
theorem redirect {a b : ℕ} {r w : File} (hab : a ≠ b) (ha0 : a ≠ 0) (hb0 : b ≠ 0)
    (h0 : t.file 0 = some f) (ha : t.file a = some r) (hb : t.file b = some w) :
    (((t.dup2 a 0).close a).close b).length = t.length ∧
      (((t.dup2 a 0).close a).close b).free = t.free + 2 ∧
      (((t.dup2 a 0).close a).close b).file 0 = some r ∧
      ∀ c : ℕ, c ≠ 0 → c ≠ a → c ≠ b → (((t.dup2 a 0).close a).close b).file c = t.file c := by
  have hdup2 : t.dup2 a 0 = t.put 0 (some r) := dup2_some ha 0
  have hlt : 0 < t.length := lt_of_file (i := 0) h0
  have hfree : (t.put 0 (some r)).free = t.free := free_replace (i := 0) h0 r
  have ha' : (t.put 0 (some r)).file a = some r := (file_put_of_ne ha0.symm _).trans ha
  have hb' : ((t.put 0 (some r)).put a none).file b = some w :=
    (file_put_of_ne hab _).trans ((file_put_of_ne hb0.symm _).trans hb)
  have hca := free_close ha'
  have hcb := free_close hb'
  rw [hdup2, close_nat, close_nat]
  refine ⟨?_, by omega, ?_, fun c hc0 hca hcb => ?_⟩
  · rw [length_put, length_put, length_put]
  · exact ((file_put_of_ne hb0 _).trans (file_put_of_ne ha0 _)).trans (file_put_self hlt _)
  · rw [file_put_of_ne hcb.symm, file_put_of_ne hca.symm, file_put_of_ne hc0.symm]

theorem measure_spec (h0 : p.table.file 0 = some .stdin) (hfree : 3 ≤ p.table.free) (i : ℕ) :
    (measure i p).table.length = p.table.length ∧
      (measure i p).table.free + 1 = p.table.free ∧
      (measure i p).table.file 0 = some .stdin ∧ (measure i p).failed = p.failed := by
  obtain ⟨a, b, t, hab, ha0, hb0, hlen, hleft, ht0, hta, htb, hpipe⟩ :=
    measure_pipe (i := i) h0 (by omega)
  obtain ⟨c, hc, hcnone, hdup⟩ := dup_some (i := 0) ht0 (by omega)
  have hc0 : c ≠ 0 := (ne_of_file (i := 0) ht0 hcnone).symm
  have hca : c ≠ a := (ne_of_file hta hcnone).symm
  have hcb : c ≠ b := (ne_of_file htb hcnone).symm
  have hopen := free_open hc hcnone .stdin
  obtain ⟨hlen', hfree', h0', hother⟩ := redirect (t := t.put c (some .stdin)) hab ha0 hb0
    ((file_put_of_ne hc0 _).trans ht0) ((file_put_of_ne hca _).trans hta)
    ((file_put_of_ne hcb _).trans htb)
  have hcopy := (hother c hc0 hca hcb).trans (file_put_self hc _)
  have hmeasure : measure i p =
      { table := ((((t.put c (some .stdin)).dup2 a 0).close a).close b).put 0 (some .stdin),
        fds := ((a : ℤ), (b : ℤ)), failed := p.failed } := by
    have hdup' : t.dup 0 = ((c : ℤ), t.put c (some .stdin)) := hdup
    have hback := dup2_some hcopy 0
    have hpos : (c : ℤ) ≠ -1 := by omega
    simp only [measure, hpipe, Process.dup, hdup', Process.dup2, Process.close, hpos,
      decide_false, Bool.or_false]
    exact congrArg (Process.mk · _ _) hback
  rw [hmeasure]
  refine ⟨?_, ?_, ?_, rfl⟩
  · rw [length_put, hlen', length_put, hlen]
  · have hreplace : (((((t.put c (some .stdin)).dup2 a 0).close a).close b).put 0
        (some .stdin)).free = _ := free_replace (i := 0) h0' .stdin
    dsimp only
    omega
  · exact file_put_self (lt_of_file (i := 0) h0') _

/-- With two slots left there is none for the copy. -/
theorem measure_full (h0 : p.table.file 0 = some f) (hfree : p.table.free = 2) (i : ℕ) :
    (measure i p).table.free = 2 ∧ (measure i p).table.file 0 = some (.read i) ∧
      (measure i p).failed = true := by
  obtain ⟨a, b, t, hab, ha0, hb0, hlen, hleft, ht0, hta, htb, hpipe⟩ :=
    measure_pipe (i := i) h0 (by omega)
  obtain ⟨-, hfree', h0', -⟩ := redirect hab ha0 hb0 ht0 hta htb
  have hdup : t.dup 0 = (-1, t) := dup_full (by omega) 0
  have hmeasure : measure i p =
      { table := ((t.dup2 a 0).close a).close b, fds := ((a : ℤ), (b : ℤ)), failed := true } := by
    simp [measure, hpipe, Process.dup, hdup, Process.dup2, Process.close, dup2_failed]
  rw [hmeasure]
  exact ⟨by dsimp only; omega, h0', rfl⟩

theorem run_append {ι : Type} (step : ι → Process → Process) (rs rs' : List ι) (p : Process) :
    run step (rs ++ rs') p = run step rs' (run step rs p) :=
  List.foldl_append

theorem measured_enough (h0 : p.table.file 0 = some .stdin) (hn : n + 2 ≤ p.table.free) :
    (run measure (List.range n) p).table.free + n = p.table.free ∧
      (run measure (List.range n) p).table.file 0 = some .stdin ∧
      (run measure (List.range n) p).failed = p.failed := by
  induction n with
  | zero => exact ⟨rfl, h0, rfl⟩
  | succ n ih =>
    obtain ⟨hfree, hfile, hfailed⟩ := ih (by omega)
    obtain ⟨-, hfree', hfile', hfailed'⟩ := measure_spec hfile (by omega) n
    rw [List.range_succ, run_append]
    exact ⟨by change (measure n _).table.free + _ = _; omega, hfile', hfailed'.trans hfailed⟩

theorem measured_full (h0 : p.table.file 0 = some .stdin) (h2 : 2 ≤ p.table.free)
    (hn : p.table.free < n + 2) :
    (run measure (List.range n) p).table.free = 2 ∧
      (∃ i, (run measure (List.range n) p).table.file 0 = some (.read i)) ∧
      (run measure (List.range n) p).failed = true := by
  induction n with
  | zero => omega
  | succ n ih =>
    have hbefore : (run measure (List.range n) p).table.free = 2 ∧
        ∃ f, (run measure (List.range n) p).table.file 0 = some f := by
      by_cases hlt : p.table.free < n + 2
      · obtain ⟨hfree, ⟨i, hfile⟩, -⟩ := ih hlt
        exact ⟨hfree, _, hfile⟩
      · obtain ⟨hfree, hfile, -⟩ := measured_enough h0 (Nat.le_of_not_lt hlt)
        exact ⟨by omega, _, hfile⟩
    obtain ⟨hfree, f, hfile⟩ := hbefore
    obtain ⟨hfree', hfile', hfailed'⟩ := measure_full hfile hfree n
    rw [List.range_succ, run_append]
    exact ⟨hfree', ⟨n, hfile'⟩, hfailed'⟩

/-- The first round already leaves a descriptor more. -/
theorem kept_measure (h0 : p.table.file 0 = some .stdin) (hfree : 3 ≤ p.table.free) :
    Kept measure (List.range n) p ↔ n = 0 := by
  constructor
  · intro h
    cases n with
    | zero => rfl
    | succ n =>
      rw [List.range_succ_eq_map] at h
      obtain ⟨hlen, hless, -, -⟩ := measure_spec h0 hfree 0
      have heq := free_eq_of_opened hlen h.1.1
      omega
  · rintro rfl
    trivial

/-! ## The command loop -/

/-- Descriptor `a` is the end of the pipe that the loop reads from. -/
structure Attached (a : ℕ) (p : Process) : Prop where
  fds : p.fds.1 = a
  ne : a ≠ 0
  pipe : p.table.file a = some (.read 0)
  input : (p.table.file 0).isSome = true

theorem openPipe_spec (h0 : p.table.file 0 = some .stdin) (hfree : 2 ≤ p.table.free) :
    (∃ a, Attached a (openPipe p)) ∧ (openPipe p).table.file 0 = some .stdin ∧
      (openPipe p).table.free + 1 = p.table.free ∧ (openPipe p).failed = p.failed := by
  obtain ⟨a, b, t, hab, ha0, hb0, -, hleft, ht0, hta, htb, hpipe⟩ := measure_pipe (i := 0) h0 hfree
  have hopen : openPipe p = { table := t.put b none, fds := ((a : ℤ), (b : ℤ)), failed := p.failed } := by
    simp only [openPipe, hpipe, Process.close, close_nat]
  have hclose := free_close htb
  have h0' : (t.put b none).file 0 = some .stdin := (file_put_of_ne hb0 _).trans ht0
  rw [hopen]
  refine ⟨⟨a, rfl, ha0, (file_put_of_ne hab.symm _).trans hta, ?_⟩, h0', by dsimp only; omega, rfl⟩
  rw [h0']
  rfl

theorem command_spec {a : ℕ} (ha : Attached a p) (h0 : p.table.file 0 = some .stdin)
    (hfree : 0 < p.table.free) : Attached a (command true p) ∧
      (command true p).table.file 0 = some .stdin ∧
      (command true p).table.free + 1 = p.table.free ∧
      (command true p).table.length = p.table.length ∧ (command true p).failed = p.failed := by
  obtain ⟨c, hc, hcnone, hdup⟩ := dup_some (i := 0) h0 hfree
  have hc0 : c ≠ 0 := (ne_of_file (i := 0) h0 hcnone).symm
  have hca : c ≠ a := (ne_of_file ha.pipe hcnone).symm
  have hopen := free_open hc hcnone .stdin
  have h0' : (p.table.put c (some .stdin)).file 0 = some .stdin := (file_put_of_ne hc0 _).trans h0
  have ha' := (file_put_of_ne hca (some .stdin)).trans ha.pipe
  have hdup2 : (p.table.put c (some .stdin)).dup2 a 0 = _ := dup2_some ha' 0
  have hcopy := (file_put_of_ne hc0.symm (some (.read 0))).trans (file_put_self hc (some .stdin))
  have hback := dup2_some hcopy 0
  have hpos : (c : ℤ) ≠ -1 := by omega
  have hcommand : command true p = { p with
      table := ((p.table.put c (some .stdin)).put 0 (some (.read 0))).put 0 (some .stdin) } := by
    have hdup' : p.table.dup 0 = ((c : ℤ), p.table.put c (some .stdin)) := hdup
    simp only [command, if_true, Process.dup, hdup', Process.dup2, ha.fds, hdup2, hpos, decide_false,
      Bool.or_false]
    exact congrArg (Process.mk · _ _) hback
  have hlt : 0 < (p.table.put c (some .stdin)).length := lt_of_file (i := 0) h0'
  have hread := file_put_self hlt (some (.read 0))
  have hin := file_put_self (lt_of_file hread) (some .stdin)
  have hpipe := (file_put_of_ne ha.ne.symm (some .stdin)).trans
    ((file_put_of_ne ha.ne.symm (some (.read 0))).trans ha')
  have hfree1 : ((p.table.put c (some .stdin)).put 0 (some (.read 0))).free = _ :=
    free_replace (i := 0) h0' (.read 0)
  have hfree2 := free_replace hread .stdin
  rw [hcommand]
  refine ⟨⟨ha.fds, ha.ne, hpipe, congrArg Option.isSome hin⟩, hin, ?_, ?_, rfl⟩
  · dsimp only
    omega
  · simp only [length_put]

/-- With no slot left for the copy. -/
theorem command_full {a : ℕ} (ha : Attached a p) (hfree : p.table.free = 0) :
    Attached a (command true p) ∧ (command true p).table.file 0 = some (.read 0) ∧
      (command true p).table.free = 0 ∧ (command true p).failed = true := by
  have hdup : p.table.dup 0 = (-1, p.table) := dup_full hfree 0
  have hdup2 : p.table.dup2 a 0 = p.table.put 0 (some (.read 0)) := dup2_some ha.pipe 0
  have hcommand : command true p =
      { table := p.table.put 0 (some (.read 0)), fds := p.fds, failed := true } := by
    simp [command, Process.dup, hdup, Process.dup2, ha.fds, hdup2, dup2_failed]
  obtain ⟨f, hf⟩ := Option.isSome_iff_exists.mp ha.input
  have hread := file_put_self (lt_of_file (i := 0) hf) (some (.read 0))
  have hreplace : (p.table.put 0 (some (.read 0))).free = _ := free_replace (i := 0) hf (.read 0)
  rw [hcommand]
  exact ⟨⟨ha.fds, ha.ne, (file_put_of_ne ha.ne.symm _).trans ha.pipe, congrArg Option.isSome hread⟩,
    hread, hreplace.trans hfree, rfl⟩

theorem run_cons {ι : Type} (step : ι → Process → Process) (r : ι) (rs : List ι) (p : Process) :
    run step (r :: rs) p = run step rs (step r p) := rfl

theorem commands_enough (rounds : List Bool) {a : ℕ} (ha : Attached a p) (h0 : p.table.file 0 = some .stdin)
    (hn : rounds.count true ≤ p.table.free) : (run command rounds p).table.file 0 = some .stdin ∧
      (run command rounds p).failed = p.failed := by
  induction rounds generalizing p with
  | nil => exact ⟨h0, rfl⟩
  | cons r rounds ih =>
    rw [run_cons]
    cases r with
    | false => exact ih ha h0 (by simpa [command] using hn)
    | true =>
      rw [List.count_cons_self] at hn
      obtain ⟨ha', h0', hfree, -, hfailed⟩ := command_spec ha h0 (by omega)
      obtain ⟨hfile, hfailed'⟩ := ih ha' h0' (by omega)
      exact ⟨hfile, hfailed'.trans hfailed⟩

/-- A table that is full stays so, with the pipe as descriptor 0. -/
theorem commands_stuck {a : ℕ} (ha : Attached a p) (hread : p.table.file 0 = some (.read 0))
    (hfree : p.table.free = 0) (hfailed : p.failed = true) :
    (run command rounds p).table.file 0 = some (.read 0) ∧ (run command rounds p).failed = true := by
  induction rounds generalizing p with
  | nil => exact ⟨hread, hfailed⟩
  | cons r rounds ih =>
    rw [run_cons]
    cases r with
    | false => exact ih ha hread hfree hfailed
    | true =>
      obtain ⟨ha', hread', hfree', hfailed'⟩ := command_full ha hfree
      exact ih ha' hread' hfree' hfailed'

theorem commands_full (rounds : List Bool) {a : ℕ} (ha : Attached a p) (h0 : p.table.file 0 = some .stdin)
    (hn : p.table.free < rounds.count true) :
    (run command rounds p).table.file 0 = some (.read 0) ∧ (run command rounds p).failed = true := by
  induction rounds generalizing p with
  | nil => cases hn
  | cons r rounds ih =>
    rw [run_cons]
    cases r with
    | false => exact ih ha h0 (by simpa [command] using hn)
    | true =>
      rw [List.count_cons_self] at hn
      obtain hfree | hfree := Nat.eq_zero_or_pos p.table.free
      · obtain ⟨ha', hread, hfree', hfailed⟩ := command_full ha hfree
        exact commands_stuck ha' hread hfree' hfailed
      · obtain ⟨ha', h0', hless, -, -⟩ := command_spec ha h0 hfree
        exact ih ha' h0' (by omega)

theorem kept_command {a : ℕ} (ha : Attached a p) (h0 : p.table.file 0 = some .stdin)
    (hok : p.failed = false) : Kept command rounds p ↔ ∀ r ∈ rounds, r = false := by
  induction rounds with
  | nil => simp [Kept]
  | cons r rounds ih =>
    cases r with
    | false =>
      have hsame : Same p (command false p) := ⟨rfl, h0, hok⟩
      simp only [Kept, hsame, true_and, List.mem_cons, forall_eq_or_imp]
      exact ih
    | true =>
      refine ⟨fun h => ?_, fun h => by cases h true List.mem_cons_self⟩
      obtain hfree | hfree := Nat.eq_zero_or_pos p.table.free
      · cases (command_full ha hfree).2.1.symm.trans h.1.2.1
      · obtain ⟨-, -, hless, hlen, -⟩ := command_spec ha h0 hfree
        have heq := free_eq_of_opened hlen h.1.1
        omega

/-! ## The programs -/

/-- The open descriptors are kept only where no round is made. How long no call fails,
and descriptor 0 is the standard input, is as long as there are slots for the copies. -/
theorem descriptors_kept (h0 : p.table.file 0 = some .stdin) (hfree : 3 ≤ p.table.free)
    (hok : p.failed = false) :
    (∀ n, (Kept measure (List.range n) p ↔ n = 0) ∧
      ((procTime n p).failed = false ↔ n + 2 ≤ p.table.free) ∧
      ((procTime n p).table.file 0 = some .stdin ↔ n + 2 ≤ p.table.free) ∧
      ((problema2 n p).failed = false ↔ n + 2 ≤ p.table.free) ∧
      ((problema2 n p).table.file 0 = some .stdin ↔ n + 2 ≤ p.table.free)) ∧
    ∀ rounds, (Kept command rounds (openPipe p) ↔ ∀ r ∈ rounds, r = false) ∧
      ((problema1 rounds p).failed = false ↔ rounds.count true + 1 ≤ p.table.free) ∧
      ((problema1 rounds p).table.file 0 = some .stdin ↔ rounds.count true + 1 ≤ p.table.free) := by
  have hloop : ∀ n, ((run measure (List.range n) p).failed = false ↔ n + 2 ≤ p.table.free) ∧
      ((run measure (List.range n) p).table.file 0 = some .stdin ↔ n + 2 ≤ p.table.free) := by
    intro n
    by_cases hn : n + 2 ≤ p.table.free
    · obtain ⟨-, hfile, hfailed⟩ := measured_enough h0 hn
      simp [hn, hfile, hfailed, hok]
    · obtain ⟨-, ⟨i, hfile⟩, hfailed⟩ := measured_full h0 (by omega) (Nat.lt_of_not_le hn)
      simp [hn, hfile, hfailed]
  refine ⟨fun n => ⟨kept_measure h0 hfree, (hloop n).1, (hloop n).2, hloop n⟩, fun rounds => ?_⟩
  obtain ⟨⟨a, ha⟩, h0', hless, hok'⟩ := openPipe_spec h0 (by omega)
  refine ⟨kept_command ha h0' (hok'.trans hok), ?_⟩
  by_cases hn : rounds.count true + 1 ≤ p.table.free
  · obtain ⟨hfile, hfailed⟩ := commands_enough rounds ha h0' (by omega)
    simp [problema1, hn, hfile, hfailed, hok', hok]
  · obtain ⟨hfile, hfailed⟩ := commands_full rounds ha h0' (by omega)
    simp [problema1, hn, hfile, hfailed]

/-- A table of `slots + 3` descriptors with the standard ones open. -/
def atStart (slots : ℕ) : Process where
  table := some .stdin :: some (.other 1) :: some (.other 2) :: List.replicate slots none
  fds := (-1, -1)
  failed := false

/-- Ten descriptors are enough for five rounds, and each of them takes one. -/
theorem descriptors_kept_ten : (procTime 5 (atStart 7)).failed = false ∧
    (procTime 5 (atStart 7)).table.file 0 = some .stdin ∧
    ¬ Kept measure (List.range 5) (atStart 7) := by
  have h := (descriptors_kept (p := atStart 7) rfl (by decide) rfl).1 5
  exact ⟨h.2.1.mpr (by decide), h.2.2.1.mpr (by decide), fun hkept => by cases h.1.mp hkept⟩

/-- One round leaves a descriptor more, and after six of them the parent has lost its
standard input. -/
theorem descriptors_run_out : ¬ Kept measure (List.range 1) (atStart 7) ∧
    (measure 0 (atStart 7)).table.opened = insert 5 (atStart 7).table.opened ∧
    (procTime 6 (atStart 7)).failed = true ∧
    (procTime 6 (atStart 7)).table.file 0 = some (.read 5) := by
  refine ⟨fun h => ?_, ?_, ?_, ?_⟩
  · cases (kept_measure (p := atStart 7) rfl (by decide)).mp h
  · decide
  · decide
  · decide

end Descriptors
