import SistemasOperativos.Descriptors.Leak

/-!
# Where the commands write

`problema1.c` closes the write end of its pipe before the first command. The number is free
then, and the first copy of the standard input takes it. Every child redirects its output to
that number.
-/
namespace Descriptors

open Table Process

variable {p : Process} {a b : ℕ} {out : File} {r : Bool} {rounds : List Bool}

/-- The descriptors of a child after `dup2(fds[1], 1)`. -/
def Process.child (p : Process) : Table File := p.table.dup2 p.fds.2 1

/-- `a` and `b` were the ends of the pipe, and nobody has the second any more. -/
structure Piped (a b : ℕ) (out : File) (p : Process) : Prop where
  fds : p.fds = ((a : ℤ), (b : ℤ))
  ha : a ≠ 0
  hb : b ≠ 0
  read : p.table.file a = some (.read 0)
  output : p.table.file 1 = some out
  unwritten : some (.write 0) ∉ p.table

/-- No command was made. -/
structure Fresh (b : ℕ) (p : Process) : Prop where
  lowest : p.table.lowest = some b
  input : p.table.file 0 = some .stdin

/-! ## Before the loop -/

theorem openPipe_piped (h0 : p.table.file 0 = some .stdin) (h1 : p.table.file 1 = some out)
    (hfree : 2 ≤ p.table.free) (hw : some (.write 0) ∉ p.table) :
    ∃ a b, Piped a b out (openPipe p) ∧ Fresh b (openPipe p) := by
  obtain ⟨a, ha⟩ := exists_lowest (t := p.table) (by omega)
  obtain ⟨hlt, hnone⟩ := lowest_spec ha
  have hleft := free_open hlt hnone (.read 0)
  obtain ⟨b, hb⟩ := exists_lowest (t := p.table.put a (some (.read 0))) (by omega)
  have hclosed := put_put_none (lowest_spec hb).2 (some (.write 0))
  have hopen : openPipe p =
      { p with table := p.table.put a (some (.read 0)), fds := ((a : ℤ), (b : ℤ)) } := by
    simp [openPipe, Process.pipe, Table.pipe, ha, hb, Process.close, close_nat, hclosed]
  have ha0 : a ≠ 0 := by
    intro h
    subst h
    cases h0.symm.trans hnone
  have ha1 : a ≠ 1 := by
    intro h
    subst h
    cases h1.symm.trans hnone
  have h0' : (p.table.put a (some (.read 0))).file 0 = some .stdin := (file_put_of_ne ha0 _).trans h0
  refine ⟨a, b, ?_, ?_⟩ <;> rw [hopen]
  · constructor
    · simp
    · exact ha0
    · intro h
      subst h
      cases h0'.symm.trans (lowest_spec hb).2
    · exact file_put_self hlt _
    · exact (file_put_of_ne ha1 _).trans h1
    · intro hmem
      rcases mem_put hmem with h | h
      · exact hw h
      · cases h
  · exact ⟨hb, h0'⟩

/-! ## One command -/

/-- A command leaves every open descriptor but 0 as it is. -/
theorem command_keeps {i : ℕ} {f : File} (hi : i ≠ 0) (h : p.table.file i = some f) :
    (command r p).table.file i = some f := by
  cases r with
  | false => exact h
  | true =>
    have hdup := dup_keeps h 0
    have hne : (0 : ℤ) ≠ i := by omega
    have hread := (dup2_keeps (t := (p.table.dup 0).2) hne p.fds.1).trans hdup
    exact (dup2_keeps hne _).trans hread

theorem command_unwritten (h : some (.write 0) ∉ p.table) :
    some (.write 0) ∉ (command r p).table := by
  cases r with
  | false => exact h
  | true =>
    intro hmem
    apply h
    exact mem_dup (mem_dup2 (mem_dup2 hmem))

theorem command_piped (h : Piped a b out p) : Piped a b out (command r p) where
  fds := by cases r <;> exact h.fds
  ha := h.ha
  hb := h.hb
  read := command_keeps h.ha h.read
  output := command_keeps Nat.one_ne_zero h.output
  unwritten := command_unwritten h.unwritten

/-- The copy of the standard input stays at the number of the end that was closed. -/
theorem command_first (h : Piped a b out p) (hf : Fresh b p) :
    (command true p).table.file b = some .stdin := by
  have hdup : p.table.dup 0 = ((b : ℤ), p.table.put b (some .stdin)) := by
    simp [Table.dup, hf.input, hf.lowest]
  have hcopy : (p.table.put b (some .stdin)).file b = some .stdin :=
    file_put_self (lowest_spec hf.lowest).1 _
  have hne : (0 : ℤ) ≠ b := by
    have := h.hb
    omega
  have hread := (dup2_keeps hne p.fds.1).trans hcopy
  have htable : (command true p).table =
      ((p.table.put b (some .stdin)).dup2 p.fds.1 0).dup2 b 0 := by
    simp [command, Process.dup, Process.dup2, hdup]
  rw [htable]
  exact (dup2_keeps hne b).trans hread

/-! ## The loop -/

theorem run_piped (h : Piped a b out p) : Piped a b out (run command rounds p) := by
  induction rounds generalizing p with
  | nil => exact h
  | cons r rounds ih => exact ih (command_piped h)

theorem run_copy (h : Piped a b out p) (hb : p.table.file b = some .stdin) :
    (run command rounds p).table.file b = some .stdin := by
  induction rounds generalizing p with
  | nil => exact hb
  | cons r rounds ih => exact ih (command_piped h) (command_keeps h.hb hb)

/-- The number is free up to the first command. -/
theorem run_fresh (h : Piped a b out p) (hf : Fresh b p) :
    (run command rounds p).table.file b = if true ∈ rounds then some .stdin else none := by
  induction rounds with
  | nil => exact (lowest_spec hf.lowest).2
  | cons r rounds ih =>
    cases r with
    | false => simpa [run_cons, command] using ih
    | true =>
      have hcopy : (run command rounds (command true p)).table.file b = some .stdin :=
        run_copy (command_piped h) (command_first h hf)
      simpa [run_cons] using hcopy

theorem child_output (h : Piped a b out p) :
    p.child.file 1 = some ((p.table.file b).getD out) := by
  have hfds : p.fds.2 = b := congrArg Prod.snd h.fds
  have hlt : 1 < p.table.length := lt_of_file (i := 1) h.output
  unfold Process.child
  rw [hfds]
  cases hb : p.table.file b with
  | none =>
    rcases dup2_cases p.table b 1 with hdup | ⟨f, hf, -, -⟩
    · rw [hdup]
      exact h.output
    · cases hb.symm.trans hf
  | some f =>
    have hdup : p.table.dup2 b 1 = p.table.put 1 (some f) := dup2_some hb 1
    rw [hdup]
    exact file_put_self hlt _

/-- Whatever was typed so far, the output of the next command goes to the file that the shell
has its commands from, unless it is the first one. No process has a write end of the pipe that
the shell reads from. -/
theorem output_to_input (h0 : p.table.file 0 = some .stdin) (h1 : p.table.file 1 = some out)
    (hfree : 2 ≤ p.table.free) (hw : some (.write 0) ∉ p.table) (rounds : List Bool) :
    (problema1 rounds p).child.file 1 = some (if true ∈ rounds then .stdin else out) ∧
    (problema1 rounds p).table.file (problema1 rounds p).fds.1 = some (.read 0) ∧
    some (.write 0) ∉ (problema1 rounds p).table ∧
    some (.write 0) ∉ (problema1 rounds p).child := by
  obtain ⟨a, b, hp, hf⟩ := openPipe_piped h0 h1 hfree hw
  have hrun : Piped a b out (problema1 rounds p) := run_piped hp
  have hb : (problema1 rounds p).table.file b = _ := run_fresh hp hf
  refine ⟨?_, ?_, hrun.unwritten, fun hmem => hrun.unwritten (mem_dup2 hmem)⟩
  · rw [child_output hrun, hb]
    split <;> simp
  · have hfds : (problema1 rounds p).fds.1 = a := congrArg Prod.fst hrun.fds
    rw [hfds]
    exact hrun.read

/-- A blank line, and then the third command of ten descriptors. -/
theorem third_command_to_input :
    (problema1 [false, true, true] (atStart 7)).child.file 1 = some .stdin ∧
    (problema1 [false] (atStart 7)).child.file 1 = some (.other 1) := by
  have h : ∀ rounds, (problema1 rounds (atStart 7)).child.file 1 =
      some (if true ∈ rounds then .stdin else .other 1) ∧ _ :=
    output_to_input rfl rfl (by decide) (by decide)
  exact ⟨(h [false, true, true]).1, (h [false]).1⟩

end Descriptors
