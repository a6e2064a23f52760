import SistemasOperativos.Descriptors.Leak
import SistemasOperativos.Shell.Commands

/-!
# One command per line

The shell shares the offset of its input with its children, and gives its descriptors away
and takes them back in every round. Where nothing of this touches the input, the rounds are
those of a text.
-/
namespace Shell

open Text
open Descriptors (File Process Table openPipe)

variable {e : Session} {prog : Program} {st st' st'' : Parent} {all args rest : List Args}
variable {lines : List (List Byte)} {p : Process} {f : OpenFile} {ch ch2 : Vector Byte buff}

/-! ## Rounds that leave the input alone -/

/-- The round has a child, and this is what the shell has of its input then. -/
def Forks (e : Session) (st : Parent) (args : Option Args) (stdin : Stream) : Prop :=
  ∃ strings, next e st = some (some (.fork args, strings, stdin))

/-- Descriptor 0 is the input, a child that comes back has nothing to give back of it, a
command does not touch it, and the parent does not read it through `fds`. -/
structure Undisturbed (e : Session) (st : Parent) : Prop where
  input : st.process.table.file 0 = some .stdin
  child : ∀ args stdin, Forks e st args stdin → comesBack e st.calls args = true →
    (childProcess st.process).table.file 0 = some .stdin →
    stdin.unread = [] ∨ stdin.file.seekable = false
  command : ∀ args stdin, Forks e st args stdin → comesBack e st.calls args = false →
    e.command st.calls stdin.file = stdin.file
  parent : ∀ args stdin, Forks e st args stdin →
    (waiting st.process).table.file st.process.fds.1 ≠ some .stdin

theorem childExit_undisturbed {stdin : Stream} {args : Option Args} (h : Undisturbed e st)
    (hf : Forks e st args stdin) : childExit e st.calls args st.process stdin = stdin := by
  cases hback : comesBack e st.calls args with
  | false => simp [childExit, hback, h.command args stdin hf hback]
  | true =>
    rw [childExit, if_pos hback, ite_eq_right_iff]
    intro h0
    obtain hnil | hseek := h.child args stdin hf hback h0
    · exact Stream.rewind_of_nil hnil
    · exact Stream.rewind_of_not_seekable hseek

/-- The line of such a round is the first of the text that is left. -/
theorem next_left (h : st.process.table.file 0 = some .stdin) :
    (fgets buff (st.strings.mem .ch) st.stdin.left = none → next e st = some none) ∧
    ∀ text rest, fgets buff (st.strings.mem .ch) st.stdin.left = some (text, rest) →
      ∃ stdin, stdin.left = rest ∧ st.stdin.Follows stdin ∧
        next e st = (turn (st.strings.set .ch text)).map fun t => some (t.1, t.2, stdin) := by
  obtain ⟨hnone, hsome⟩ := Stream.fgets_left e.chunk_pos 198 (st.strings.mem .ch) st.stdin
  refine ⟨fun hf => ?_, fun text rest hf => ?_⟩
  · simp [next, h, incoming, show buff = 198 + 2 from rfl, hnone hf]
  · obtain ⟨stdin, hs, hleft, hfol⟩ := hsome text rest hf
    refine ⟨stdin, hleft, hfol, ?_⟩
    simp only [next, h, incoming, show buff = 198 + 2 from rfl, hs, Option.bind_eq_bind,
      Option.bind_some]
    cases turn (st.strings.set .ch text) <;> rfl

theorem round_fork {v : Option Args} {strings : State} {stdin : Stream} (prog : Program)
    (h : Undisturbed e st) (hn : next e st = some (some (.fork v, strings, stdin))) :
    round e prog st = some (some (v.toList,
      { strings := strings
        process := waited prog st.process
        stdin := stdin
        calls := st.calls + v.toList.length })) := by
  have hchild := childExit_undisturbed h ⟨strings, hn⟩
  have hread : readFds e st.process stdin = stdin := if_neg (h.parent v stdin ⟨strings, hn⟩)
  simp [round, hn, hchild, hread]

/-- A round that leaves the input alone hands over what the first line asks for. -/
theorem round_undisturbed (prog : Program) (h : Undisturbed e st) :
    (fgets buff (st.strings.mem .ch) st.stdin.left = none → round e prog st = some none) ∧
    ∀ text rest, fgets buff (st.strings.mem .ch) st.stdin.left = some (text, rest) →
      (turn (st.strings.set .ch text) = none → round e prog st = none) ∧
      ∀ t strings, turn (st.strings.set .ch text) = some (t, strings) →
        (t.args = none → round e prog st = some none) ∧
        ∀ args, t.args = some args → ∃ st', round e prog st = some (some (args, st')) ∧
          st'.strings = strings ∧ st'.stdin.left = rest := by
  obtain ⟨hnone, hsome⟩ := next_left (e := e) h.input
  refine ⟨fun hf => by simp [round, hnone hf], fun text rest hf => ?_⟩
  obtain ⟨stdin, hleft, -, hn⟩ := hsome text rest hf
  refine ⟨fun ht => by simp [round, hn, ht], fun t strings ht => ?_⟩
  have hn' : next e st = some (some (t, strings, stdin)) := by rw [hn, ht, Option.map_some]
  cases t with
  | skip =>
    refine ⟨fun ha => (by cases ha), fun args ha => ?_⟩
    cases ha
    exact ⟨{ st with strings := strings, stdin := stdin }, by simp [round, hn'], rfl, hleft⟩
  | exit => exact ⟨fun _ => by simp [round, hn'], fun args ha => (by cases ha)⟩
  | fork v =>
    refine ⟨fun ha => (by cases ha), fun args ha => ?_⟩
    cases ha
    exact ⟨_, round_fork prog h hn', rfl, hleft⟩

/-! ## Runs -/

theorem reaches_round (hr : round e prog st = some (some (args, st'))) (h : Reaches e prog st' st'') :
    Reaches e prog st st'' := by
  induction h with
  | refl => exact .round .refl hr
  | round _ hr' ih => exact .round ih hr'

theorem executes_end (h : round e prog st = some none) : Executes e prog st all ↔ all = [] := by
  constructor
  · intro hex
    cases hex with
    | ends => rfl
    | round hr => cases hr.symm.trans h
  · rintro rfl
    exact .ends h

theorem executes_round (h : round e prog st = some (some (args, st'))) :
    Executes e prog st all ↔ ∃ rest, Executes e prog st' rest ∧ args ++ rest = all := by
  constructor
  · intro hex
    cases hex with
    | ends hr => cases hr.symm.trans h
    | round hr hrest =>
      cases hr.symm.trans h
      exact ⟨_, hrest, rfl⟩
  · rintro ⟨rest, hrest, rfl⟩
    exact .round h hrest

theorem not_executes (h : round e prog st = none) : ¬ Executes e prog st all := by
  intro hex
  cases hex with
  | ends hr => cases hr.symm.trans h
  | round hr => cases hr.symm.trans h

theorem executes_unique {all' : List Args} (h : Executes e prog st all) (h' : Executes e prog st all') :
    all = all' := by
  induction h generalizing all' with
  | ends hr => exact ((executes_end hr).mp h').symm
  | round hr _ ih =>
    obtain ⟨rest, hrest, rfl⟩ := (executes_round hr).mp h'
    rw [ih hrest]

/-- Such a run ends, with the vectors of the text that is left. -/
theorem executes_undisturbed (h : ∀ st', Reaches e prog st st' → Undisturbed e st') :
    Executes e prog st all ↔ commandLoop st.strings st.stdin.left = some all := by
  induction hn : st.stdin.left.length using Nat.strong_induction_on generalizing st all with
  | h n ih =>
    subst hn
    obtain ⟨hnone, hsome⟩ := round_undisturbed prog (h st .refl)
    cases hf : fgets buff (st.strings.mem .ch) st.stdin.left with
    | none => rw [executes_end (hnone hf), commandLoop_none hf, Option.some.injEq, eq_comm]
    | some line =>
      obtain ⟨text, rest⟩ := line
      obtain ⟨hstuck, hturn⟩ := hsome text rest hf
      rw [commandLoop_some hf]
      cases ht : turn (st.strings.set .ch text) with
      | none => simp [not_executes (hstuck ht)]
      | some t =>
        obtain ⟨t, strings⟩ := t
        obtain ⟨hend, hgo⟩ := hturn t strings ht
        dsimp only
        cases ha : t.args with
        | none => rw [executes_end (hend ha), Option.some.injEq, eq_comm]
        | some args =>
          obtain ⟨st', hr, rfl, rfl⟩ := hgo args ha
          have hlt : st'.stdin.left.length < st.stdin.left.length := fgets_length (by decide) hf
          have hrest : ∀ l, Executes e prog st' l ↔ commandLoop st'.strings st'.stdin.left = some l :=
            fun l => ih _ hlt (fun st'' h' => h st'' (reaches_round hr h')) rfl
          simp only [executes_round hr, hrest, Option.map_eq_some_iff]

/-! ## Where the input is left alone -/

theorem next_follows {t : Turn} {strings : State} {stdin : Stream}
    (h0 : st.process.table.file 0 = some .stdin) (hn : next e st = some (some (t, strings, stdin))) :
    st.stdin.Follows stdin ∧ stdin.left.length < st.stdin.left.length := by
  obtain ⟨hnone, hsome⟩ := next_left (e := e) h0
  cases hf : fgets buff (st.strings.mem .ch) st.stdin.left with
  | none => cases hn.symm.trans (hnone hf)
  | some line =>
    obtain ⟨stdin', hleft, hfol, hn'⟩ := hsome line.1 line.2 hf
    rw [hn, eq_comm, Option.map_eq_some_iff] at hn'
    obtain ⟨t', -, ht'⟩ := hn'
    cases ht'
    exact ⟨hfol, by rw [hleft]; exact fgets_length (by decide) hf⟩

/-- What such a round does to the input and to the descriptors. -/
theorem round_cases (h : Undisturbed e st) (hr : round e prog st = some (some (args, st'))) :
    st.stdin.Follows st'.stdin ∧ st'.stdin.left.length < st.stdin.left.length ∧
      (st'.process = st.process ∨ st'.process = waited prog st.process) := by
  cases hn : next e st with
  | none => simp [round, hn] at hr
  | some line =>
    cases line with
    | none => simp [round, hn] at hr
    | some line =>
      obtain ⟨t, strings, stdin⟩ := line
      obtain ⟨hfol, hlt⟩ := next_follows h.input hn
      cases t with
      | exit => simp [round, hn] at hr
      | skip =>
        simp only [round, hn, Option.bind_eq_bind, Option.bind_some, Option.some.injEq, Prod.mk.injEq] at hr
        obtain ⟨-, rfl⟩ := hr
        exact ⟨hfol, hlt, .inl rfl⟩
      | fork v =>
        cases (round_fork prog h hn).symm.trans hr
        exact ⟨hfol, hlt, .inr rfl⟩

/-- What holds at the start and is kept by such rounds, and makes the next one such a round. -/
theorem undisturbed_of_invariant {I : Parent → Prop} (h : I st) (hund : ∀ st, I st → Undisturbed e st)
    (hkeep : ∀ st st', I st → st.stdin.Follows st'.stdin →
      st'.stdin.left.length < st.stdin.left.length →
      st'.process = st.process ∨ st'.process = waited prog st.process → I st') :
    ∀ st', Reaches e prog st st' → Undisturbed e st' := by
  intro st' hr
  suffices I st' from hund st' this
  induction hr with
  | refl => exact h
  | round _ hround ih =>
    obtain ⟨hfol, hlt, hproc⟩ := round_cases (hund _ ih) hround
    exact hkeep _ _ ih hfol hlt hproc

/-- A child has nothing to give back to an input that has no offset to move. -/
theorem undisturbed_of_not_seekable (h0 : st.process.table.file 0 = some .stdin)
    (hs : st.stdin.file.seekable = false)
    (hcommand : ∀ calls file, e.command calls file = file)
    (hparent : (waiting st.process).table.file st.process.fds.1 ≠ some .stdin) : Undisturbed e st where
  input := h0
  child _ _ hf _ _ := by
    obtain ⟨strings, hn⟩ := hf
    exact .inr ((next_follows h0 hn).1.seekable.trans hs)
  command _ _ _ _ := hcommand ..
  parent _ _ _ := hparent

/-- `fds[0]` is the number of no descriptor, and `fds[1]` not that of the input. -/
structure Apart (p : Process) : Prop where
  input : p.table.file 0 = some .stdin
  beyond : p.fds.1 < 0 ∨ p.table.length ≤ p.fds.1
  ne : p.fds.2 ≠ 0

theorem apart_waiting (h : Apart p) : (waiting p).table = (p.table.dup 0).2 ∧
    (waiting p).table.file p.fds.1 = none := by
  have hnone : (p.table.dup 0).2.file p.fds.1 = none := by
    apply Table.file_beyond
    rw [Table.length_dup]
    exact h.beyond
  have htable : (waiting p).table = (p.table.dup 0).2 := Table.dup2_none hnone 0
  exact ⟨htable, by rw [htable, hnone]⟩

theorem apart_waited (h : Apart p) : Apart (waited terminal p) := by
  have htable : (waited terminal p).table =
      ((((waiting p).table.close p.fds.1).close p.fds.2).dup2 (p.table.dup 0).1 0) := rfl
  rw [(apart_waiting h).1] at htable
  have hne : p.fds.1 ≠ 0 := by
    intro hzero
    have hnone := Table.file_beyond h.beyond
    rw [hzero] at hnone
    cases hnone.symm.trans h.input
  refine ⟨?_, ?_, h.ne⟩
  · have hinput : ((((p.table.dup 0).2.close p.fds.1).close p.fds.2)).file 0 = some .stdin :=
      (Table.close_keeps (i := 0) h.ne).trans
        ((Table.close_keeps (i := 0) hne).trans (Table.dup_keeps (i := 0) h.input 0))
    rw [htable]
    refine Table.dup2_back (i := 0) hinput ?_
    rcases Table.file_close ((p.table.dup 0).2.close p.fds.1) p.fds.2 (p.table.dup 0).1 with hc | hc
    · exact .inl hc
    · rw [hc]
      rcases Table.file_close (p.table.dup 0).2 p.fds.1 (p.table.dup 0).1 with hc | hc
      · exact .inl hc
      · rw [hc]
        exact Table.file_dup h.input
  · rw [htable, Table.length_dup2, Table.length_close, Table.length_close, Table.length_dup]
    exact h.beyond

/-- The whole run of `terminal.c` on an input without an offset. -/
theorem terminal_undisturbed (ch ch2 : Vector Byte buff) (hp : Apart p) (hs : f.seekable = false)
    (hcommand : ∀ calls file, e.command calls file = file) :
    ∀ st, Reaches e terminal (start terminal ch ch2 p f) st → Undisturbed e st := by
  refine undisturbed_of_invariant (I := fun st => Apart st.process ∧ st.stdin.file.seekable = false)
    ⟨hp, hs⟩ ?_ ?_
  · rintro st ⟨hapart, hseek⟩
    refine undisturbed_of_not_seekable hapart.input hseek hcommand ?_
    simp [(apart_waiting hapart).2]
  · rintro st st' ⟨hapart, hseek⟩ hfol - hproc
    refine ⟨?_, hfol.seekable.trans hseek⟩
    rcases hproc with hproc | hproc <;> rw [hproc]
    · exact hapart
    · exact apart_waited hapart

theorem waited_problema1 (p : Process) :
    (waited problema1 p).table = (Descriptors.command true p).table ∧ (waited problema1 p).fds = p.fds :=
  ⟨rfl, rfl⟩

/-- The whole run of `problema1.c` on such an input, with a slot for the copy of every round. -/
theorem problema1_undisturbed (ch ch2 : Vector Byte buff) (h0 : p.table.file 0 = some .stdin)
    (hfree : (f.content.drop f.offset).length + 2 ≤ p.table.free) (hs : f.seekable = false)
    (hcommand : ∀ calls file, e.command calls file = file) :
    ∀ st, Reaches e problema1 (start problema1 ch ch2 p f) st → Undisturbed e st := by
  obtain ⟨⟨a, ha⟩, h0', hless, -⟩ := Descriptors.openPipe_spec h0 (by omega)
  refine undisturbed_of_invariant (I := fun st => Descriptors.Attached a st.process ∧
    st.process.table.file 0 = some .stdin ∧ st.stdin.left.length < st.process.table.free ∧
    st.stdin.file.seekable = false) ⟨ha, h0', ?_, hs⟩ ?_ ?_
  · change (f.content.drop f.offset).length < (openPipe p).table.free
    omega
  · rintro st ⟨hatt, hin, -, hseek⟩
    refine undisturbed_of_not_seekable hin hseek hcommand ?_
    have hne : (0 : ℤ) ≠ a := by
      have := hatt.ne
      omega
    have hread : (waiting st.process).table.file st.process.fds.1 = some (.read 0) := by
      rw [hatt.fds]
      exact (Table.dup2_keeps hne _).trans (Table.dup_keeps hatt.pipe 0)
    simp [hread]
  · rintro st st' ⟨hatt, hin, hslots, hseek⟩ hfol hlt hproc
    suffices Descriptors.Attached a st'.process ∧ st'.process.table.file 0 = some .stdin ∧
        st.process.table.free ≤ st'.process.table.free + 1 from
      ⟨this.1, this.2.1, by omega, hfol.seekable.trans hseek⟩
    rcases hproc with hproc | hproc <;> rw [hproc]
    · exact ⟨hatt, hin, by omega⟩
    · obtain ⟨hatt', hin', hfree', -⟩ := Descriptors.command_spec hatt hin (by omega)
      obtain ⟨htable, hfds⟩ := waited_problema1 st.process
      refine ⟨⟨(congrArg Prod.fst hfds).trans hatt.fds, hatt.ne, ?_, ?_⟩, ?_, ?_⟩ <;> rw [htable]
      · exact hatt'.pipe
      · exact hatt'.input
      · exact hin'
      · omega

/-! ## A child that comes back -/

/-- What was read ahead of a file with an offset is read again. -/
theorem round_again {v : Option Args} {stdin : Stream} (prog : Program) (hf : Forks e st v stdin)
    (h0 : st.process.table.file 0 = some .stdin) (hback : comesBack e st.calls v = true)
    (hchild : (childProcess st.process).table.file 0 = some .stdin)
    (hparent : (waiting st.process).table.file st.process.fds.1 ≠ some .stdin)
    (hs : st.stdin.file.seekable = true) (ha : st.stdin.Ahead) :
    ∃ st', round e prog st = some (some (v.toList, st')) ∧
      st'.stdin.left = stdin.unread ++ stdin.left := by
  obtain ⟨strings, hn⟩ := hf
  obtain ⟨hfol, -⟩ := next_follows h0 hn
  have hexit : childExit e st.calls v st.process stdin = stdin.rewind := by
    rw [childExit, if_pos hback, if_pos hchild]
  have hread : readFds e st.process stdin.rewind = stdin.rewind := if_neg hparent
  have hleft := Stream.left_rewind (hfol.ahead ha) (hfol.seekable.trans hs)
  exact ⟨{ strings := strings, process := waited prog st.process, stdin := stdin.rewind,
           calls := st.calls + v.toList.length }, by simp [round, hn, hexit, hread], hleft⟩

/-! ## The two programs -/

def blank : Vector Byte buff := Vector.replicate buff 0

def pipe (lines : List (List Byte)) : OpenFile := ⟨ofLines lines, 0, false⟩

/-- The first command is not there, and the others do not read. -/
def session : Session where
  chunk _ := 4096
  chunk_pos _ := by decide
  found calls := calls ≠ 0
  command _ file := file

/-- `terminal.c` with seven descriptors that are not open. -/
def opened (input : OpenFile) : Parent := start terminal blank blank (Descriptors.atStart 7) input

/-- The lines `x` and `ls` in a regular file. -/
def script : OpenFile := ⟨ofLines [[120], [108, 115]], 0, true⟩

theorem blocks_letters :
    blocks (buff - 1) (List.replicate 200 97) = [List.replicate 199 97, [97]] := by
  rw [blocks_long (by decide) (by rw [List.length_replicate]; decide), List.take_replicate,
    List.drop_replicate, blocks_short (by decide)]
  rfl

theorem letters_split : Executes session terminal (opened (pipe [List.replicate 200 97]))
    [[List.replicate 199 97], [[97]]] := by
  have hline : ∀ line ∈ [List.replicate 200 97], IsLine line := by
    decide +kernel
  have htwo : commands [List.replicate 199 97, [97]] = [[List.replicate 199 97], [[97]]] := by
    decide +kernel
  have hapart : Apart (Descriptors.atStart 7) := ⟨rfl, by decide, by decide⟩
  have hloop := commandLoop_spec hline (ready_arrays blank blank)
  rw [List.flatMap_singleton, blocks_letters, htwo] at hloop
  exact (executes_undisturbed (terminal_undisturbed blank blank hapart rfl fun _ _ => rfl)).mpr hloop

theorem script_again :
    Executes session terminal (opened script) [[[120]], [[108, 115]], [[108, 115]]] := by
  have hrounds : Executes session terminal (opened script)
      ([[[120]]] ++ ([[[108, 115]]] ++ ([[[108, 115]]] ++ []))) :=
    .round rfl (.round rfl (.round rfl (.ends rfl)))
  exact hrounds

end Shell
