import Mathlib.Logic.Function.Basic
import SistemasOperativos.Descriptors.Table
import SistemasOperativos.Text.Lines

/-!
# Processes that share a pipe

Every process has a table of its own, and both ends of one pipe may be in each of them. A
program relates the locations of a process by its calls.
-/
namespace Pipes

open Descriptors Descriptors.Table Text

/-- What a descriptor stands for: an end of the pipe, or a file of the type `F`. -/
inductive End (F : Type)
  | read
  | write
  | other (f : F)
  deriving DecidableEq, Repr

/-- A call, with the bytes that it moved. `sigpipe` is a `write` that ends its process, and an
`execv` that is not `ok` returns. -/
inductive Call (F : Type)
  | close (fd : ℤ)
  | dup (fd : ℤ)
  | dup2 (old new : ℤ)
  | openFile (f : F)
  | read (fd : ℤ) (count : ℕ) (bytes : List Byte)
  | write (fd : ℤ) (bytes : List Byte)
  | sigpipe (fd : ℤ)
  | execv (ok : Bool)
  | waitpid
  | exit
  deriving DecidableEq, Repr

/-- `buffer` is what is written and not yet read. -/
structure State (P F Pc : Type) where
  pc : P → Pc
  table : P → Table (End F)
  buffer : List Byte

abbrev Program (P F Pc : Type) := P → Pc → Call F → Pc → Prop

variable {P F Pc : Type}

/-! ## One end -/

section only
variable {t : Table (End F)} {e : End F} {i : ℕ}

/-- The write end is at no other descriptor. -/
def Only (i : ℕ) (t : Table (End F)) : Prop := ∀ j : ℕ, t.file j = some .write → j = i

theorem only_put {x : Option (End F)} {j : ℕ} (h : Only i t) (hx : x ≠ some .write) :
    Only i (t.put j x) := by
  intro k hk
  rcases file_put_cases hk with ⟨-, hw⟩ | hk
  · exact (hx hw).elim
  · exact h k hk

theorem only_close (h : Only i t) (fd : ℤ) : Only i (t.close fd) := by
  unfold Table.close
  split
  · exact only_put h (by simp)
  · exact h

theorem only_nil : Only i ([] : Table (End F)) := by
  intro j hj
  cases hj

/-- A file that is found at another descriptor is no write end. -/
theorem Only.ne_write {fd : ℤ} (h : Only i t) (hfd : fd ≠ i) (he : t.file fd = some e) :
    e ≠ .write := by
  obtain ⟨j, rfl, hj⟩ := slot_of_file he
  intro hw
  subst hw
  exact hfd (congrArg Nat.cast (h j hj))

end only

/-! ## One call -/

namespace Call
variable {c : Call F} {t : Table (End F)} {e : End F} {i : ℕ}

/-- A process that ends has nothing open. -/
def table : Call F → Table (End F) → Table (End F)
  | close fd, t => t.close fd
  | dup fd, t => (t.dup fd).2
  | dup2 old new, t => t.dup2 old new
  | openFile f, t =>
    match t.lowest with
    | none => t
    | some i => t.put i (some (.other f))
  | sigpipe _, _ | exit, _ => []
  | read .., t | write .., t | execv _, t | waitpid, t => t

def buffer : Call F → Table (End F) → List Byte → List Byte
  | read fd _ bytes, t, b =>
    match t.file fd with
    | some .read => b.drop bytes.length
    | _ => b
  | write fd bytes, t, b =>
    match t.file fd with
    | some .write => b ++ bytes
    | _ => b
  | _, _, b => b

/-- The call takes nothing from the pipe, and is not ended by it. -/
def quiet : Call F → Bool
  | read .. | sigpipe _ => false
  | _ => true

/-- The call goes on, and has nothing to do with the descriptor `i`. -/
def Leaves (i : ℤ) : Call F → Prop
  | close fd | dup fd | read fd _ _ | write fd _ => fd ≠ i
  | dup2 old new => old ≠ i ∧ new ≠ i
  | openFile _ | execv _ => True
  | sigpipe _ | waitpid | exit => False

instance (i : ℤ) : (c : Call F) → Decidable (c.Leaves i)
  | close fd | dup fd | read fd _ _ | write fd _ => inferInstanceAs (Decidable (fd ≠ i))
  | dup2 old new => inferInstanceAs (Decidable (old ≠ i ∧ new ≠ i))
  | openFile _ | execv _ => isTrue trivial
  | sigpipe _ | waitpid | exit => isFalse not_false

theorem table_keeps (hc : c.Leaves i) (h : t.file i = some e) : (c.table t).file i = some e := by
  cases c with
  | close fd => exact (close_keeps hc).trans h
  | dup fd => exact dup_keeps h fd
  | dup2 old new => exact (dup2_keeps hc.2 old).trans h
  | openFile f =>
    simp only [table]
    split
    · exact h
    · rename_i j hj
      have hne : i ≠ j := ne_of_file h (lowest_spec hj).2
      exact (file_put_of_ne hne.symm _).trans h
  | read | write | execv => exact h
  | sigpipe | waitpid | exit => exact hc.elim

theorem only_table (h : Only i t) (hc : c.Leaves i) : Only i (c.table t) := by
  cases c with
  | close fd => exact only_close h fd
  | dup fd =>
    rcases dup_cases t fd with hdup | ⟨j, f, -, hf, hdup⟩ <;> simp only [table, hdup]
    · exact h
    · exact only_put h (by simpa using h.ne_write hc hf)
  | dup2 old new =>
    rcases dup2_cases t old new with hdup | ⟨f, hf, -, hdup⟩ <;> simp only [table, hdup]
    · exact h
    · exact only_put h (by simpa using h.ne_write hc.1 hf)
  | openFile f =>
    simp only [table]
    split
    · exact h
    · exact only_put h (by simp)
  | read | write | execv => exact h
  | sigpipe | waitpid | exit => exact hc.elim

/-- Without a write end a call adds nothing. -/
theorem buffer_nil (h : Only i t) (hc : c.Leaves i) : c.buffer t [] = [] := by
  cases c with
  | write fd bytes =>
    simp only [buffer]
    split
    · rename_i hw
      exact (h.ne_write hc hw rfl).elim
    · rfl
  | read fd count bytes =>
    simp only [buffer]
    split <;> simp
  | _ => rfl

end Call

/-! ## Runs -/

namespace State
variable {s : State P F Pc} {p : P} {e : End F} {fd : ℤ} {capacity count : ℕ}
variable {bytes : List Byte}

/-- Some process has the end open. -/
def Open (s : State P F Pc) (e : End F) : Prop := ∃ p, some e ∈ s.table p

/-- `read` takes as much as there is, and waits for the first byte while there is a write end.
`write` waits for the room, and needs a read end. `waitpid` waits for a process to end. -/
def Allowed (capacity : ℕ) (s : State P F Pc) (p : P) : Call F → Prop
  | .read fd count bytes => (s.table p).file fd = some .read →
    bytes = s.buffer.take count ∧ (s.buffer ≠ [] ∨ ¬ s.Open .write)
  | .write fd bytes => (s.table p).file fd = some .write →
    s.Open .read ∧ s.buffer.length + bytes.length ≤ capacity
  | .sigpipe fd => (s.table p).file fd = some .write ∧ ¬ s.Open .read
  | .waitpid => ∀ q, q ≠ p → s.table q = []
  | _ => True

def after [DecidableEq P] (s : State P F Pc) (p : P) (c : Call F) (pc : Pc) : State P F Pc where
  pc := Function.update s.pc p pc
  table := Function.update s.table p (c.table (s.table p))
  buffer := c.buffer (s.table p) s.buffer

theorem open_of_file (h : (s.table p).file fd = some e) : s.Open e := ⟨p, mem_of_file h⟩

/-- The end of the input comes to no one while there is a write end. -/
theorem Allowed.ne_nil (ha : s.Allowed capacity p (.read fd count bytes)) (hcount : 0 < count)
    (hfd : (s.table p).file fd = some .read) (hw : s.Open .write) : bytes ≠ [] := by
  obtain ⟨rfl, hne | hclosed⟩ := ha hfd
  · intro hnil
    rcases List.take_eq_nil_iff.mp hnil with h | h
    · omega
    · exact hne h
  · exact (hclosed hw).elim

end State

section runs
variable [DecidableEq P] {code : Program P F Pc} {capacity : ℕ} {s₀ s : State P F Pc}
variable {tr : List (P × Call F)}

inductive Run (code : Program P F Pc) (capacity : ℕ) (s₀ : State P F Pc) :
    List (P × Call F) → State P F Pc → Prop
  | nil : Run code capacity s₀ [] s₀
  | snoc {tr : List (P × Call F)} {s : State P F Pc} {p : P} {c : Call F} {pc : Pc}
      (h : Run code capacity s₀ tr s) (hc : code p (s.pc p) c pc) (ha : s.Allowed capacity p c) :
      Run code capacity s₀ (tr ++ [(p, c)]) (s.after p c pc)

theorem Run.trans {s' : State P F Pc} {tr' : List (P × Call F)} (h : Run code capacity s₀ tr s)
    (h' : Run code capacity s tr' s') : Run code capacity s₀ (tr ++ tr') s' := by
  induction h' with
  | nil => simpa using h
  | snoc _ hc ha ih => simpa using Run.snoc ih hc ha

/-- What a process knows of itself, it need not care for the others. -/
theorem Run.alone {I : P → Pc → Table (End F) → Prop} (h : Run code capacity s₀ tr s)
    (h₀ : ∀ p, I p (s₀.pc p) (s₀.table p))
    (hstep : ∀ p pc c pc' t, I p pc t → code p pc c pc' → I p pc' (c.table t)) :
    ∀ p, I p (s.pc p) (s.table p) := by
  induction h with
  | nil => exact h₀
  | @snoc tr s q c pc _ hc ha ih =>
    intro p
    by_cases hp : p = q
    · subst p
      simpa [State.after] using hstep q _ c pc _ (ih q) hc
    · simpa [State.after, Function.update_of_ne hp] using ih p

/-! ## What a run has moved -/

/-- Every `read` had the whole message, and no `write` ended its process. -/
structure Clean (msg : List Byte) (tr : List (P × Call F)) : Prop where
  whole : ∀ p fd count bytes, (p, Call.read fd count bytes) ∈ tr → bytes = msg
  alive : ∀ p fd, (p, Call.sigpipe fd) ∉ tr

omit [DecidableEq P] in
theorem clean_nil (msg : List Byte) : Clean (F := F) (P := P) msg [] := ⟨nofun, nofun⟩

omit [DecidableEq P] in
theorem Clean.snoc {msg : List Byte} {p : P} {c : Call F} (h : Clean msg tr)
    (hwhole : ∀ fd count bytes, c = .read fd count bytes → bytes = msg)
    (halive : ∀ fd, c ≠ .sigpipe fd) : Clean msg (tr ++ [(p, c)]) := by
  constructor
  · intro q fd count bytes hmem
    rcases List.mem_append.mp hmem with hmem | hmem
    · exact h.whole q fd count bytes hmem
    · obtain ⟨-, hcall⟩ := Prod.mk.inj (List.mem_singleton.mp hmem)
      exact hwhole fd count bytes hcall.symm
  · intro q fd hmem
    rcases List.mem_append.mp hmem with hmem | hmem
    · exact h.alive q fd hmem
    · obtain ⟨-, hcall⟩ := Prod.mk.inj (List.mem_singleton.mp hmem)
      exact halive fd hcall.symm

omit [DecidableEq P] in
theorem Clean.quiet {msg : List Byte} {p : P} {c : Call F} (h : Clean msg tr)
    (hq : c.quiet = true) : Clean msg (tr ++ [(p, c)]) := by
  apply h.snoc
  · rintro fd count bytes rfl
    cases hq
  · rintro fd rfl
    cases hq

omit [DecidableEq P] in
theorem Clean.read {msg : List Byte} {p : P} {fd : ℤ} {count : ℕ} (h : Clean (F := F) msg tr) :
    Clean msg (tr ++ [(p, .read fd count msg)]) := by
  apply h.snoc
  · intro fd' count' bytes hcall
    cases hcall
    rfl
  · intro fd' hcall
    cases hcall

end runs

/-! ## A pipe and a fork -/

/-- The files of a process that has no pipe yet. -/
def files (t : Table F) : Table (End F) := t.map (·.map .other)

/-- `pipe` and `fork`, when both succeed: the descriptors and the processes. -/
def forked (t : Table F) (pc : P → Pc) : Option ((ℤ × ℤ) × State P F Pc) :=
  match (files t).pipe .read .write with
  | (some fds, table) => some (fds, ⟨pc, fun _ => table, []⟩)
  | (none, _) => none

section forked
variable {t : Table F} {pc : P → Pc} {fds : ℤ × ℤ} {s : State P F Pc} {f : F} {i : ℕ}

theorem file_files : (files t).file i = (t.file i).map .other := by
  simp only [files, file_nat, List.getElem?_map]
  cases t[i]? <;> rfl

theorem only_files : Only i (files t) := by
  intro j hj
  rw [file_files] at hj
  cases h : t.file j <;> simp [h] at hj

/-- The two ends are at the descriptors in every process, and nowhere else. -/
theorem forked_spec (h : forked t pc = some (fds, s)) : ∃ r w : ℕ, fds = ((r : ℤ), (w : ℤ)) ∧
    r ≠ w ∧ t.file r = none ∧ t.file w = none ∧ s.pc = pc ∧ s.buffer = [] ∧
    ∀ p, s.table p = ((files t).put r (some .read)).put w (some .write) ∧
      (s.table p).file r = some .read ∧ (s.table p).file w = some .write ∧ Only w (s.table p) := by
  unfold forked at h
  split at h
  · rename_i fds' table hpipe
    obtain ⟨r, w, hfds, hr, hrnone, hw, hwnone, htable⟩ := pipe_cases hpipe
    have hne : r ≠ w := ne_of_file (file_put_self hr _) hwnone
    have hfree : ∀ j : ℕ, (files t).file j = none → t.file j = none := by
      intro j hj
      simpa [file_files] using hj
    obtain ⟨rfl, rfl⟩ : fds' = fds ∧ _ = s := by simpa using h
    refine ⟨r, w, hfds, hne, hfree r hrnone, hfree w ?_, rfl, rfl, fun p => ⟨htable, ?_, ?_, ?_⟩⟩
    · exact (file_put_of_ne hne _).symm.trans hwnone
    · exact htable ▸ (file_put_of_ne hne.symm _).trans (file_put_self hr _)
    · exact htable ▸ file_put_self (by rwa [length_put]) _
    · intro j hj
      have hj : (((files t).put r (some .read)).put w (some .write)).file j = some .write :=
        htable ▸ hj
      rcases file_put_cases hj with ⟨h, -⟩ | hj
      · exact h.symm
      · exact only_put only_files (by simp) j hj
  · cases h

end forked

end Pipes
