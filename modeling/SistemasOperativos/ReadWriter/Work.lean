import Mathlib.Data.Fintype.Sum
import SistemasOperativos.ReadWriter.Progress
import SistemasOperativos.Threads.Work

/-! However the threads of `read_writer.c` are scheduled, messages are printed all the time. -/
namespace ReadWriter

open Threads Threads.Program

variable {readers writers : ℕ} {s : State readers writers} {tr : List (Label readers writers)}

instance : Fintype (Tid readers writers) :=
  Fintype.ofEquiv (Fin readers ⊕ Fin writers)
    { toFun := Sum.elim .reader .writer
      invFun := fun
        | .reader r => .inl r
        | .writer w => .inr w
      left_inv := by rintro (r | w) <;> rfl
      right_inv := by rintro (r | w) <;> rfl }

theorem card_tid : Fintype.card (Tid readers writers) = readers + writers := by
  rw [Fintype.ofEquiv_card, Fintype.card_sum, Fintype.card_fin, Fintype.card_fin]

/-- A `printf`, of a reader or of a writer. -/
def prints : Label readers writers → Bool
  | .exec (.reader _) .read _ | .exec (.writer _) .write _ => true
  | _ => false

/-- The first and the last reader make some more steps than the others. -/
def ReaderPc.debt : ReaderPc → ℤ
  | .waitTurn => 0
  | .postTurn => 1
  | .waitMutexIn => 2
  | .loadIn => 3
  | .storeIn _ => 4
  | .testIn => 5
  | .waitEmpty => 6
  | .postMutexIn => 7
  | .read => 8
  | .waitMutexOut => -6
  | .loadOut => -5
  | .storeOut _ => -4
  | .testOut => -3
  | .postEmpty => -2
  | .postMutexOut => -1

def WriterPc.debt : WriterPc → ℤ
  | .waitTurn => 0
  | .waitEmpty => 1
  | .write => 2
  | .postTurn => -2
  | .postEmpty => -1

theorem ReaderPc.debt_le (l : ReaderPc) : l.debt ≤ 8 := by
  cases l <;> simp [debt]

theorem WriterPc.debt_le (l : WriterPc) : l.debt ≤ 8 := by
  cases l <;> simp [debt]

theorem reader_debt (r : Fin readers) (l : ReaderPc) (g : Shared) (ok : Bool) :
    l.debt + 1 ≤ ReaderPc.debt ((reader l : Instr readers writers ReaderPc).dest l g ok) +
      15 * (prints (.exec (.reader r : Tid readers writers) l ok)).toNat := by
  cases l with
  | testIn | testOut =>
    simp only [reader, Op.dest]
    split <;> simp [ReaderPc.debt, prints]
  | _ => simp [reader, Op.dest, ReaderPc.debt, prints]

theorem writer_debt (w : Fin writers) (l : WriterPc) (g : Shared) (ok : Bool) :
    l.debt + 1 ≤ WriterPc.debt ((writer l : Instr readers writers WriterPc).dest l g ok) +
      15 * (prints (.exec (.writer w : Tid readers writers) l ok)).toNat := by
  cases l <;> simp [writer, Op.dest, WriterPc.debt, prints]

def working : Working (readWriter readers writers) prints where
  cost := 15
  bound := 8
  debt
    | .reader _ => ReaderPc.debt
    | .writer _ => WriterPc.debt
  exec t l g ok := by
    cases t with
    | reader r => exact reader_debt r l g ok
    | writer w => exact writer_debt w l g ok
  le t l := by
    cases t with
    | reader r => exact ReaderPc.debt_le l
    | writer w => exact WriterPc.debt_le l
  start t := by cases t <;> rfl

/-- In every run a message is printed at least every fifteen steps, but for eight steps of each
thread. A reader or a writer may wait for ever, but not all of them without a message. -/
theorem messages_go_on (h : (readWriter readers writers).Run Any (init readers writers) tr s) :
    tr.length ≤ 15 * tr.countP prints + 8 * (readers + writers) := by
  have hlen := (working.run (fun _ _ => rfl) (fun _ l => code_plain l)
    inv_init.alive (fun t => by cases t <;> rfl) h).2
  rw [card_tid] at hlen
  exact hlen

/-- A reader that is alone makes fifteen steps for each message. -/
theorem messages_go_on_alone : ∃ (tr : List (Label 1 0)) (s : State 1 0),
    (readWriter 1 0).Run Any (init 1 0) tr s ∧ tr.length = 45 ∧ tr.countP prints = 3 ∧
    tr.length ≤ 15 * tr.countP prints + 8 * (1 + 0) := by
  have hrun : ∃ tr s, (readWriter 1 0).Run Any (init 1 0) tr s ∧ tr.length = 45 ∧
      tr.countP prints = 3 := by
    refine run_of_check (burst (.reader 0) 45) ?_
    decide +kernel
  obtain ⟨tr, s, h, hlen, hp⟩ := hrun
  exact ⟨tr, s, h, hlen, hp, messages_go_on h⟩

end ReadWriter
