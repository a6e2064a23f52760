import SistemasOperativos.Text.Strtok

/-!
# The numbers of the sorts

The parts of both programs that make the array, up to the first call of a sort. `atoi` is
any function of the text of a number.
-/
namespace MergeInput

open Text

variable (atoi : List Byte → ℤ) {B : Type} [DecidableEq B]

def comma : Byte := 44

/-- The array, the number of cells it was allocated with and the number that were filled. -/
structure Numbers where
  size : ℕ
  numbers : List ℤ
  filled : ℕ
  deriving DecidableEq, Repr

/-- The numbers in one array are counted, then those in another are written. -/
def readNumbers (st : Strtok B) (counted written : B) : Option Numbers := do
  let (size, st) ← scan st counted [comma] (fun size _ => some (size + 1)) 0
  let numbers := List.replicate size 0
  let ((numbers, i), _) ← scan st written [comma] (fun a p => push a (atoi p)) (numbers, 0)
  some ⟨size, numbers, i⟩

/-! ## `merge.c` -/

namespace Merge

def buff : ℕ := 20000

inductive Buf
  | ch2
  | argv1
  deriving DecidableEq, Repr

/-- The argument comes with its zero byte. -/
def main (ch2 : Vector Byte buff) (argv1 : List Byte) : Option Numbers := do
  let ch2 ← strcpy ch2.toList argv1
  let mem
    | Buf.ch2 => ch2
    | Buf.argv1 => argv1
  readNumbers atoi ⟨mem, none⟩ .ch2 .argv1

end Merge

/-! ## `merge_threads.c` -/

namespace Threads

def buff : ℕ := 200

inductive Buf
  | ch
  | ch2
  deriving DecidableEq, Repr

abbrev State := Strtok Buf

/-- One round of the loop with a line in `ch`, which may have the numbers. -/
def turn (st : State) : Option (Option Numbers × State) := do
  let line ← str (st.mem .ch)
  if line ≠ [newline] ∧ line.length ≠ 1 then
    let (input, st) ← strtok st (some (.ch, 0)) [newline]
    let input ← input
    let st := st.set .ch2 (← strcpy (st.mem .ch2) ((st.mem input.1).drop input.2))
    some (some (← readNumbers atoi st .ch2 .ch), st)
  else some (none, st)

/-- Without any line the array stays the null pointer, which has no cells. -/
def inputLoop (st : State) (stdin : List Byte) : Option Numbers :=
  match h : fgets buff (st.mem .ch) stdin with
  | none => some ⟨0, [], 0⟩
  | some (ch, rest) =>
    have _ := fgets_length (by decide) h
    match turn atoi (st.set .ch ch) with
    | none => none
    | some (some numbers, _) => some numbers
    | some (none, st) => inputLoop st rest
termination_by stdin.length

/-- Both arrays are on the stack, with anything in them. -/
def main (ch ch2 : Vector Byte buff) (stdin : List Byte) : Option Numbers :=
  let mem
    | Buf.ch => ch.toList
    | Buf.ch2 => ch2.toList
  inputLoop atoi ⟨mem, none⟩ stdin

end Threads

end MergeInput
