import Mathlib.Data.Nat.Notation
import Mathlib.Data.UInt

/-! Lines of a text, as they are read into an array of a fixed size. -/
namespace Text

abbrev Byte := UInt8

def newline : Byte := 10

/-- A text of whole lines. -/
def ofLines (lines : List (List Byte)) : List Byte := lines.flatMap (· ++ [newline])

/-- The bytes up to a newline and with it, at most `n` of them, and what comes after. -/
def readLine : ℕ → List Byte → List Byte × List Byte
  | 0, text => ([], text)
  | _ + 1, [] => ([], [])
  | n + 1, c :: text =>
    if c = newline then ([c], text)
    else (c :: (readLine n text).1, (readLine n text).2)

/-- The array after `fgets` and what is left of the text; nothing at the end of the text. -/
def fgets (size : ℕ) (buf text : List Byte) : Option (List Byte × List Byte) :=
  let (line, rest) := readLine (size - 1) text
  if text = [] then none else some (line ++ 0 :: buf.drop (line.length + 1), rest)

theorem fgets_eq_none {size : ℕ} {buf text : List Byte} : fgets size buf text = none ↔ text = [] := by
  simp [fgets]

theorem readLine_short {n : ℕ} {line : List Byte} (hl : newline ∉ line) (hn : line.length < n)
    (text : List Byte) : readLine n (line ++ newline :: text) = (line ++ [newline], text) := by
  induction line generalizing n with
  | nil =>
    obtain ⟨n, rfl⟩ := Nat.exists_eq_add_one_of_ne_zero (Nat.ne_zero_of_lt hn)
    rfl
  | cons c line ih =>
    obtain ⟨n, rfl⟩ := Nat.exists_eq_add_one_of_ne_zero (Nat.ne_zero_of_lt hn)
    rw [List.mem_cons, not_or] at hl
    simp [readLine, Ne.symm hl.1, ih hl.2 (Nat.lt_of_succ_lt_succ hn)]

theorem readLine_long {n : ℕ} {line : List Byte} (hl : newline ∉ line) (hn : n ≤ line.length)
    (text : List Byte) : readLine n (line ++ text) = (line.take n, line.drop n ++ text) := by
  induction n generalizing line with
  | zero => rfl
  | succ n ih =>
    cases line with
    | nil => cases hn
    | cons c line =>
      rw [List.mem_cons, not_or] at hl
      simp [readLine, Ne.symm hl.1, ih hl.2 (Nat.le_of_succ_le_succ hn)]

theorem readLine_length (n : ℕ) (text : List Byte) :
    (readLine n text).1.length + (readLine n text).2.length = text.length := by
  induction n generalizing text with
  | zero => exact Nat.zero_add _
  | succ n ih =>
    cases text with
    | nil => rfl
    | cons c text =>
      rw [readLine]
      split
      · exact Nat.add_comm 1 _
      · have hrest := ih text
        simp only [List.length_cons]
        omega

/-- A call that returns has taken something from the text. -/
theorem fgets_length {size : ℕ} {buf text buf' rest : List Byte} (hsize : 2 ≤ size)
    (h : fgets size buf text = some (buf', rest)) : rest.length < text.length := by
  have hlen := readLine_length (size - 1) text
  simp only [fgets, Option.ite_none_left_eq_some, Option.some.injEq, Prod.mk.injEq] at h
  obtain ⟨hne, -, rfl⟩ := h
  obtain ⟨n, hn⟩ := Nat.exists_eq_add_one_of_ne_zero (show size - 1 ≠ 0 by omega)
  cases text with
  | nil => exact absurd rfl hne
  | cons c text =>
    have hpos : 0 < (readLine (size - 1) (c :: text)).1.length := by
      rw [hn, readLine]
      split <;> simp
    omega

/-! ## Blocks -/

/-- The parts of a line that an array of `n + 1` bytes takes one after the other; the
newline comes with the last. -/
def blocks (n : ℕ) (line : List Byte) : List (List Byte) :=
  if _h : line.length < n ∨ n = 0 then [line]
  else line.take n :: blocks n (line.drop n)
termination_by line.length
decreasing_by
  rw [List.length_drop]
  omega

theorem blocks_short {n : ℕ} {line : List Byte} (h : line.length < n) : blocks n line = [line] := by
  rw [blocks, dif_pos (.inl h)]

theorem blocks_long {n : ℕ} {line : List Byte} (hn : 0 < n) (h : n ≤ line.length) :
    blocks n line = line.take n :: blocks n (line.drop n) := by
  rw [blocks, dif_neg (by omega)]

theorem flatten_blocks (n : ℕ) (line : List Byte) : (blocks n line).flatten = line := by
  induction line using blocks.induct n with
  | case1 line h => rw [blocks, dif_pos h, List.flatten_singleton]
  | case2 line h ih => rw [blocks, dif_neg h, List.flatten_cons, ih, List.take_append_drop]

theorem fgets_short {size : ℕ} {buf line : List Byte} (hl : newline ∉ line)
    (hs : line.length < size - 1) (text : List Byte) :
    fgets size buf (line ++ newline :: text) =
      some ((line ++ [newline]) ++ 0 :: buf.drop (line.length + 2), text) := by
  simp [fgets, readLine_short hl hs]

theorem fgets_long {size : ℕ} {buf line : List Byte} (hl : newline ∉ line)
    (hs : size - 1 ≤ line.length) (text : List Byte) :
    fgets size buf (line ++ newline :: text) =
      some (line.take (size - 1) ++ 0 :: buf.drop (size - 1 + 1),
        line.drop (size - 1) ++ newline :: text) := by
  simp [fgets, readLine_long hl hs, hs]

end Text
