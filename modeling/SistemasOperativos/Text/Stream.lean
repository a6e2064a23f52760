import Mathlib.Tactic.Common
import SistemasOperativos.Text.Lines

/-!
# Input that is read ahead

A process reads an open file in pieces and uses them byte by byte. The offset of the file
belongs to every process that has it open, the bytes that are read ahead to one of them.
-/
namespace Text

structure OpenFile where
  content : List Byte
  offset : ℕ
  seekable : Bool
  deriving DecidableEq, Repr

/-- `read` gives at most `count` bytes. -/
def OpenFile.read (count : ℕ) (f : OpenFile) : List Byte × OpenFile :=
  let data := (f.content.drop f.offset).take count
  (data, { f with offset := f.offset + data.length })

/-- A file, and what one process has read of it and not used. -/
structure Stream where
  file : OpenFile
  unread : List Byte
  deriving DecidableEq, Repr

namespace Stream
variable {s s' : Stream} {chunk : ℕ → ℕ} {c : Byte} {text line : List Byte} {n : ℕ}

/-- `chunk` is how much of the file a `read` gives at each offset. -/
def getc (chunk : ℕ → ℕ) (s : Stream) : Option (Byte × Stream) :=
  match s.unread with
  | c :: unread => some (c, { s with unread := unread })
  | [] =>
    match s.file.read (chunk s.file.offset) with
    | ([], _) => none
    | (c :: unread, file) => some (c, ⟨file, unread⟩)

/-- The bytes up to a newline and with it, at most `n` of them. -/
def readLine (chunk : ℕ → ℕ) : ℕ → Stream → List Byte × Stream
  | 0, s => ([], s)
  | n + 1, s =>
    match s.getc chunk with
    | none => ([], s)
    | some (c, s) =>
      if c = newline then ([c], s)
      else
        let (line, s) := readLine chunk n s
        (c :: line, s)

/-- The array after `fgets`; nothing if not a byte was read. -/
def fgets (chunk : ℕ → ℕ) (size : ℕ) (buf : List Byte) (s : Stream) : Option (List Byte × Stream) :=
  let (line, s) := s.readLine chunk (size - 1)
  if line = [] then none else some (line ++ 0 :: buf.drop (line.length + 1), s)

/-- What `exit` does with a stream that was read ahead: the offset goes back to the first
byte that is not used, if that is possible. The process that ends has no more use for its
bytes, but others may have the same file, and the same bytes. -/
def rewind (s : Stream) : Stream :=
  if s.file.seekable ∧ s.unread.length ≤ s.file.offset then
    { s with file := { s.file with offset := s.file.offset - s.unread.length } }
  else s

/-! ## What is left of the text -/

def left (s : Stream) : List Byte := s.unread ++ s.file.content.drop s.file.offset

/-- What is read ahead is what is before the offset. -/
def Ahead (s : Stream) : Prop := s.unread.length ≤ s.file.offset ∧
  s.file.content.drop (s.file.offset - s.unread.length) = s.left

/-- One stream comes from the other by reading. -/
structure Follows (s s' : Stream) : Prop where
  seekable : s'.file.seekable = s.file.seekable
  ahead : s.Ahead → s'.Ahead

theorem Follows.refl (s : Stream) : s.Follows s := ⟨rfl, id⟩

theorem Follows.trans {s₁ s₂ s₃ : Stream} (h : s₁.Follows s₂) (h' : s₂.Follows s₃) : s₁.Follows s₃ :=
  ⟨h'.seekable.trans h.seekable, h'.ahead ∘ h.ahead⟩

theorem getc_nil (h : s.left = []) : s.getc chunk = none := by
  obtain ⟨hu, hd⟩ := List.append_eq_nil_iff.mp h
  simp [getc, hu, OpenFile.read, hd]

/-- A `read` takes the first byte that is there, and some of the others. -/
theorem read_cons {f : OpenFile} {count : ℕ} (hpos : 0 < count) (h : f.content.drop f.offset = c :: text) :
    ∃ k, f.read count = (c :: text.take k, { f with offset := f.offset + (c :: text.take k).length }) ∧
      f.content.drop (f.offset + (c :: text.take k).length) = text.drop k := by
  obtain ⟨k, rfl⟩ := Nat.exists_eq_add_one_of_ne_zero hpos.ne'
  refine ⟨k, by simp only [OpenFile.read, h, List.take_succ_cons], ?_⟩
  rw [← List.drop_drop, h, List.length_cons, List.drop_succ_cons, List.length_take]
  obtain hle | hle := Nat.le_total k text.length
  · rw [Nat.min_eq_left hle]
  · rw [Nat.min_eq_right hle, List.drop_length, List.drop_of_length_le hle]

/-- The next byte is the first that is left, whatever pieces the file comes in. -/
theorem getc_cons (hc : ∀ o, 0 < chunk o) (h : s.left = c :: text) :
    ∃ s', s.getc chunk = some (c, s') ∧ s'.left = text ∧ s.Follows s' := by
  obtain ⟨⟨content, offset, seekable⟩, unread⟩ := s
  cases unread with
  | cons b unread =>
    obtain ⟨rfl, rfl⟩ := List.cons.inj h
    refine ⟨_, rfl, rfl, rfl, ?_⟩
    rintro ⟨hle, hdrop⟩
    simp only [List.length_cons, left, List.cons_append] at hle hdrop
    refine ⟨Nat.le_of_succ_le hle, ?_⟩
    have hsucc : offset - unread.length = offset - (unread.length + 1) + 1 := by omega
    simp only [left]
    rw [hsucc, ← List.drop_drop, hdrop]
    rfl
  | nil =>
    have hdrop : content.drop offset = c :: text := h
    obtain ⟨k, hread, htext⟩ := read_cons (f := ⟨content, offset, seekable⟩) (hc offset) hdrop
    have hleft : (⟨⟨content, offset + (c :: text.take k).length, seekable⟩, text.take k⟩ : Stream).left =
        text := by
      simp only [left, htext, List.take_append_drop]
    refine ⟨_, by simp [getc, hread], hleft, rfl, fun _ => ⟨?_, ?_⟩⟩
    · simp only [List.length_cons]
      omega
    · have hback : offset + (c :: text.take k).length - (text.take k).length = offset + 1 := by
        rw [List.length_cons]
        omega
      rw [hleft]
      simp only [hback, ← List.drop_drop, hdrop]
      rfl

theorem readLine_left (hc : ∀ o, 0 < chunk o) (n : ℕ) (s : Stream) :
    ∃ s', s.readLine chunk n = ((Text.readLine n s.left).1, s') ∧
      s'.left = (Text.readLine n s.left).2 ∧ s.Follows s' := by
  induction n generalizing s with
  | zero => exact ⟨s, rfl, rfl, .refl s⟩
  | succ n ih =>
    cases hleft : s.left with
    | nil =>
      refine ⟨s, ?_, hleft, .refl s⟩
      rw [readLine, getc_nil hleft]
      rfl
    | cons c text =>
      obtain ⟨s₁, hget, hleft₁, hfol⟩ := getc_cons hc hleft
      rw [readLine, hget, Text.readLine]
      by_cases hnl : c = newline
      · exact ⟨s₁, by simp [hnl], by simp [hnl, hleft₁], hfol⟩
      · obtain ⟨s₂, hline, hleft₂, hfol₂⟩ := ih s₁
        rw [hleft₁] at hline hleft₂
        exact ⟨s₂, by simp [hnl, hline], by simp [hnl, hleft₂], hfol.trans hfol₂⟩

theorem readLine_eq_nil (n : ℕ) (text : List Byte) : (Text.readLine (n + 1) text).1 = [] ↔ text = [] := by
  cases text with
  | nil => simp [Text.readLine]
  | cons c text =>
    rw [Text.readLine]
    split <;> simp

/-- A line is what `fgets` gets of the text that is left. -/
theorem fgets_left (hc : ∀ o, 0 < chunk o) (size : ℕ) (buf : List Byte) (s : Stream) :
    (Text.fgets (size + 2) buf s.left = none → s.fgets chunk (size + 2) buf = none) ∧
    ∀ buf' rest, Text.fgets (size + 2) buf s.left = some (buf', rest) →
      ∃ s', s.fgets chunk (size + 2) buf = some (buf', s') ∧ s'.left = rest ∧ s.Follows s' := by
  obtain ⟨s', hline, hleft, hfol⟩ := readLine_left hc (size + 1) s
  have hnil := readLine_eq_nil size s.left
  have hsize : size + 2 - 1 = size + 1 := rfl
  refine ⟨fun h => ?_, fun buf' rest h => ?_⟩
  · have hempty := hnil.mpr (fgets_eq_none.mp h)
    simp only [fgets, hsize, hline, hempty, if_true]
  · simp only [Text.fgets, hsize, Option.ite_none_left_eq_some, Option.some.injEq, Prod.mk.injEq] at h
    obtain ⟨hne, rfl, rfl⟩ := h
    exact ⟨s', by simp [fgets, hline, hsize, hnil, hne], hleft, hfol⟩

/-! ## An end with bytes that are not used -/

theorem rewind_of_nil (h : s.unread = []) : s.rewind = s := by
  obtain ⟨file, unread⟩ := s
  subst h
  simp [rewind]

theorem rewind_of_not_seekable (h : s.file.seekable = false) : s.rewind = s := by
  simp [rewind, h]

/-- Who goes on reading gets what he had read ahead, and then the same bytes again. -/
theorem left_rewind (h : s.Ahead) (hs : s.file.seekable = true) : s.rewind.left = s.unread ++ s.left := by
  rw [rewind, if_pos ⟨hs, h.1⟩]
  exact congrArg (s.unread ++ ·) h.2

end Stream
end Text
