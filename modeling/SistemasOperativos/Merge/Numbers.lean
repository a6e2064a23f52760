import SistemasOperativos.Merge.Input

/-!
# Both programs sort the same numbers

A text of numbers is counted and read alike from an argument and from a line.
-/
namespace MergeInput

open Text

variable {atoi : List Byte → ℤ} {B : Type} [DecidableEq B] {text : List Byte}

/-! ## What should be sorted -/

/-- One number for each word between the commas. -/
def numbersOf (atoi : List Byte → ℤ) (text : List Byte) : List ℤ :=
  (tokens [comma].contains text).map atoi

/-- Every cell that was allocated is filled. -/
def Numbers.full (numbers : List ℤ) : Numbers := ⟨numbers.length, numbers, numbers.length⟩

/-! ## The two passes -/

/-- The array takes as many numbers as there are words. -/
theorem fill_numbers (atoi : List Byte → ℤ) (ws : List (List Byte)) :
    ws.foldlM (fun a p => push a (atoi p)) (List.replicate ws.length 0, 0) =
      some (ws.map atoi, ws.length) := by
  have hpush := foldlM_push atoi ws [] (List.replicate ws.length 0) (by rw [List.length_replicate])
  rw [List.nil_append, List.nil_append, List.drop_replicate, Nat.sub_self, List.replicate_zero,
    List.append_nil, List.length_nil, Nat.zero_add] at hpush
  exact hpush

theorem readNumbers_spec {st : Strtok B} {counted written : B} (hne : written ≠ counted)
    (hw : str (st.mem written) = some text) (hc : str (st.mem counted) = some text) :
    readNumbers atoi st counted written = some (.full (numbersOf atoi text)) := by
  obtain ⟨st', st'', hcount, hfill⟩ := scan_copy hne hw hc
    (foldlM_count (tokens [comma].contains text) 0)
    (fill_numbers atoi (tokens [comma].contains text))
  rw [Nat.zero_add] at hcount
  simp only [readNumbers, hcount, hfill, Option.bind_eq_bind, Option.bind_some, Numbers.full,
    numbersOf, List.length_map]

/-! ## The argument -/

theorem Merge.main_spec {ch2 : Vector Byte Merge.buff} (h0 : 0 ∉ text)
    (hlen : text.length < Merge.buff) :
    Merge.main atoi ch2 (text ++ [0]) = some (.full (numbersOf atoi text)) := by
  have hstr : str (text ++ [0]) = some text := str_append h0 []
  have hcopy : strcpy ch2.toList (text ++ [0]) = some (text ++ 0 :: ch2.toList.drop (text.length + 1)) :=
    strcpy_spec hstr (by rw [Vector.length_toList]; exact hlen)
  rw [Merge.main, hcopy]
  exact readNumbers_spec (by decide) hstr (str_append h0 _)

/-! ## The line -/

namespace Threads

variable {st : State} {ch stdin rest : List Byte}

theorem turn_blank (h : str (st.mem .ch) = some [newline]) : turn atoi st = some (none, st) := by
  simp [turn, h]

theorem turn_text (hne : text ≠ []) (hnl : newline ∉ text)
    (h : str (st.mem .ch) = some (text ++ [newline]))
    (hlen : text.length < (st.mem .ch2).length) :
    ∃ st', turn atoi st = some (some (.full (numbersOf atoi text)), st') := by
  obtain ⟨st', hst', hch, hother⟩ := strtok_line hne hnl (.inl h)
  have hcopy : strcpy (st'.mem .ch2) ((st'.mem .ch).drop 0) =
      some (text ++ 0 :: (st'.mem .ch2).drop (text.length + 1)) :=
    strcpy_spec hch (by rw [hother .ch2 (by decide)]; exact hlen)
  have hread : readNumbers atoi (st'.set .ch2 (text ++ 0 :: (st'.mem .ch2).drop (text.length + 1)))
      Buf.ch2 Buf.ch = some (.full (numbersOf atoi text)) := by
    refine readNumbers_spec (by decide) ?_ ?_
    · rw [Strtok.set_mem_of_ne (by decide)]
      exact hch
    · rw [Strtok.set_mem]
      exact str_append (str_eq_some.mp hch).1 _
  have hline : text ++ [newline] ≠ [newline] ∧ (text ++ [newline]).length ≠ 1 := by
    simpa using hne
  refine ⟨st'.set .ch2 (text ++ 0 :: (st'.mem .ch2).drop (text.length + 1)), ?_⟩
  simp only [turn, h, hst', hcopy, hread, Option.bind_eq_bind, Option.bind_some, if_pos hline]

theorem inputLoop_some (h : fgets buff (st.mem .ch) stdin = some (ch, rest)) :
    inputLoop atoi st stdin =
      match turn atoi (st.set .ch ch) with
      | none => none
      | some (some numbers, _) => some numbers
      | some (none, st) => inputLoop atoi st rest := by
  rw [inputLoop]
  split
  · rename_i hnone
    cases hnone.symm.trans h
  · rename_i ch' rest' hsome
    cases hsome.symm.trans h
    rfl

/-- A line that is only a newline leaves nothing behind but itself. -/
theorem inputLoop_blank (st : State) (stdin : List Byte) :
    inputLoop atoi st (newline :: stdin) =
      inputLoop atoi (st.set .ch ([newline] ++ 0 :: (st.mem .ch).drop 2)) stdin := by
  have hch : str ((st.set .ch ([newline] ++ 0 :: (st.mem .ch).drop 2)).mem .ch) = some [newline] := by
    rw [Strtok.set_mem]
    exact str_append (by decide) _
  have hf : fgets buff (st.mem .ch) (newline :: stdin) =
      some ([newline] ++ 0 :: (st.mem .ch).drop 2, stdin) :=
    fgets_short List.not_mem_nil (by decide) stdin
  rw [inputLoop_some hf, turn_blank hch]

theorem inputLoop_text (hne : text ≠ []) (hnl : newline ∉ text) (h0 : 0 ∉ text)
    (hlen : text.length < buff - 1) (hch2 : (st.mem .ch2).length = buff) (stdin : List Byte) :
    inputLoop atoi st (text ++ newline :: stdin) = some (.full (numbersOf atoi text)) := by
  have hf : fgets buff (st.mem .ch) (text ++ newline :: stdin) =
      some ((text ++ [newline]) ++ 0 :: (st.mem .ch).drop (text.length + 2), stdin) :=
    fgets_short hnl hlen stdin
  have h0' : 0 ∉ text ++ [newline] := by
    rw [List.mem_append, not_or]
    exact ⟨h0, by decide⟩
  have hch2' (m : List Byte) : ((st.set .ch m).mem .ch2).length = buff :=
    (congrArg List.length (Strtok.set_mem_of_ne (by decide) st m)).trans hch2
  obtain ⟨st', hst'⟩ := turn_text hne hnl
    ((congrArg str (Strtok.set_mem st .ch _)).trans (str_append h0' _))
    (by rw [hch2']; omega)
  rw [inputLoop_some hf, hst']

/-- Blank lines before the text are skipped. -/
theorem inputLoop_spec (hne : text ≠ []) (hnl : newline ∉ text) (h0 : 0 ∉ text)
    (hlen : text.length < buff - 1) (blank : ℕ) (hch2 : (st.mem .ch2).length = buff)
    (stdin : List Byte) :
    inputLoop atoi st (List.replicate blank newline ++ (text ++ newline :: stdin)) =
      some (.full (numbersOf atoi text)) := by
  induction blank generalizing st with
  | zero => exact inputLoop_text hne hnl h0 hlen hch2 stdin
  | succ blank ih =>
    rw [List.replicate_succ, List.cons_append, inputLoop_blank]
    refine ih ?_
    rw [Strtok.set_mem_of_ne (by decide)]
    exact hch2

end Threads

/-! ## Both programs -/

/-- For every text of a line that fits the array, both programs fill, with the same numbers, as
many cells as they counted. -/
theorem same_numbers (atoi : List Byte → ℤ) (hnl : newline ∉ text) (h0 : 0 ∉ text)
    (hpos : 1 ≤ text.length) (hlen : text.length ≤ 198) (blank : ℕ) (stdin : List Byte)
    (ch ch2 : Vector Byte Threads.buff) (copy : Vector Byte Merge.buff) :
    Threads.main atoi ch ch2 (List.replicate blank newline ++ (text ++ newline :: stdin)) =
      some (.full (numbersOf atoi text)) ∧
    Merge.main atoi copy (text ++ [0]) = some (.full (numbersOf atoi text)) := by
  have hthreads : Threads.buff = 200 := rfl
  have hmerge : Merge.buff = 20000 := rfl
  refine ⟨?_, Merge.main_spec h0 (by omega)⟩
  exact Threads.inputLoop_spec (List.length_pos_iff.mp hpos) hnl h0 (by omega) blank
    Vector.length_toList stdin

/-- A blank line, and then `,7,,42` with two commas too many. -/
theorem same_numbers_two :
    (Threads.main (fun w => w.foldl (fun n c => 10 * n + (c.toNat - 48)) 0) (.replicate _ 0)
      (.replicate _ 0) ([newline] ++ ([44, 55, 44, 44, 52, 50] ++ newline :: [])) =
        some ⟨2, [7, 42], 2⟩) ∧
    Merge.main (fun w => w.foldl (fun n c => 10 * n + (c.toNat - 48)) 0) (.replicate _ 0)
      ([44, 55, 44, 44, 52, 50] ++ [0]) = some ⟨2, [7, 42], 2⟩ :=
  same_numbers _ (by decide) (by decide) (by decide) (by decide) 1
    [] _ _ _

end MergeInput
