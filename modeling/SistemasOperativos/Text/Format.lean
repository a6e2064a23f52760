import SistemasOperativos.Text.Scan

/-!
# Formatted text

`printf` with the conversions `%d` and `%s`, buffers that are cut to their size, and when a
text that is put together from pieces can be taken apart again, also if pieces were cut.
-/
namespace Text

inductive Arg
  | d (n : ℤ)
  | s (text : List Byte)

/-- The bytes of a literal. -/
def utf8 (s : String) : List Byte := s.toList.flatMap String.utf8EncodeChar

def conversions : List Char → List Arg → List Byte
  | '%' :: 'd' :: fmt, .d n :: args => ld n ++ conversions fmt args
  | '%' :: 's' :: fmt, .s text :: args => text ++ conversions fmt args
  | c :: fmt, args => String.utf8EncodeChar c ++ conversions fmt args
  | [], _ => []

def sprintf (fmt : String) (args : List Arg) : List Byte := conversions fmt.toList args

/-- What `snprintf` leaves in a buffer of `size` bytes. -/
def snprintf (size : ℕ) (text : List Byte) : List Byte :=
  if size = 0 then [] else text.take (size - 1) ++ [0]

/-- The bytes that `%s` prints of a buffer. -/
def cstring (buf : List Byte) : List Byte := buf.takeWhile (· ≠ 0)

theorem cstring_of_zero {text : List Byte} (h : 0 ∉ text) (rest : List Byte) :
    cstring (text ++ 0 :: rest) = text := by
  have hall : ∀ c ∈ text, decide (c ≠ 0) = true := by
    intro c hc
    exact decide_eq_true fun h0 => h (h0 ▸ hc)
  rw [cstring, List.takeWhile_append_of_pos hall]
  simp

/-- The zero takes the place of the last byte. -/
theorem snprintf_succ (size : ℕ) (text : List Byte) :
    snprintf (size + 1) text = text.take size ++ [0] := by
  simp [snprintf]

/-- An `int` has ten digits at most. -/
theorem ld_length {n : ℤ} (h : IsInt n) : (ld n).length ≤ 11 := by
  obtain ⟨hmin, hmax⟩ := h
  have hdecimal : (decimal n.natAbs).length ≤ 10 := decimal_length (k := 9) (by omega)
  unfold ld
  split
  · rw [List.length_cons]
    omega
  · omega

/-- A number and what comes after it, if that is no digit. -/
theorem ld_append_inj {n n' : ℤ} {text text' : List Byte} (h : ld n ++ text = ld n' ++ text')
    (ht : ∀ c, text.head? = some c → isDigit c = false)
    (ht' : ∀ c, text'.head? = some c → isDigit c = false) : n = n' ∧ text = text' := by
  have hnil : ∀ c ∈ ([] : List Byte), isSpace c = true := by simp
  have hs := scanD_ld hnil n ht
  have hs' := scanD_ld hnil n' ht'
  rw [h, hs'] at hs
  simpa [eq_comm] using hs

/-! ## Texts that can be told apart -/

/-- Nothing that comes after it can make one of these texts look like another. -/
def Distinct {α β : Type} (p : α → Prop) (f : α → List β) : Prop :=
  ∀ a b, p a → p b → ∀ text text', f a ++ text = f b ++ text' → a = b

theorem Distinct.of_incomparable {α β : Type} {f : α → List β} (hf : ∀ a b, f a <+: f b → a = b) :
    Distinct (fun _ => True) f := by
  intro a b _ _ text text' h
  obtain hp | hp := List.prefix_or_prefix_of_prefix (List.prefix_append (f a) text)
    (h ▸ List.prefix_append (f b) text')
  · exact hf a b hp
  · exact (hf b a hp).symm

/-- What comes after them cannot move the end of these texts, if it is of the kind `q`. -/
def Framed {α β : Type} (p : α → Prop) (q : List β → Prop) (f : α → List β) : Prop :=
  ∀ a b, p a → p b → ∀ text text', q text → q text' → f a ++ text = f b ++ text' → f a = f b

/-- What is written one after another falls into the same texts again. -/
theorem Framed.flatMap {α β : Type} {p : α → Prop} {q : List β → Prop} {f : α → List β}
    (hf : Framed p q f) (hne : ∀ a, p a → f a ≠ [])
    (hq : ∀ l : List α, (∀ a ∈ l, p a) → q (l.flatMap f)) {l l' : List α}
    (hl : ∀ a ∈ l, p a) (hl' : ∀ a ∈ l', p a) (h : l.flatMap f = l'.flatMap f) :
    List.Forall₂ (fun a b => p a ∧ p b ∧ f a = f b) l l' := by
  induction l generalizing l' with
  | nil =>
    cases l' with
    | nil => exact .nil
    | cons b l' =>
      have hnil : f b ++ l'.flatMap f = [] := h.symm
      exact absurd (List.append_eq_nil_iff.mp hnil).1 (hne b (hl' b List.mem_cons_self))
  | cons a l ih =>
    have ha := hl a List.mem_cons_self
    have hrest : ∀ c ∈ l, p c := fun c hc => hl c (List.mem_cons_of_mem a hc)
    cases l' with
    | nil =>
      have hnil : f a ++ l.flatMap f = [] := h
      exact absurd (List.append_eq_nil_iff.mp hnil).1 (hne a ha)
    | cons b l' =>
      have hb := hl' b List.mem_cons_self
      have hrest' : ∀ c ∈ l', p c := fun c hc => hl' c (List.mem_cons_of_mem b hc)
      have hab : f a ++ l.flatMap f = f b ++ l'.flatMap f := h
      have hfab := hf a b ha hb _ _ (hq l hrest) (hq l' hrest') hab
      rw [hfab] at hab
      exact .cons ⟨ha, hb, hfab⟩ (ih hrest hrest' (List.append_cancel_left hab))

/-! ## Lines that may end with an empty line -/

/-- A text without newline, with one newline or two after it. -/
inductive Paragraph : List Byte → Prop
  | one {text : List Byte} (h : newline ∉ text) : Paragraph (text ++ [newline])
  | two {text : List Byte} (h : newline ∉ text) : Paragraph (text ++ [newline, newline])

theorem Paragraph.of_dropWhile {par : List Byte}
    (h : par.dropWhile (· ≠ newline) = [newline] ∨ par.dropWhile (· ≠ newline) = [newline, newline]) :
    Paragraph par := by
  have hnot : newline ∉ par.takeWhile (· ≠ newline) := by
    intro hmem
    simpa using List.mem_takeWhile_imp hmem
  rw [← List.takeWhile_append_dropWhile (p := (· ≠ newline)) (l := par)]
  obtain h | h := h
  · rw [h]
    exact .one hnot
  · rw [h]
    exact .two hnot

/-- The text does not begin with an empty line. -/
def Opens (text : List Byte) : Prop := text.head? ≠ some newline

/-- A line that was cut, with a newline put after it. -/
theorem Paragraph.take {text : List Byte} (h : newline ∉ text) (n : ℕ) :
    Paragraph ((text ++ [newline]).take n ++ [newline]) := by
  obtain hn | hn := Nat.lt_or_ge text.length n
  · rw [List.take_of_length_le (by simpa using Nat.succ_le_of_lt hn), List.append_assoc]
    exact .two h
  · rw [List.take_append_of_le_length hn]
    exact .one fun hmem => h (List.mem_of_mem_take hmem)

theorem Paragraph.cons_append {text par : List Byte} (ht : newline ∉ text) (h : Paragraph par) :
    Paragraph (text ++ par) := by
  cases h with
  | one h =>
    rw [← List.append_assoc]
    exact .one (by simp [ht, h])
  | two h =>
    rw [← List.append_assoc]
    exact .two (by simp [ht, h])

theorem Paragraph.ne_nil {par : List Byte} (h : Paragraph par) : par ≠ [] := by
  cases h <;> simp

/-- Up to the first newline two texts agree. -/
theorem append_newline_inj {a b text text' : List Byte} (ha : newline ∉ a) (hb : newline ∉ b)
    (h : a ++ newline :: text = b ++ newline :: text') : a = b ∧ text = text' := by
  induction a generalizing b with
  | nil =>
    cases b with
    | nil => exact ⟨rfl, (List.cons.inj h).2⟩
    | cons c b => exact absurd ((List.cons.inj h).1 ▸ List.mem_cons_self) hb
  | cons c a ih =>
    cases b with
    | nil => exact absurd ((List.cons.inj h).1 ▸ List.mem_cons_self) ha
    | cons d b =>
      obtain ⟨rfl, htail⟩ := List.cons.inj h
      obtain ⟨rfl, rfl⟩ := ih (fun hm => ha (List.mem_cons_of_mem c hm))
        (fun hm => hb (List.mem_cons_of_mem c hm)) htail
      exact ⟨rfl, rfl⟩

/-- The end of a paragraph is seen if no empty line can come after it. -/
theorem paragraph_framed : Framed Paragraph Opens fun par => par := by
  intro a b ha hb text text' ht ht' h
  cases ha with
  | one ha =>
    cases hb with
    | one hb =>
      simp only [List.append_assoc, List.singleton_append] at h
      rw [(append_newline_inj ha hb h).1]
    | two hb =>
      simp only [List.append_assoc, List.cons_append, List.nil_append] at h
      rw [(append_newline_inj ha hb h).2] at ht
      exact absurd rfl ht
  | two ha =>
    cases hb with
    | one hb =>
      simp only [List.append_assoc, List.cons_append, List.nil_append] at h
      rw [← (append_newline_inj ha hb h).2] at ht'
      exact absurd rfl ht'
    | two hb =>
      simp only [List.append_assoc, List.cons_append, List.nil_append] at h
      rw [(append_newline_inj ha hb h).1]

end Text
