import SistemasOperativos.Text.Decimal

/-! Numbers as `scanf` reads them. -/
namespace Text

/-- A value of the type `int`. -/
def IsInt (n : ℤ) : Prop := -2147483648 ≤ n ∧ n ≤ 2147483647

instance (n : ℤ) : Decidable (IsInt n) := inferInstanceAs (Decidable (_ ∧ _))

/-- The digits of a number, after its sign. -/
def scanDigits (sign : ℤ) (text : List Byte) : Option ℤ × List Byte :=
  if text.takeWhile isDigit = [] then (none, text) else (some (sign * value text), text.dropWhile isDigit)

/-- `%d`, with what is left of the text. A sign is used up even if no digit comes after it,
and a number out of the range of `int` is read as it is. -/
def scanD (text : List Byte) : Option ℤ × List Byte :=
  match text.dropWhile isSpace with
  | [] => (none, [])
  | c :: rest =>
    if c = minus then scanDigits (-1) rest
    else if c = plus then scanDigits 1 rest
    else scanDigits 1 (c :: rest)

variable {blanks rest : List Byte}

/-- A number with a sign or without, and with zeros before it or not. -/
inductive Numeral : ℤ → List Byte → Prop
  | plain {digits : List Byte} (hne : digits ≠ []) (hd : ∀ c ∈ digits, isDigit c = true) :
    Numeral (value digits) digits
  | minus {digits : List Byte} (hne : digits ≠ []) (hd : ∀ c ∈ digits, isDigit c = true) :
    Numeral (-value digits) (minus :: digits)
  | plus {digits : List Byte} (hne : digits ≠ []) (hd : ∀ c ∈ digits, isDigit c = true) :
    Numeral (value digits) (plus :: digits)

theorem Numeral.ne_nil {v : ℤ} {text : List Byte} (h : Numeral v text) : text ≠ [] := by
  cases h with
  | plain hne => exact hne
  | _ => exact List.cons_ne_nil _ _

theorem numeral_ld (n : ℤ) : Numeral n (ld n) := by
  have hne := decimal_ne_nil n.natAbs
  have hd : ∀ c ∈ decimal n.natAbs, isDigit c = true := fun c => isDigit_decimal
  have hv := value_decimal n.natAbs
  unfold ld
  split
  · have hneg : n = -value (decimal n.natAbs) := by omega
    nth_rewrite 1 [hneg]
    exact .minus hne hd
  · have hpos : n = value (decimal n.natAbs) := by omega
    nth_rewrite 1 [hpos]
    exact .plain hne hd

theorem takeWhile_digits {digits : List Byte} (hd : ∀ c ∈ digits, isDigit c = true)
    (hr : ∀ c, rest.head? = some c → isDigit c = false) :
    (digits ++ rest).takeWhile isDigit = digits ∧ (digits ++ rest).dropWhile isDigit = rest := by
  rw [List.takeWhile_append_of_pos hd, List.dropWhile_append_of_pos hd]
  cases rest with
  | nil => simp
  | cons c rest =>
    have hc : ¬ isDigit c = true := by simp [hr c rfl]
    rw [List.takeWhile_cons_of_neg hc, List.dropWhile_cons_of_neg hc, List.append_nil]
    exact ⟨rfl, rfl⟩

theorem scanDigits_digits (sign : ℤ) {digits : List Byte} (hne : digits ≠ [])
    (hd : ∀ c ∈ digits, isDigit c = true) (hr : ∀ c, rest.head? = some c → isDigit c = false) :
    scanDigits sign (digits ++ rest) = (some (sign * value digits), rest) := by
  obtain ⟨htake, hdrop⟩ := takeWhile_digits hd hr
  have hself : digits.takeWhile isDigit = digits := List.takeWhile_eq_self_iff.mpr hd
  rw [scanDigits, htake, if_neg hne, hdrop, value, value, htake, hself]

theorem dropWhile_blanks (hb : ∀ c ∈ blanks, isSpace c = true) {text : List Byte} {c : Byte}
    (hc : isSpace c = false) : (blanks ++ c :: text).dropWhile isSpace = c :: text := by
  rw [List.dropWhile_append_of_pos hb, List.dropWhile_cons_of_neg (by simp [hc])]

/-- A number comes back, whatever blanks are before it. -/
theorem scanD_numeral (hb : ∀ c ∈ blanks, isSpace c = true) {v : ℤ} {text : List Byte}
    (h : Numeral v text) (hr : ∀ c, rest.head? = some c → isDigit c = false) :
    scanD (blanks ++ (text ++ rest)) = (some v, rest) := by
  unfold scanD
  cases h with
  | minus hne hd =>
    rw [List.cons_append, dropWhile_blanks hb (by decide)]
    simp only [if_true, scanDigits_digits _ hne hd hr, Int.neg_one_mul]
  | plus hne hd =>
    have hsign : plus ≠ minus := by decide
    rw [List.cons_append, dropWhile_blanks hb (by decide)]
    simp only [hsign, if_true, if_false, scanDigits_digits _ hne hd hr, Int.one_mul]
  | plain hne hd =>
    have hscan := scanDigits_digits 1 hne hd hr
    obtain ⟨c, ds, hc⟩ := List.exists_cons_of_ne_nil hne
    have hdigit : isDigit c = true := hd c (hc ▸ List.mem_cons_self)
    have hsign : c ≠ minus ∧ c ≠ plus := by
      constructor <;> (rintro rfl; cases hdigit)
    rw [hc, List.cons_append] at hscan ⊢
    rw [dropWhile_blanks hb (not_isSpace_of_isDigit hdigit)]
    simp only [hsign.1, hsign.2, if_false, hscan, Int.one_mul]

theorem scanD_ld (hb : ∀ c ∈ blanks, isSpace c = true) (n : ℤ)
    (hr : ∀ c, rest.head? = some c → isDigit c = false) :
    scanD (blanks ++ (ld n ++ rest)) = (some n, rest) :=
  scanD_numeral hb (numeral_ld n) hr

/-- A sign without a number is used up, and no number comes of it. -/
theorem scanD_sign (hb : ∀ c ∈ blanks, isSpace c = true) {sign : Byte}
    (hs : sign = minus ∨ sign = plus) (hr : ∀ c, rest.head? = some c → isDigit c = false) :
    scanD (blanks ++ sign :: rest) = (none, rest) := by
  have hnone : rest.takeWhile isDigit = [] := by
    cases rest with
    | nil => rfl
    | cons c rest => exact List.takeWhile_cons_of_neg (by simp [hr c rfl])
  unfold scanD
  obtain rfl | rfl := hs
  · rw [dropWhile_blanks hb (by decide)]
    simp only [if_true, scanDigits, hnone]
  · have hsign : plus ≠ minus := by decide
    rw [dropWhile_blanks hb (by decide)]
    simp only [hsign, if_true, if_false, scanDigits, hnone]

/-- What a conversion can find first: a number, a sign alone, or a byte that no number has. -/
theorem scan_cases (c : Byte) (rest : List Byte) :
    (∃ v text rest', c :: rest = text ++ rest' ∧ Numeral v text ∧
      ∀ c, rest'.head? = some c → isDigit c = false) ∨
    ((c = minus ∨ c = plus) ∧ ∀ c, rest.head? = some c → isDigit c = false) ∨
    isDigit c = false ∧ c ≠ minus ∧ c ≠ plus := by
  have hend : ∀ text : List Byte, ∀ c, (text.dropWhile isDigit).head? = some c → isDigit c = false := by
    intro text c hc
    have hnot := List.head?_dropWhile_not isDigit text
    rw [hc] at hnot
    simpa using hnot
  have hall : ∀ text : List Byte, ∀ c ∈ text.takeWhile isDigit, isDigit c = true :=
    fun text c hc => List.mem_takeWhile_imp hc
  have hsplit := List.takeWhile_append_dropWhile (p := isDigit) (l := rest)
  by_cases hdigit : isDigit c = true
  · refine .inl ⟨_, c :: rest.takeWhile isDigit, _, ?_, .plain (List.cons_ne_nil _ _) ?_, hend rest⟩
    · rw [List.cons_append, hsplit]
    · simpa [hdigit] using hall rest
  by_cases hsign : c = minus ∨ c = plus
  · by_cases hnone : rest.takeWhile isDigit = []
    · refine .inr (.inl ⟨hsign, ?_⟩)
      rw [hnone, List.nil_append] at hsplit
      rw [← hsplit]
      exact hend rest
    · left
      obtain rfl | rfl := hsign
      · exact ⟨_, _, _, by rw [List.cons_append, hsplit], .minus hnone (hall rest), hend rest⟩
      · exact ⟨_, _, _, by rw [List.cons_append, hsplit], .plus hnone (hall rest), hend rest⟩
  · exact .inr (.inr ⟨by simpa using hdigit, not_or.mp hsign⟩)

/-- No number can be read from here: the end of the text, or a byte that no number has. -/
def Stuck (text : List Byte) : Prop :=
  ∀ c, (text.dropWhile isSpace).head? = some c → isDigit c = false ∧ c ≠ minus ∧ c ≠ plus

theorem stuck_nil : Stuck [] := by
  intro c hc
  cases hc

/-- The text stays stuck at the same byte. -/
theorem scanD_stuck {text : List Byte} (h : Stuck text) :
    ∃ text', scanD text = (none, text') ∧ Stuck text' := by
  unfold scanD
  cases ht : text.dropWhile isSpace with
  | nil => exact ⟨[], rfl, stuck_nil⟩
  | cons c rest =>
    obtain ⟨hd, hm, hp⟩ := h c (by rw [ht]; rfl)
    refine ⟨c :: rest, ?_, ?_⟩
    · simp only [hm, hp, if_false]
      rw [scanDigits, List.takeWhile_cons_of_neg (by simp [hd]), if_pos rfl]
    · have hhead : isSpace c = false := by
        have hne := List.head?_dropWhile_not isSpace text
        rw [ht] at hne
        simpa using hne
      intro c' hc'
      rw [List.dropWhile_cons_of_neg (by simp [hhead])] at hc'
      obtain rfl := Option.some.inj hc'
      exact ⟨hd, hm, hp⟩

end Text
