import Mathlib.Data.List.TakeWhile
import Mathlib.Tactic.Common
import SistemasOperativos.Text.Lines

/-! Numbers in decimal, as `printf` writes a `long` and as `atol` reads it. -/
namespace Text

def minus : Byte := 45

def plus : Byte := 43

def digit (d : ℕ) : Byte := UInt8.ofNat (48 + d)

def isDigit (c : Byte) : Bool := 48 ≤ c.toNat && c.toNat ≤ 57

/-- `isspace`. -/
def isSpace (c : Byte) : Bool := c.toNat = 32 || (9 ≤ c.toNat && c.toNat ≤ 13)

def decimal (n : ℕ) : List Byte :=
  if n < 10 then [digit n] else decimal (n / 10) ++ [digit (n % 10)]

/-- `%ld`. -/
def ld (n : ℤ) : List Byte := if n < 0 then minus :: decimal n.natAbs else decimal n.natAbs

/-- The number that the digits at the front of a text make. -/
def value (text : List Byte) : ℕ := (text.takeWhile isDigit).foldl (fun n c => 10 * n + (c.toNat - 48)) 0

/-- A number out of the range of `long` is read as it is. -/
def atol (text : List Byte) : ℤ :=
  let text := text.dropWhile isSpace
  if text.head? = some minus then -value text.tail
  else if text.head? = some plus then value text.tail
  else value text

/-! ## Digits -/

theorem toNat_digit {d : ℕ} (h : d < 10) : (digit d).toNat = 48 + d := by
  rw [digit, UInt8.toNat_ofNat']
  omega

theorem isDigit_digit {d : ℕ} (h : d < 10) : isDigit (digit d) = true := by
  simp only [isDigit, toNat_digit h, Bool.and_eq_true, decide_eq_true_eq]
  omega

theorem isDigit_decimal {n : ℕ} {c : Byte} (h : c ∈ decimal n) : isDigit c = true := by
  induction n using decimal.induct with
  | case1 n hn =>
    rw [decimal, if_pos hn, List.mem_singleton] at h
    rw [h, isDigit_digit hn]
  | case2 n hn ih =>
    rw [decimal, if_neg hn, List.mem_append, List.mem_singleton] at h
    obtain h | rfl := h
    · exact ih h
    · exact isDigit_digit (Nat.mod_lt n (by decide))

theorem decimal_ne_nil (n : ℕ) : decimal n ≠ [] := by
  rw [decimal]
  split <;> simp

theorem decimal_length {n k : ℕ} (h : n < 10 ^ (k + 1)) : (decimal n).length ≤ k + 1 := by
  induction k generalizing n with
  | zero =>
    rw [decimal, if_pos (by simpa using h)]
    rfl
  | succ k ih =>
    rw [decimal]
    split
    · exact Nat.le_add_left 1 _
    · have hdiv : n / 10 < 10 ^ (k + 1) := Nat.div_lt_of_lt_mul (by rwa [← Nat.pow_succ'])
      have hle := ih hdiv
      rw [List.length_append, List.length_singleton]
      omega

theorem value_decimal (n : ℕ) : value (decimal n) = n := by
  have hall : ∀ n, (decimal n).takeWhile isDigit = decimal n := fun n =>
    List.takeWhile_eq_self_iff.mpr fun c => isDigit_decimal
  unfold value
  rw [hall]
  induction n using decimal.induct with
  | case1 n hn =>
    rw [decimal, if_pos hn]
    simp [toNat_digit hn]
  | case2 n hn ih =>
    rw [decimal, if_neg hn, List.foldl_append, ih]
    simp only [List.foldl_cons, List.foldl_nil, toNat_digit (Nat.mod_lt n (by decide : 0 < 10))]
    omega

/-- A number is written with digits and a sign. -/
theorem not_mem_ld {c : Byte} (hd : isDigit c = false) (hm : c ≠ minus) (n : ℤ) : c ∉ ld n := by
  have hdecimal : ∀ n, c ∉ decimal n := fun n h => by cases hd.symm.trans (isDigit_decimal h)
  unfold ld
  split
  · rw [List.mem_cons, not_or]
    exact ⟨hm, hdecimal _⟩
  · exact hdecimal _

theorem zero_not_mem_ld : ∀ n : ℤ, 0 ∉ ld n := not_mem_ld rfl (by decide)

/-! ## Round trip -/

theorem not_isSpace_of_isDigit {c : Byte} (h : isDigit c = true) : isSpace c = false := by
  simp only [isDigit, isSpace, Bool.and_eq_true, Bool.or_eq_false_iff, Bool.and_eq_false_iff,
    decide_eq_true_eq, decide_eq_false_iff_not] at h ⊢
  omega

theorem atol_decimal (n : ℕ) : atol (decimal n) = n := by
  obtain ⟨c, rest, hc⟩ := List.exists_cons_of_ne_nil (decimal_ne_nil n)
  have hdigit : isDigit c = true := isDigit_decimal (n := n) (by rw [hc]; exact List.mem_cons_self)
  have hspace : (decimal n).dropWhile isSpace = decimal n := by
    rw [hc, List.dropWhile_cons_of_neg (by rw [not_isSpace_of_isDigit hdigit]; exact Bool.false_ne_true)]
  have hsign : c ≠ minus ∧ c ≠ plus := by
    constructor <;> (rintro rfl; cases hdigit)
  have hhead : (decimal n).head? = some c := by
    rw [hc]
    rfl
  simp only [atol, hspace, hhead, Option.some.injEq, hsign.1, hsign.2, if_false, value_decimal]

/-- Every number comes back. -/
theorem atol_ld (n : ℤ) : atol (ld n) = n := by
  by_cases hn : n < 0
  · have hspace : (minus :: decimal n.natAbs).dropWhile isSpace = minus :: decimal n.natAbs := rfl
    rw [ld, if_pos hn]
    simp only [atol, hspace, List.head?_cons, if_true, List.tail_cons, value_decimal]
    omega
  · rw [ld, if_neg hn, atol_decimal]
    omega

end Text
