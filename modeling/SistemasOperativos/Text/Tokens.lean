import Mathlib.Data.List.TakeWhile
import Mathlib.Tactic.Common

/-! The maximal words of a list without delimiters. -/
namespace Text

variable {α : Type} {p : α → Bool} {a b l w : List α} {c : α}

def tokens (p : α → Bool) (l : List α) : List (List α) := (l.splitOnP p).filter fun w => !w.isEmpty

@[simp] theorem tokens_nil : tokens p [] = [] := by
  simp [tokens]

theorem tokens_append_cons (hc : p c = true) : tokens p (a ++ c :: b) = tokens p a ++ tokens p b := by
  rw [tokens, List.splitOnP_append_cons a b hc, List.filter_append]
  rfl

theorem tokens_cons (hc : p c = true) : tokens p (c :: l) = tokens p l := by
  simpa using tokens_append_cons (a := []) (b := l) hc

theorem tokens_word (hw : ∀ x ∈ w, p x = false) (h : w ≠ []) : tokens p w = [w] := by
  simp [tokens, List.splitOnP_eq_singleton hw, h]

theorem contains_of_not_mem [BEq α] [LawfulBEq α] (h : c ∉ w) : ∀ x ∈ w, [c].contains x = false := by
  intro x hx
  simp only [List.contains_cons, List.contains_nil, Bool.or_false, beq_eq_false_iff_ne]
  rintro rfl
  exact h hx

theorem tokens_blank_append (h : ∀ x ∈ b, p x = true) : tokens p (b ++ a) = tokens p a := by
  induction b with
  | nil => rfl
  | cons c b ih =>
    rw [List.cons_append, tokens_cons (h c (by simp))]
    exact ih fun x hx => h x (by simp [hx])

theorem tokens_blank (h : ∀ x ∈ l, p x = true) : tokens p l = [] := by
  simpa using tokens_blank_append (a := []) h

theorem tokens_append_blank (h : ∀ x ∈ b, p x = true) : tokens p (a ++ b) = tokens p a := by
  cases b with
  | nil => rw [List.append_nil]
  | cons c b =>
    have hb : tokens p b = [] := tokens_blank fun x hx => h x (List.mem_cons_of_mem c hx)
    rw [tokens_append_cons (h c List.mem_cons_self), hb, List.append_nil]

theorem flatten_filter_isEmpty (ws : List (List α)) :
    (ws.filter fun w => !w.isEmpty).flatten = ws.flatten := by
  induction ws with
  | nil => rfl
  | cons w ws ih => cases w <;> simp [ih]

theorem flatten_splitOnP (p : α → Bool) (l : List α) :
    (l.splitOnP p).flatten = l.filter fun c => !p c := by
  induction l with
  | nil => simp
  | cons c l ih =>
    rw [List.splitOnP_cons_eq_if_modifyHead]
    split
    · rename_i hc
      simp [hc, ih]
    · rename_i hc
      obtain ⟨w, ws, hws⟩ := List.exists_cons_of_ne_nil (List.splitOnP_ne_nil p l)
      rw [hws] at ih ⊢
      simpa [hc] using ih

/-- The tokens have every element that is no delimiter, in order. -/
theorem flatten_tokens (p : α → Bool) (l : List α) :
    (tokens p l).flatten = l.filter fun c => !p c := by
  rw [tokens, flatten_filter_isEmpty, flatten_splitOnP]

theorem length_le_flatten {ws : List (List α)} (h : ∀ w ∈ ws, w ≠ []) :
    ws.length ≤ ws.flatten.length := by
  induction ws with
  | nil => exact le_rfl
  | cons w ws ih =>
    have hw := List.length_pos_iff.mpr (h w List.mem_cons_self)
    have hws := ih fun w' hw' => h w' (List.mem_cons_of_mem w hw')
    rw [List.flatten_cons, List.length_append, List.length_cons]
    omega

/-- There are no more words than bytes. -/
theorem length_tokens_le (p : α → Bool) (l : List α) : (tokens p l).length ≤ l.length := by
  have hle : (tokens p l).length ≤ (tokens p l).flatten.length := by
    apply length_le_flatten
    intro w hw
    have hne := (List.mem_filter.mp hw).2
    simpa using hne
  rw [flatten_tokens] at hle
  exact hle.trans (List.length_filter_le _ _)

theorem tokens_eq_nil : tokens p l = [] ↔ ∀ x ∈ l, p x = true := by
  constructor
  · intro h
    have hfilter := flatten_tokens p l
    rw [h] at hfilter
    simpa using hfilter.symm
  · exact tokens_blank

/-! ## The first token -/

/-- What comes before the first token. -/
def skipped (p : α → Bool) (l : List α) : List α := l.takeWhile p

def firstWord (p : α → Bool) (l : List α) : List α := (l.dropWhile p).takeWhile fun c => !p c

/-- What comes after the first token, with the delimiter that ends it. -/
def afterWord (p : α → Bool) (l : List α) : List α := (l.dropWhile p).dropWhile fun c => !p c

theorem skipped_append (p : α → Bool) (l : List α) :
    skipped p l ++ firstWord p l ++ afterWord p l = l := by
  rw [skipped, firstWord, afterWord, List.append_assoc, List.takeWhile_append_dropWhile,
    List.takeWhile_append_dropWhile]

theorem skipped_blank {x : α} (hx : x ∈ skipped p l) : p x = true := by
  simpa using List.mem_takeWhile_imp hx

theorem firstWord_spec {x : α} (hx : x ∈ firstWord p l) : p x = false := by
  simpa using List.mem_takeWhile_imp hx

theorem afterWord_cons (h : afterWord p l = c :: b) : p c = true := by
  have hhead := List.head?_dropWhile_not (fun c => !p c) (l.dropWhile p)
  rw [afterWord] at h
  rw [h] at hhead
  simpa using hhead

theorem firstWord_eq_nil : firstWord p l = [] ↔ tokens p l = [] := by
  rw [tokens_eq_nil, ← List.dropWhile_eq_nil_iff, firstWord]
  have hhead := List.head?_dropWhile_not p l
  cases hl : l.dropWhile p with
  | nil => simp
  | cons c b =>
    rw [hl] at hhead
    simp [show p c = false from hhead]

/-- There is nothing to skip before a word. -/
theorem skipped_word (hw : ∀ x ∈ w, p x = false) (hne : w ≠ [])
    (hb : ∀ c l, b = c :: l → p c = true) : skipped p (w ++ b) = [] ∧ firstWord p (w ++ b) = w := by
  have hskip : skipped p (w ++ b) = [] ∧ (w ++ b).dropWhile p = w ++ b := by
    cases w with
    | nil => exact absurd rfl hne
    | cons c w => simp [skipped, hw c (by simp)]
  refine ⟨hskip.1, ?_⟩
  rw [firstWord, hskip.2, List.takeWhile_append_of_pos fun x hx => by simp [hw x hx]]
  cases b with
  | nil => simp
  | cons c b => simp [hb c b rfl]

/-- The tokens are the first word and the tokens after its delimiter. -/
theorem tokens_first (h : firstWord p l ≠ []) :
    tokens p l = firstWord p l :: tokens p ((afterWord p l).drop 1) := by
  have hw := tokens_word (fun x hx => firstWord_spec (l := l) hx) h
  conv => lhs; rw [← skipped_append p l, List.append_assoc, tokens_blank_append fun x => skipped_blank]
  cases hb : afterWord p l with
  | nil => simp [hw]
  | cons c b => simp [tokens_append_cons (afterWord_cons hb), hw]

end Text
