import Mathlib.Logic.Function.Basic
import SistemasOperativos.Text.Lines
import SistemasOperativos.Text.Tokens

/-!
# Strings in arrays

A string ends at its zero byte. A function that would read or write past the end of an
array has no result.
-/
namespace Text

variable {m l : List Byte}

def str : List Byte → Option (List Byte)
  | [] => none
  | c :: m => if c = 0 then some [] else (str m).map (c :: ·)

theorem str_append (h : 0 ∉ l) (m : List Byte) : str (l ++ 0 :: m) = some l := by
  induction l with
  | nil => rfl
  | cons c l ih =>
    rw [List.mem_cons, not_or] at h
    simp [str, ih h.2, Ne.symm h.1]

theorem str_eq_some : str m = some l ↔ 0 ∉ l ∧ ∃ rest, m = l ++ 0 :: rest := by
  constructor
  · intro h
    induction m generalizing l with
    | nil => cases h
    | cons c m ih =>
      rw [str] at h
      split at h
      · rename_i hc
        cases h
        exact ⟨List.not_mem_nil, m, by rw [hc]; rfl⟩
      · rename_i hc
        obtain ⟨l', hl', rfl⟩ := Option.map_eq_some_iff.mp h
        obtain ⟨h0, rest, rfl⟩ := ih hl'
        exact ⟨by simpa [Ne.symm hc] using h0, rest, rfl⟩
  · rintro ⟨h0, rest, rfl⟩
    exact str_append h0 rest

theorem str_drop {a b : List Byte} (h : str m = some (a ++ b)) : str (m.drop a.length) = some b := by
  obtain ⟨h0, rest, rfl⟩ := str_eq_some.mp h
  rw [List.append_assoc, List.drop_left]
  exact str_append (fun hb => h0 (List.mem_append_right a hb)) rest

/-- A zero byte put after the first part of a string ends it there. -/
theorem str_set {a b : List Byte} (h : str m = some (a ++ b)) : str (m.set a.length 0) = some a := by
  obtain ⟨h0, rest, rfl⟩ := str_eq_some.mp h
  have ha : 0 ∉ a := fun ha => h0 (List.mem_append_left b ha)
  rw [List.append_assoc, List.set_append_right _ _ (Nat.le_refl _), Nat.sub_self]
  cases b with
  | nil => exact str_append ha rest
  | cons c b => exact str_append ha (b ++ 0 :: rest)

theorem str_length_lt (h : str m = some l) : l.length < m.length := by
  obtain ⟨-, rest, rfl⟩ := str_eq_some.mp h
  simp

def strcpy (dst src : List Byte) : Option (List Byte) := do
  let l ← str src
  if l.length < dst.length then some (l ++ 0 :: dst.drop (l.length + 1)) else none

theorem strcpy_spec {dst src : List Byte} (h : str src = some l) (hl : l.length < dst.length) :
    strcpy dst src = some (l ++ 0 :: dst.drop (l.length + 1)) := by
  simp [strcpy, h, hl]

/-- `array[i] = v; i++`. -/
def push {β : Type} (a : List β × ℕ) (v : β) : Option (List β × ℕ) :=
  if a.2 < a.1.length then some (a.1.set a.2 v, a.2 + 1) else none

theorem foldlM_push {β γ : Type} (f : γ → β) (ws : List γ) (done rest : List β)
    (h : ws.length ≤ rest.length) :
    ws.foldlM (fun a w => push a (f w)) (done ++ rest, done.length) =
      some (done ++ ws.map f ++ rest.drop ws.length, done.length + ws.length) := by
  induction ws generalizing done rest with
  | nil => simp
  | cons w ws ih =>
    cases rest with
    | nil => simp at h
    | cons v rest =>
      have hpush : push (done ++ v :: rest, done.length) (f w) =
          some ((done ++ [f w]) ++ rest, (done ++ [f w]).length) := by
        simp [push]
      rw [List.foldlM_cons, hpush, Option.bind_eq_bind, Option.bind_some, ih _ _ (by simpa using h)]
      simp only [List.map_cons, List.length_append, List.length_cons, List.length_nil,
        List.drop_succ_cons, List.append_assoc, List.cons_append, List.nil_append]
      congr 2
      omega

/-- `size++`. -/
theorem foldlM_count {γ : Type} (ws : List γ) (size : ℕ) :
    ws.foldlM (fun size _ => some (size + 1)) size = some (size + ws.length) := by
  induction ws generalizing size with
  | nil => rfl
  | cons w ws ih =>
    rw [List.foldlM_cons, Option.bind_eq_bind, Option.bind_some, ih, List.length_cons]
    congr 1
    omega

/-! ## `strtok` -/

/-- The arrays `B`, and the position that `strtok` keeps between its calls. -/
structure Strtok (B : Type) where
  mem : B → List Byte
  saved : Option (B × ℕ)

variable {B β : Type}

def Strtok.str (st : Strtok B) (p : B × ℕ) : Option (List Byte) := Text.str ((st.mem p.1).drop p.2)

variable [DecidableEq B]

def Strtok.set (st : Strtok B) (b : B) (m : List Byte) : Strtok B :=
  { st with mem := Function.update st.mem b m }

theorem Strtok.set_mem (st : Strtok B) (b : B) (m : List Byte) : (st.set b m).mem b = m :=
  Function.update_self ..

theorem Strtok.set_mem_of_ne {b c : B} (h : c ≠ b) (st : Strtok B) (m : List Byte) :
    (st.set b m).mem c = st.mem c :=
  Function.update_of_ne h ..

/-- A call that finds no token keeps the end of the string, so that later calls find none
either. -/
def strtok (st : Strtok B) (s : Option (B × ℕ)) (delim : List Byte) :
    Option (Option (B × ℕ) × Strtok B) :=
  match s.or st.saved with
  | none => some (none, st)
  | some (b, i) => do
    let l ← st.str (b, i)
    let start := i + (skipped delim.contains l).length
    let stop := start + (firstWord delim.contains l).length
    if start = stop then some (none, { st with saved := some (b, stop) })
    else if stop = i + l.length then some (some (b, start), { st with saved := some (b, stop) })
    else some (some (b, start),
      { mem := Function.update st.mem b ((st.mem b).set stop 0), saved := some (b, stop + 1) })

/-- `while (p != NULL) { body; p = strtok(NULL, delim); }`, with the rounds it may take. -/
def tokenLoop (delim : List Byte) (body : β → List Byte → Option β) :
    ℕ → Option (B × ℕ) → Strtok B → β → Option (β × Strtok B)
  | _, none, st, x => some (x, st)
  | 0, some _, _, _ => none
  | n + 1, some p, st, x => do
    let x ← body x (← st.str p)
    let (p, st) ← strtok st none delim
    tokenLoop delim body n p st x

/-- `p = strtok(b, delim)` and the loop over its tokens. -/
def scan (st : Strtok B) (b : B) (delim : List Byte) (body : β → List Byte → Option β) (x : β) :
    Option (β × Strtok B) := do
  let (p, st') ← strtok st (some (b, 0)) delim
  tokenLoop delim body (st.mem b).length p st' x

section Call
variable {st st' : Strtok B} {b : B} {i : ℕ} {s : Option (B × ℕ)} {delim : List Byte}
variable {body : β → List Byte → Option β} {x y : β} {n : ℕ}

theorem skipped_word_after (delim l : List Byte) : (skipped delim.contains l).length +
    (firstWord delim.contains l).length + (afterWord delim.contains l).length = l.length := by
  conv => rhs; rw [← skipped_append delim.contains l]
  simp only [List.length_append]

theorem strtok_none (hs : s.or st.saved = some (b, i)) (h : st.str (b, i) = some l)
    (ht : tokens delim.contains l = []) :
    ∃ j, strtok st s delim = some (none, { st with saved := some (b, j) }) := by
  have hw : firstWord delim.contains l = [] := firstWord_eq_nil.mpr ht
  exact ⟨i + (skipped delim.contains l).length, by simp [strtok, hs, h, hw]⟩

/-- What a call leaves that has found a token in `l`, the string at `i`. -/
structure Found (st st' : Strtok B) (b : B) (i : ℕ) (delim l : List Byte) : Prop where
  front : st'.str (b, i) = some (skipped delim.contains l ++ firstWord delim.contains l)
  rest : ∃ k, st'.saved = some (b, k) ∧ st'.str (b, k) = some ((afterWord delim.contains l).drop 1)
  other : ∀ c ≠ b, st'.mem c = st.mem c

omit [DecidableEq B] in
theorem Found.word (h : Found st st' b i delim l) :
    st'.str (b, i + (skipped delim.contains l).length) = some (firstWord delim.contains l) := by
  have hword := str_drop h.front
  rw [List.drop_drop] at hword
  exact hword

theorem strtok_some (hs : s.or st.saved = some (b, i)) (h : st.str (b, i) = some l)
    (ht : firstWord delim.contains l ≠ []) :
    ∃ st', strtok st s delim = some (some (b, i + (skipped delim.contains l).length), st') ∧
      Found st st' b i delim l := by
  have hlen := skipped_word_after delim l
  have hpos := List.length_pos_iff.mpr ht
  have hl := skipped_append delim.contains l
  cases hpost : afterWord delim.contains l with
  | nil =>
    rw [hpost, List.length_nil, Nat.add_zero] at hlen
    rw [hpost, List.append_nil] at hl
    have hstr : strtok st s delim = some (some (b, i + (skipped delim.contains l).length),
        { st with saved := some (b, i + l.length) }) := by
      simp [strtok, hs, h, ht, Nat.add_assoc, hlen]
    refine ⟨_, hstr, ?_, ⟨_, rfl, ?_⟩, fun _ _ => rfl⟩
    · exact h.trans (congrArg some hl.symm)
    · have hend : str (((st.mem b).drop i).drop l.length) = some [] :=
        str_drop (h.trans (congrArg some (List.append_nil l).symm))
      rw [List.drop_drop] at hend
      rw [hpost]
      exact hend
  | cons c post =>
    rw [hpost, List.length_cons] at hlen
    rw [hpost] at hl
    have hstop : i + (skipped delim.contains l).length + (firstWord delim.contains l).length ≠
        i + l.length := by
      omega
    have hstr : strtok st s delim = some (some (b, i + (skipped delim.contains l).length),
        { mem := Function.update st.mem b ((st.mem b).set (i + (skipped delim.contains l).length +
            (firstWord delim.contains l).length) 0),
          saved := some (b, i + (skipped delim.contains l).length +
            (firstWord delim.contains l).length + 1) }) := by
      simp [strtok, hs, h, ht, hstop]
    refine ⟨_, hstr, ?_, ⟨_, rfl, ?_⟩, fun c hc => Function.update_of_ne hc _ _⟩
    · have hset := str_set (h.trans (congrArg some hl.symm))
      simp only [Strtok.str, Function.update_self, List.drop_set]
      rw [if_neg (by omega), Nat.add_assoc, Nat.add_sub_cancel_left, ← List.length_append]
      exact hset
    · have hl' : l = (skipped delim.contains l ++ firstWord delim.contains l ++ [c]) ++ post := by
        rw [List.append_assoc, List.singleton_append]
        exact hl.symm
      have hrest := str_drop (h.trans (congrArg some hl'))
      simp only [Strtok.str, Function.update_self, List.drop_set]
      rw [if_pos (by omega), hpost]
      simp only [List.drop_drop, List.length_append, List.length_singleton, ← Nat.add_assoc] at hrest
      exact hrest

theorem tokenLoop_spec {w : List Byte} {p : B × ℕ} {k : ℕ} (hw : st.str p = some w)
    (hk : st.saved = some (b, k)) (h : st.str (b, k) = some l) (hn : l.length < n)
    (hy : (w :: tokens delim.contains l).foldlM body x = some y) :
    ∃ st', tokenLoop delim body n (some p) st x = some (y, st') ∧
      ∀ c ≠ b, st'.mem c = st.mem c := by
  induction n generalizing st p w l k x with
  | zero => omega
  | succ n ih =>
    obtain ⟨x', hx', hy⟩ := Option.bind_eq_some_iff.mp (List.foldlM_cons (m := Option) ▸ hy)
    by_cases ht : firstWord delim.contains l = []
    · have htokens := firstWord_eq_nil.mp ht
      obtain ⟨j, hj⟩ := strtok_none (s := none) hk h htokens
      rw [htokens] at hy
      cases hy
      have hloop : tokenLoop delim body (n + 1) (some p) st x =
          some (y, { st with saved := some (b, j) }) := by
        simp [tokenLoop, hw, hx', hj]
      exact ⟨_, hloop, fun _ _ => rfl⟩
    · obtain ⟨st', hst', hfound⟩ := strtok_some (s := none) hk h ht
      obtain ⟨k', hk', hrest⟩ := hfound.rest
      have hlen := skipped_word_after delim l
      have hpos := List.length_pos_iff.mpr ht
      rw [tokens_first ht] at hy
      obtain ⟨st'', hloop, hother⟩ := ih hfound.word hk' hrest (by rw [List.length_drop]; omega) hy
      refine ⟨st'', ?_, fun c hc => (hother c hc).trans (hfound.other c hc)⟩
      simp [tokenLoop, hw, hx', hst', hloop]

/-- The loop goes through the tokens of the string, and leaves the other arrays alone. -/
theorem scan_spec (h : str (st.mem b) = some l)
    (hy : (tokens delim.contains l).foldlM body x = some y) :
    ∃ st', scan st b delim body x = some (y, st') ∧ ∀ c ≠ b, st'.mem c = st.mem c := by
  have h0 : st.str (b, 0) = some l := h
  by_cases ht : firstWord delim.contains l = []
  · have htokens := firstWord_eq_nil.mp ht
    obtain ⟨j, hj⟩ := strtok_none (s := some (b, 0)) rfl h0 htokens
    rw [htokens] at hy
    cases hy
    have hscan : scan st b delim body x = some (x, { st with saved := some (b, j) }) := by
      simp [scan, hj, tokenLoop]
    exact ⟨_, hscan, fun _ _ => rfl⟩
  · obtain ⟨st', hst', hfound⟩ := strtok_some (s := some (b, 0)) rfl h0 ht
    obtain ⟨k, hk, hrest⟩ := hfound.rest
    have hlen := skipped_word_after delim l
    have hlt := str_length_lt h
    rw [tokens_first ht] at hy
    obtain ⟨st'', hloop, hother⟩ := tokenLoop_spec (n := (st.mem b).length) hfound.word hk hrest
      (by rw [List.length_drop]; omega) hy
    refine ⟨st'', ?_, fun c hc => (hother c hc).trans (hfound.other c hc)⟩
    rw [scan, hst']
    exact hloop

/-! ## The uses of a program -/

/-- A line is cut at its newline, if it has one. -/
theorem strtok_line (hne : l ≠ []) (hnl : newline ∉ l)
    (h : str (st.mem b) = some (l ++ [newline]) ∨ str (st.mem b) = some l) :
    ∃ st', strtok st (some (b, 0)) [newline] = some (some (b, 0), st') ∧
      str (st'.mem b) = some l ∧ ∀ c ≠ b, st'.mem c = st.mem c := by
  obtain ⟨post, hpost, hstr⟩ : ∃ post, (∀ c l, post = c :: l → [newline].contains c = true) ∧
      st.str (b, 0) = some (l ++ post) := by
    obtain h | h := h
    · refine ⟨[newline], fun c l hcl => ?_, h⟩
      cases hcl
      rfl
    · refine ⟨[], fun c l hcl => ?_, ?_⟩
      · cases hcl
      · rw [List.append_nil]
        exact h
  obtain ⟨hskip, hword⟩ := skipped_word (contains_of_not_mem hnl) hne hpost
  obtain ⟨st', hst', hfound⟩ := strtok_some (s := some (b, 0)) rfl hstr (by rw [hword]; exact hne)
  have hfront := hfound.front
  rw [hskip] at hst'
  rw [hskip, hword] at hfront
  exact ⟨st', hst', hfront, hfound.other⟩

/-- A copy of a string can be taken apart before the string is. -/
theorem scan_copy {γ : Type} {c : B} {count : γ → List Byte → Option γ} {u v : γ} (hne : b ≠ c)
    (hb : str (st.mem b) = some l) (hc : str (st.mem c) = some l)
    (hv : (tokens delim.contains l).foldlM count u = some v)
    (hy : (tokens delim.contains l).foldlM body x = some y) :
    ∃ st' st'', scan st c delim count u = some (v, st') ∧
      scan st' b delim body x = some (y, st'') := by
  obtain ⟨st', hcount, hother⟩ := scan_spec hc hv
  obtain ⟨st'', hbody, -⟩ := scan_spec ((congrArg str (hother b hne)).trans hb) hy
  exact ⟨st', st'', hcount, hbody⟩

end Call

end Text
