import SistemasOperativos.Shell.Code

/-!
# Commands of a text

The loop takes a line in blocks of 199 bytes and runs each block as a command. Here the
lines are taken from a text that nobody else moves.
-/
namespace Shell

open Text

variable {st : State} {line block w text : List Byte} {lines pieces : List (List Byte)}

/-! ## What should be executed -/

def words (line : List Byte) : Args := tokens [space].contains line

/-- One vector for each line that has a word, up to the first `exit`. -/
def commands (lines : List (List Byte)) : List Args :=
  ((lines.takeWhile (· ≠ exit)).map words).filter (· ≠ [])

/-- A line of the input, which has no byte that ends a line or a string. -/
def IsLine (line : List Byte) : Prop := newline ∉ line ∧ 0 ∉ line

instance : DecidablePred IsLine := fun _ => inferInstanceAs (Decidable (_ ∧ _))

theorem commands_exit : commands (exit :: lines) = [] := by
  simp [commands]

theorem commands_cons (h : line ≠ exit) :
    commands (line :: lines) = [words line].filter (· ≠ []) ++ commands lines := by
  cases hw : words line <;> simp [commands, h, hw]

/-! ## The child -/

theorem argv_append (ws : Args) (ps : List (Option (List Byte))) :
    argv (ws.map some ++ none :: ps) = some ws := by
  induction ws with
  | nil => rfl
  | cons w ws ih =>
    rw [List.map_cons, List.cons_append, argv, ih]
    rfl

/-- The vector of a block, if it has a word. -/
def vector (block : List Byte) : Option Args := if words block = [] then none else some (words block)

theorem vector_toList (block : List Byte) : (vector block).toList = [words block].filter (· ≠ []) := by
  unfold vector
  split <;> rename_i h <;> simp [h]

theorem execvp_spec (ws : Args) :
    execvp (ws.map some ++ [none, none]) = some (if ws = [] then none else some ws) := by
  cases ws with
  | nil => rfl
  | cons w ws =>
    have hargv := argv_append (w :: ws) [none]
    simp only [execvp, List.map_cons, List.cons_append, List.getElem?_cons_zero,
      Option.bind_eq_bind, Option.bind_some, reduceCtorEq, if_false] at hargv ⊢
    rw [hargv]
    rfl

theorem words_single (hs : space ∉ line) (hne : line ≠ []) : words line = [line] :=
  tokens_word (contains_of_not_mem hs) hne

/-- The array takes the words and two more pointers than there are words. -/
theorem fill_parameters (ws : Args) :
    ws.foldlM (fun a p => push a (some p)) (List.replicate (1 + ws.length + 1) none, 0) =
      some (ws.map some ++ [none, none], ws.length) := by
  have hpush := foldlM_push some ws [] (List.replicate (1 + ws.length + 1) none)
    (by rw [List.length_replicate]; omega)
  rw [List.nil_append, List.nil_append, List.drop_replicate,
    show 1 + ws.length + 1 - ws.length = 2 by omega, List.length_nil, Nat.zero_add] at hpush
  exact hpush

theorem child_spec (hne : block ≠ []) (hch : str (st.mem .ch) = some block)
    (hlen : block.length < (st.mem .ch2).length) :
    child (.ch, 0) st = some (vector block) := by
  by_cases hs : space ∈ block
  · have hcopy := strcpy_spec hch hlen
    have hch' : str ((st.set .ch2 (block ++ 0 :: (st.mem .ch2).drop (block.length + 1))).mem .ch) =
        some block := by
      rw [Strtok.set_mem_of_ne (by decide)]
      exact hch
    have hch2 : str ((st.set .ch2 (block ++ 0 :: (st.mem .ch2).drop (block.length + 1))).mem .ch2) =
        some block := by
      rw [Strtok.set_mem]
      exact str_append (str_eq_some.mp hch).1 _
    obtain ⟨st', st'', hcount, hfill⟩ := scan_copy (b := Buf.ch) (by decide) hch' hch2
      (foldlM_count (tokens [space].contains block) 1)
      (fill_parameters (tokens [space].contains block))
    simp only [child, hch, hcopy, hcount, hfill, Option.bind_eq_bind, Option.bind_some, if_pos hs]
    exact execvp_spec _
  · have hruta : st.str (.ch, 0) = some block := hch
    simp [child, hch, hs, hruta, vector, words_single hs hne]

/-! ## One round -/

/-- What a turn hands to `exec`; `exit` leaves the loop without a vector. -/
def Turn.args : Turn → Option (List Args)
  | .skip => some []
  | .exit => none
  | .fork args => some args.toList

/-- The array holds a block with its newline, or one that fills the array. -/
def Holds (st : State) (block : List Byte) : Prop :=
  str (st.mem .ch) = some (block ++ [newline]) ∨ str (st.mem .ch) = some block ∧ 2 ≤ block.length

theorem turn_spec (hnl : newline ∉ block) (h : Holds st block)
    (hlen : block.length < (st.mem .ch2).length) :
    ∃ st' t, st'.mem .ch2 = st.mem .ch2 ∧ turn st = some (t, st') ∧
      t.args = if block = exit then none else some ([words block].filter (· ≠ [])) := by
  by_cases hne : block = []
  · subst hne
    obtain h | ⟨-, h⟩ := h
    · exact ⟨st, .skip, rfl, by simp [turn, h], by decide⟩
    · cases h
  · obtain ⟨text, htext, h1, h2⟩ : ∃ text, str (st.mem .ch) = some text ∧ text ≠ [newline] ∧
        text.length ≠ 1 := by
      obtain h | ⟨h, hlong⟩ := h
      · exact ⟨_, h, by simpa using hne, by simpa using hne⟩
      · refine ⟨_, h, ?_, by omega⟩
        rintro rfl
        exact hnl (by simp)
    obtain ⟨st', hst', hch, hother⟩ := strtok_line hne hnl (h.imp_right And.left)
    have hch2 : st'.mem .ch2 = st.mem .ch2 := hother .ch2 (by decide)
    have hruta : st'.str (.ch, 0) = some block := hch
    by_cases hexit : block = exit
    · refine ⟨st', .exit, hch2, ?_, by simp [hexit, Turn.args]⟩
      simp [turn, htext, h1, h2, hst', hruta, hexit]
    · have hchild := child_spec hne hch (by rw [hch2]; exact hlen)
      refine ⟨st', .fork (vector block), hch2, ?_, ?_⟩
      · simp [turn, htext, h1, h2, hst', hruta, hexit, hchild]
      · simp only [Turn.args, vector_toList, hexit, if_false]

/-! ## The loop -/

/-- The vectors in the order of the calls, where the lines come from a text. -/
def commandLoop (st : State) (text : List Byte) : Option (List Args) :=
  match h : fgets buff (st.mem .ch) text with
  | none => some []
  | some (ch, rest) =>
    have _ := fgets_length (by decide) h
    match turn (st.set .ch ch) with
    | none => none
    | some (t, st) =>
      match t.args with
      | none => some []
      | some args => (commandLoop st rest).map (args ++ ·)
termination_by text.length

theorem commandLoop_none {stdin : List Byte} (h : fgets buff (st.mem .ch) stdin = none) :
    commandLoop st stdin = some [] := by
  rw [commandLoop]
  split
  · rfl
  · rename_i hsome
    cases hsome.symm.trans h

theorem commandLoop_some {ch stdin rest : List Byte} (h : fgets buff (st.mem .ch) stdin = some (ch, rest)) :
    commandLoop st stdin =
      match turn (st.set .ch ch) with
      | none => none
      | some (t, st) =>
        match t.args with
        | none => some []
        | some args => (commandLoop st rest).map (args ++ ·) := by
  rw [commandLoop]
  split
  · rename_i hnone
    cases hnone.symm.trans h
  · rename_i ch' rest' hsome
    cases hsome.symm.trans h
    rfl

/-- The arrays of the loop, of which only `ch2` could be too short. -/
def Ready (st : State) : Prop := (st.mem .ch2).length = buff

theorem commandLoop_block {stdin rest m : List Byte} (hst : Ready st) (hnl : newline ∉ block)
    (hlen : block.length < buff) (h0 : 0 ∉ text)
    (hf : fgets buff (st.mem .ch) stdin = some (text ++ 0 :: m, rest))
    (htext : text = block ++ [newline] ∨ text = block ∧ 2 ≤ block.length)
    (ih : ∀ st, Ready st → commandLoop st rest = some (commands pieces)) :
    commandLoop st stdin = some (commands (block :: pieces)) := by
  have hch : str ((st.set .ch (text ++ 0 :: m)).mem .ch) = some text := by
    rw [Strtok.set_mem]
    exact str_append h0 m
  have hholds : Holds (st.set .ch (text ++ 0 :: m)) block := by
    rw [Holds, hch]
    simpa only [Option.some.injEq] using htext
  have hch2 : (st.set .ch (text ++ 0 :: m)).mem .ch2 = st.mem .ch2 := Strtok.set_mem_of_ne (by decide) ..
  obtain ⟨st', t, hst', hturn, hargs⟩ := turn_spec hnl hholds (by rw [hch2, hst]; exact hlen)
  rw [commandLoop_some hf, hturn]
  simp only [hargs]
  by_cases hexit : block = exit
  · rw [if_pos hexit, hexit, commands_exit]
  · have hready : Ready st' := by
      rw [Ready, hst', hch2]
      exact hst
    rw [if_neg hexit, commands_cons hexit]
    simp only [ih st' hready]
    rfl

theorem commandLoop_line (hl : IsLine line) (hst : Ready st)
    (ih : ∀ st, Ready st → commandLoop st text = some (commands pieces)) :
    commandLoop st (line ++ newline :: text) =
      some (commands (blocks (buff - 1) line ++ pieces)) := by
  have hbuff : buff - 1 = 199 := rfl
  induction line using blocks.induct (buff - 1) generalizing st with
  | case1 line hshort =>
    have hlt : line.length < buff - 1 := hshort.resolve_right (by decide)
    rw [blocks_short hlt]
    refine commandLoop_block hst hl.1 (by omega) ?_ (fgets_short hl.1 hlt text) (.inl rfl) ih
    rw [List.mem_append, not_or]
    exact ⟨hl.2, by decide⟩
  | case2 line hlong hih =>
    have hle : buff - 1 ≤ line.length := by omega
    rw [blocks_long (by decide) hle, List.cons_append]
    refine commandLoop_block hst ?_ ?_ ?_ (fgets_long hl.1 hle text) (.inr ⟨rfl, ?_⟩) ?_
    · exact fun h => hl.1 (List.mem_of_mem_take h)
    · rw [List.length_take]
      omega
    · exact fun h => hl.2 (List.mem_of_mem_take h)
    · rw [List.length_take]
      omega
    · intro st' hst'
      exact hih ⟨fun h => hl.1 (List.mem_of_mem_drop h), fun h => hl.2 (List.mem_of_mem_drop h)⟩ hst'

theorem commandLoop_spec (hl : ∀ line ∈ lines, IsLine line) (hst : Ready st) :
    commandLoop st (ofLines lines) =
      some (commands (lines.flatMap (blocks (buff - 1)))) := by
  induction lines generalizing st with
  | nil =>
    rw [commandLoop]
    rfl
  | cons line lines ih =>
    have htext : ofLines (line :: lines) = line ++ newline :: ofLines lines := by
      simp [ofLines]
    rw [htext, List.flatMap_cons]
    exact commandLoop_line (hl line (by simp)) hst fun st' hst' =>
      ih (fun l h => hl l (by simp [h])) hst'

/-! ## Lines that are taken as one command -/

/-- One block at most has a word, and none is `exit`. -/
def Single (blocks : List (List Byte)) : Prop :=
  blocks.countP (words · ≠ []) ≤ 1 ∧ exit ∉ blocks

theorem words_eq_nil : words line = [] ↔ ∀ c ∈ line, [space].contains c = true := tokens_eq_nil

theorem words_flatten_eq_nil : words pieces.flatten = [] ↔ ∀ block ∈ pieces, words block = [] := by
  simp only [words_eq_nil, List.mem_flatten, forall_exists_index, and_imp]
  exact ⟨fun h b hb c hc => h c b hb hc, fun h c b hb hc => h b hb c hc⟩

theorem words_append_blank (h : words w = []) : words (line ++ w) = words line :=
  tokens_append_blank (words_eq_nil.mp h)

theorem words_blank_append (h : words w = []) : words (w ++ line) = words line :=
  tokens_blank_append (words_eq_nil.mp h)

/-- A text that adds no word adds nothing but spaces. -/
theorem words_append_eq (h : words (line ++ w) = words line) : words w = [] := by
  have hflat := congrArg List.flatten h
  simp only [words, flatten_tokens, List.filter_append] at hflat
  exact words_eq_nil.mpr (by simpa using hflat)

theorem words_exit : words exit ≠ [] := by
  decide

theorem ne_exit (h : words block = []) : block ≠ exit := by
  rintro rfl
  exact words_exit h

theorem single_cons_blank (h : words block = []) : Single (block :: pieces) ↔ Single pieces := by
  simp [Single, h, (ne_exit h).symm]

theorem single_cons_words (h : words block ≠ []) :
    Single (block :: pieces) ↔ block ≠ exit ∧ words pieces.flatten = [] := by
  rw [words_flatten_eq_nil, Single, List.countP_cons_of_pos (by simpa using h), List.mem_cons, not_or]
  constructor
  · rintro ⟨hcount, hne, -⟩
    have hzero : pieces.countP (words · ≠ []) = 0 := by omega
    exact ⟨Ne.symm hne, fun b hb => by simpa using List.countP_eq_zero.mp hzero b hb⟩
  · rintro ⟨hne, hall⟩
    have hzero : pieces.countP (words · ≠ []) = 0 :=
      List.countP_eq_zero.mpr fun b hb => by simp [hall b hb]
    exact ⟨by omega, Ne.symm hne, fun hexit => words_exit (hall exit hexit)⟩

theorem commands_blank (h : ∀ block ∈ pieces, words block = []) :
    commands (pieces ++ lines) = commands lines := by
  induction pieces with
  | nil => rfl
  | cons b pieces ih =>
    have hb : words b = [] := h b (by simp)
    rw [List.cons_append, commands_cons (ne_exit hb), ih fun c hc => h c (by simp [hc]), hb]
    rfl

theorem commands_single (h : Single pieces) : commands (pieces ++ lines) =
    [words pieces.flatten].filter (· ≠ []) ++ commands lines := by
  induction pieces with
  | nil => rfl
  | cons b pieces ih =>
    by_cases hb : words b = []
    · rw [List.cons_append, commands_cons (ne_exit hb), ih ((single_cons_blank hb).mp h), List.flatten_cons,
        words_blank_append hb, hb]
      rfl
    · obtain ⟨hne, hrest⟩ := (single_cons_words hb).mp h
      rw [List.cons_append, commands_cons hne, commands_blank (words_flatten_eq_nil.mp hrest),
        List.flatten_cons, words_append_blank hrest]

/-- The first block with a word decides what is executed next. -/
theorem single_of_commands {rest : List Args}
    (h : commands (pieces ++ lines) = [words pieces.flatten].filter (· ≠ []) ++ rest) :
    Single pieces := by
  induction pieces with
  | nil => exact ⟨Nat.zero_le 1, List.not_mem_nil⟩
  | cons b pieces ih =>
    by_cases hb : words b = []
    · rw [single_cons_blank hb]
      rw [List.cons_append, commands_cons (ne_exit hb), List.flatten_cons, words_blank_append hb, hb] at h
      exact ih h
    · have hall : words (b ++ pieces.flatten) ≠ [] := by
        intro hnil
        have hflat : words (b :: pieces).flatten = [] := hnil
        exact hb (words_flatten_eq_nil.mp hflat b (by simp))
      rw [List.cons_append, List.flatten_cons] at h
      by_cases hexit : b = exit
      · subst hexit
        rw [commands_exit] at h
        simp [hall] at h
      · rw [commands_cons hexit] at h
        have heq : words b = words (b ++ pieces.flatten) := by
          simp only [ne_eq, hb, not_false_eq_true, decide_true, List.filter_cons_of_pos,
            List.filter_nil, hall, List.cons_append, List.cons.injEq] at h
          exact h.1
        exact (single_cons_words hb).mpr ⟨hexit, words_append_eq heq.symm⟩

theorem commands_blocks (lines : List (List Byte)) :
    commands (lines.flatMap (blocks (buff - 1))) = commands lines ↔
      ∀ line ∈ lines.takeWhile (· ≠ exit), Single (blocks (buff - 1) line) := by
  induction lines with
  | nil => simp
  | cons line lines ih =>
    rw [List.flatMap_cons]
    by_cases hexit : line = exit
    · subst hexit
      rw [blocks_short (by decide), List.singleton_append, commands_exit, commands_exit]
      simp
    · have hflat : (blocks (buff - 1) line).flatten = line := flatten_blocks ..
      rw [commands_cons hexit, List.takeWhile_cons_of_pos (by simpa using hexit)]
      simp only [List.mem_cons, forall_eq_or_imp]
      generalize blocks (buff - 1) line = bs at hflat ⊢
      subst hflat
      constructor
      · intro h
        have hsingle := single_of_commands h
        rw [commands_single hsingle] at h
        exact ⟨hsingle, ih.mp (List.append_cancel_left h)⟩
      · rintro ⟨hsingle, hrest⟩
        rw [commands_single hsingle, ih.mpr hrest]

theorem single_short (h : line.length < buff - 1) (hne : line ≠ exit) :
    Single (blocks (buff - 1) line) := by
  rw [blocks_short h]
  exact ⟨List.countP_le_length, by simpa using hne.symm⟩

theorem ready_arrays (ch ch2 : Vector Byte buff) : Ready (arrays ch ch2) := ch2.size_toArray

end Shell
