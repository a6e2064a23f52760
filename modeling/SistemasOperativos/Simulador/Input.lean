import Mathlib.Data.List.ReduceOption
import SistemasOperativos.Simulador.Code
import SistemasOperativos.Threads.Effect

/-!
# What the user types

The loop of the simulator reads three numbers at a time, and looks neither at how many it
got nor at what stopped it.
-/
namespace Simulador

open Threads Threads.Program Text

variable {u : Session} {s s' : State} {a : Label} {tr : List Label} {vs : List (Option ℤ)} {ok : Bool}
variable {C : State → Label → Prop}

/-- One conversion of a `scanf`. -/
def converts : Label → Bool
  | .exec .main (.scanf _ _) _ => true
  | _ => false

/-- What it stores. -/
def stored : Label → Option (Block × ℤ)
  | .exec .main (.scanf k stdin) _ => (scanD stdin).1.map (target k, ·)
  | _ => none

/-- The block after `b` in the arguments of the `scanf`, which begin again after the third. -/
def next : Block → Block
  | .giro1 => .giro2
  | .giro2 => .alarma
  | _ => .giro1

/-- The numbers in turn to the three blocks, from `b` on. Where there is none the call is
over, and the next one begins with the first block. -/
def assign : Block → List (Option ℤ) → List (Option (Block × ℤ))
  | _, [] => []
  | b, some v :: vs => some (b, v) :: assign (next b) vs
  | _, none :: vs => none :: assign .giro1 vs

/-- A text of numbers, each an `int` after some blanks, and of signs without a number, and
then nothing that could be a number. -/
inductive Typed : List (Option ℤ) → List Byte → Prop
  | stuck {text : List Byte} (h : Stuck text) : Typed [] text
  | number {v : ℤ} {vs : List (Option ℤ)} {blanks digits text : List Byte} (hv : IsInt v)
      (hb : ∀ c ∈ blanks, isSpace c = true) (hd : Numeral v digits)
      (ht : ∀ c, text.head? = some c → isDigit c = false) (h : Typed vs text) :
    Typed (some v :: vs) (blanks ++ (digits ++ text))
  | sign {vs : List (Option ℤ)} {blanks text : List Byte} {c : Byte}
      (hb : ∀ c ∈ blanks, isSpace c = true) (hc : c = minus ∨ c = plus)
      (ht : ∀ c, text.head? = some c → isDigit c = false) (h : Typed vs text) :
    Typed (none :: vs) (blanks ++ c :: text)

/-- Every text is of this kind, unless one of its numbers is no `int`. -/
theorem typed_or_large (text : List Byte) : (∃ vs, Typed vs text) ∨
    ∃ front v digits rest, text = front ++ (digits ++ rest) ∧ Numeral v digits ∧ ¬ IsInt v := by
  induction hn : text.length using Nat.strong_induction_on generalizing text with
  | _ n ih =>
    have hblanks : ∀ c ∈ text.takeWhile isSpace, isSpace c = true := fun c => List.mem_takeWhile_imp
    have hsplit := List.takeWhile_append_dropWhile (p := isSpace) (l := text)
    cases hrest : text.dropWhile isSpace with
    | nil =>
      refine .inl ⟨[], .stuck fun c hc => ?_⟩
      rw [hrest] at hc
      cases hc
    | cons c rest =>
      rw [hrest] at hsplit
      have hlen : (text.takeWhile isSpace).length + (rest.length + 1) = n := by
        rw [← hn, ← List.length_cons, ← List.length_append, hsplit]
      obtain ⟨v, digits, tail, hc, hv, ht⟩ | ⟨hc, ht⟩ | hno := scan_cases c rest
      · have hshort : tail.length < n := by
          have := congrArg List.length hc
          have := List.length_pos_iff.mpr hv.ne_nil
          simp only [List.length_cons, List.length_append] at *
          omega
        rw [hc] at hsplit
        by_cases hint : IsInt v
        · obtain ⟨vs, h⟩ | ⟨front, w, ds, r, rfl, hw, hlarge⟩ := ih _ hshort tail rfl
          · exact .inl ⟨some v :: vs, hsplit ▸ .number hint hblanks hv ht h⟩
          · exact .inr ⟨text.takeWhile isSpace ++ (digits ++ front), w, ds, r, by
            rw [List.append_assoc, List.append_assoc, hsplit], hw, hlarge⟩
        · exact .inr ⟨_, v, digits, tail, hsplit.symm, hv, hint⟩
      · obtain ⟨vs, h⟩ | ⟨front, w, ds, r, rfl, hw, hlarge⟩ := ih _ (by omega) rest rfl
        · exact .inl ⟨none :: vs, hsplit ▸ .sign hblanks hc ht h⟩
        · exact .inr ⟨text.takeWhile isSpace ++ c :: front, w, ds, r, by
          rw [List.append_assoc, List.cons_append, hsplit], hw, hlarge⟩
      · refine .inl ⟨[], .stuck fun c' hc' => ?_⟩
        rw [hrest] at hc'
        obtain rfl := Option.some.inj hc'
        exact hno

/-- The block and the text of the next conversion. -/
def MainPc.ahead : MainPc → Option (Block × List Byte)
  | .printf stdin => some (.giro1, stdin)
  | .scanf k stdin => some (target k, stdin)
  | _ => none

theorem ahead_afterScan (k : Fin 3) (stdin : List Byte) :
    (afterScan k stdin).ahead = some (next (target k), stdin) := by
  match k with
  | 0 | 1 | 2 => rfl

/-- So far the first numbers are stored, as many as there were conversions, and the next
conversion is at the number after them. -/
structure InputInv (vs : List (Option ℤ)) (tr : List Label) (s : State) : Prop where
  done : tr.filterMap stored = ((assign .giro1 vs).take (tr.countP converts)).reduceOption
  rest : ∀ b text, (s.loc .main).ahead = some (b, text) →
    ∃ vs', Typed vs' text ∧ assign b vs' = (assign .giro1 vs).drop (tr.countP converts)

/-- What one conversion makes of a typed text. -/
theorem scanD_typed {text : List Byte} (h : Typed vs text) :
    (vs = [] ∧ ∃ text', scanD text = (none, text') ∧ Typed [] text') ∨
      ∃ v vs' text', vs = v :: vs' ∧ scanD text = (v, text') ∧ Typed vs' text' := by
  cases h with
  | stuck h =>
    obtain ⟨text', hs, hstuck⟩ := scanD_stuck h
    exact .inl ⟨rfl, text', hs, .stuck hstuck⟩
  | number _ hb hd ht h => exact .inr ⟨_, _, _, rfl, scanD_numeral hb hd ht, h⟩
  | sign hb hc ht h => exact .inr ⟨_, _, _, rfl, scanD_sign hb hc ht, h⟩

/-- Where the next conversion is after one with the result `v`. -/
def MainPc.after (k : Fin 3) (stdin : List Byte) : Option ℤ → MainPc
  | some _ => afterScan k stdin
  | none => .printf stdin

theorem assign_cons (k : Fin 3) (v : Option ℤ) (vs : List (Option ℤ)) (text : List Byte) :
    ∃ b, (MainPc.after k text v).ahead = some (b, text) ∧
      assign (target k) (v :: vs) = v.map (target k, ·) :: assign b vs := by
  cases v with
  | some v => exact ⟨next (target k), ahead_afterScan k text, rfl⟩
  | none => exact ⟨.giro1, rfl, rfl⟩

/-- A text on which no number can be read is like one that has failed. -/
theorem after_scanD {k : Fin 3} {stdin text : List Byte} {v : Option ℤ} {g : Blocks}
    (h : scanD stdin = (v, text)) :
    (main (.scanf k stdin)).dest (.scanf k stdin) g ok = .after k text v := by
  cases v <;> simp [main, Op.dest, h, MainPc.after]

theorem inputInv_scanf {k : Fin 3} {stdin : List Byte} (h : InputInv vs tr s)
    (hl : s.loc .main = .scanf k stdin) (hs' : s'.loc .main =
      (main (.scanf k stdin)).dest (.scanf k stdin) s.glob ok) :
    InputInv vs (tr ++ [.exec .main (.scanf k stdin) ok]) s' := by
  obtain ⟨vs', ht, hrest⟩ := h.rest (target k) stdin (by rw [hl]; rfl)
  have hcount : (tr ++ [(.exec .main (.scanf k stdin) ok : Label)]).countP converts =
      tr.countP converts + 1 := by
    simp [converts]
  obtain ⟨rfl, text', hscan, ht'⟩ | ⟨v, vs'', text', rfl, hscan, ht'⟩ := scanD_typed ht
  · have hnil := List.drop_eq_nil_iff.mp hrest.symm
    rw [after_scanD hscan] at hs'
    refine ⟨?_, fun b text hk => ?_⟩
    · rw [hcount, List.filterMap_append, h.done, List.take_of_length_le hnil,
        List.take_of_length_le (by omega)]
      simp [stored, hscan]
    · rw [hs'] at hk
      obtain ⟨rfl, rfl⟩ := Prod.mk.inj (Option.some.inj hk)
      refine ⟨[], ht', ?_⟩
      rw [hcount, List.drop_of_length_le (by omega)]
      rfl
  · obtain ⟨b', hahead, hassign⟩ := assign_cons k v vs'' text'
    rw [hassign] at hrest
    rw [after_scanD hscan] at hs'
    refine ⟨?_, fun b text hk => ?_⟩
    · have hget := congrArg List.head? hrest
      rw [List.head?_drop, List.head?_cons] at hget
      rw [hcount, List.filterMap_append, h.done, List.take_add_one, ← hget, List.reduceOption_append]
      cases v <;> simp [stored, hscan, List.reduceOption]
    · rw [hs', hahead] at hk
      obtain ⟨rfl, rfl⟩ := Prod.mk.inj (Option.some.inj hk)
      refine ⟨vs'', ht', ?_⟩
      rw [hcount, ← List.drop_drop, ← hrest]
      rfl

/-- A step that is no conversion. -/
theorem InputInv.other (h : InputInv vs tr s) (ha : converts a = false)
    (hl : ∀ b text, (s'.loc .main).ahead = some (b, text) → (s.loc .main).ahead = some (b, text)) :
    InputInv vs (tr ++ [a]) s' := by
  have hnone : stored a = none := by
    unfold stored
    split
    · cases ha
    · rfl
  refine ⟨?_, fun b text hk => ?_⟩
  · simp [ha, hnone, h.done]
  · obtain ⟨vs', ht, hrest⟩ := h.rest b text (hl b text hk)
    exact ⟨vs', ht, by simp [ha, hrest]⟩

theorem inputInv_step (hs : (simulador u).Step s a s') (h : InputInv vs tr s) :
    InputInv vs (tr ++ [a]) s' := by
  cases hs with
  | @exec t ok _ _ _ =>
    cases t with
    | descender =>
      exact h.other rfl fun b text hk => by rwa [effect_loc_of_ne (by decide)] at hk
    | main =>
      have hdest : ((simulador u).effect s .main ok).loc .main =
          (main (s.loc .main)).dest (s.loc .main) s.glob ok := effect_loc_self
      cases hl : s.loc .main with
      | scanf k stdin =>
        rw [hl] at hdest
        exact inputInv_scanf h hl hdest
      | printf stdin =>
        rw [hl] at hdest
        refine h.other rfl fun b text hk => ?_
        rw [hdest] at hk
        rwa [hl]
      | handler p =>
        rw [hl] at hdest
        refine h.other rfl fun b text hk => ?_
        rw [hdest] at hk
        cases p <;> cases hk
  | @die t _ _ _ => exact h.other rfl fun b text hk => by rwa [die_loc] at hk
  | @cont t _ _ =>
    refine h.other rfl fun b text hk => ?_
    cases t with
    | descender => rwa [wake_loc_of_ne (by decide)] at hk
    | main =>
      rw [wake_loc_self] at hk
      split at hk
      · rename_i hi
        have hi : (main (s.loc .main)).interruptible = true := hi
        cases hl : s.loc .main with
        | handler p =>
          have hop : ((simulador u).op s .main) = sigHandlerInt .handler p := congrArg main hl
          rw [hl] at hi
          rw [hop] at hk
          cases p with
          | sleep => cases hk
          | _ => cases hi
        | printf | scanf =>
          rw [hl] at hi
          cases hi
      · exact hk
  | @int t l _ _ hl =>
    refine h.other rfl fun b text hk => ?_
    cases t with
    | descender => rwa [handle_loc_of_ne (by decide)] at hk
    | main =>
      rw [handle_loc_self] at hk
      have hl : onInt .main (s.loc .main) = some l := hl
      cases hloc : s.loc .main <;> rw [hloc] at hl <;> cases hl <;> cases hk
  | env e => exact e.elim

/-! ## The loop goes on -/

/-- Nothing but `exit` ends `main`. -/
def Lives (s : State) : Prop := s.life .main = .running ∧ s.cancelled .main = false

theorem sigHandlerInt_spares {L : Type} {pc : HandlerPc → L} {g : Blocks} (p : HandlerPc) :
    (sigHandlerInt pc p).isRet = false ∧ (sigHandlerInt pc p).creates g = none ∧
      (sigHandlerInt pc p).cancels g ≠ some .main := by
  cases p with
  | cancel => exact ⟨rfl, rfl, fun h => by cases h⟩
  | _ => exact ⟨rfl, rfl, nofun⟩

/-- Nobody creates or cancels `main`. -/
theorem code_spares (t : Tid) (l : Loc t) (g : Blocks) :
    (code t l).creates g = none ∧ (code t l).cancels g ≠ some .main := by
  cases t with
  | main =>
    cases l with
    | handler p => exact (sigHandlerInt_spares p).2
    | _ => exact ⟨rfl, nofun⟩
  | descender =>
    cases l with
    | handler p => exact (sigHandlerInt_spares p).2
    | _ => exact ⟨rfl, nofun⟩

theorem main_isRet (l : MainPc) : (main l).isRet = false := by
  cases l with
  | handler p => exact (sigHandlerInt_spares (g := fun _ => 0) p).1
  | _ => rfl

theorem lives_step (hs : (simulador u).Step s a s') (h : Lives s) : Lives s' := by
  obtain ⟨hlife, hcancel⟩ := h
  cases hs with
  | @exec t ok _ _ _ =>
    have hop := code_spares t (s.loc t) s.glob
    have hcreates : ((simulador u).op s t).creates s.glob = none := hop.1
    refine ⟨?_, ?_⟩
    · cases t with
      | main =>
        have hret : ((simulador u).op s .main).isRet = false := main_isRet _
        rw [effect_life_self, hcreates, hret]
        exact hlife
      | descender =>
        rw [effect_life_of_ne (by decide), hcreates]
        exact hlife
    · rw [effect_cancelled, hcancel]
      exact decide_eq_false hop.2
  | @die t _ _ hc =>
    cases t with
    | main => cases hcancel.symm.trans hc
    | descender => exact ⟨(die_life_of_ne (by decide)).trans hlife, die_cancelled.trans hcancel⟩
  | cont => exact ⟨wake_life.trans hlife, wake_cancelled.trans hcancel⟩
  | int => exact ⟨handle_life.trans hlife, handle_cancelled.trans hcancel⟩
  | env e => exact e.elim

/-- The loop is between two conversions, or before one. -/
def Looping (s : State) : Prop := s.ended = false ∧ (s.loc .main).ahead.isSome = true

/-- `main` is in no call that blocks. -/
theorem main_step (hl : Lives s) (h : Looping s) :
    (simulador u).Step s (.exec .main (s.loc .main) true) ((simulador u).effect s .main true) := by
  refine .exec true ⟨h.1, hl.1⟩ (fun _ => hl.2) ?_
  show (main (s.loc .main)).Enabled s.sem
  obtain ⟨-, hloc⟩ := h
  cases hm : s.loc .main with
  | handler p =>
    rw [hm] at hloc
    cases hloc
  | _ => trivial

theorem looping_main (h : Looping s) : Looping ((simulador u).effect s .main true) := by
  obtain ⟨he, hloc⟩ := h
  refine ⟨?_, ?_⟩
  · show (s.ended || (main (s.loc .main)).isExit) = false
    rw [he]
    cases hm : s.loc .main with
    | handler p =>
      rw [hm] at hloc
      cases hloc
    | _ => rfl
  · have hdest : ((simulador u).effect s .main true).loc .main =
        (main (s.loc .main)).dest (s.loc .main) s.glob true := effect_loc_self
    rw [hdest]
    cases hm : s.loc .main with
    | printf => rfl
    | scanf k stdin =>
      cases hscan : scanD stdin with
      | mk v text =>
        obtain ⟨b, hahead, -⟩ := assign_cons k v [] text
        rw [after_scanD hscan, hahead]
        rfl
    | handler p =>
      rw [hm] at hloc
      cases hloc

/-- A conversion is at most two steps away. -/
theorem converts_once (hl : Lives s) (h : Looping s) : ∃ tr s', (simulador u).Run Any s tr s' ∧
    tr.countP converts = 1 ∧ Lives s' ∧ Looping s' := by
  have hs₁ := main_step (u := u) hl h
  have hl₁ := lives_step hs₁ hl
  have h₁ := looping_main (u := u) h
  obtain ⟨-, hloc⟩ := h
  cases hm : s.loc .main with
  | scanf k stdin =>
    rw [hm] at hs₁
    exact ⟨_, _, Run.nil.snoc hs₁ trivial, rfl, hl₁, h₁⟩
  | printf stdin =>
    have hs₂ := main_step (u := u) hl₁ h₁
    have hscan : ((simulador u).effect s .main true).loc .main = .scanf 0 stdin := by
      have hdest : ((simulador u).effect s .main true).loc .main =
        (main (s.loc .main)).dest (s.loc .main) s.glob true := effect_loc_self
      rw [hdest, hm]
      rfl
    rw [hm] at hs₁
    rw [hscan] at hs₂
    exact ⟨_, _, (Run.nil.snoc hs₁ trivial).snoc hs₂ trivial, rfl, lives_step hs₂ hl₁,
      looping_main h₁⟩
  | handler p =>
    rw [hm] at hloc
    cases hloc

/-- As long as the process has not ended, one conversion follows another. -/
theorem loop_goes_on (hl : Lives s) (h : Looping s) (n : ℕ) :
    ∃ tr s', (simulador u).Run Any s tr s' ∧ tr.countP converts = n ∧ Looping s' := by
  suffices ∃ tr s', (simulador u).Run Any s tr s' ∧ tr.countP converts = n ∧ Lives s' ∧ Looping s' by
    obtain ⟨tr, s', hrun, hn, -, hloop⟩ := this
    exact ⟨tr, s', hrun, hn, hloop⟩
  induction n with
  | zero => exact ⟨[], s, .nil, rfl, hl, h⟩
  | succ n ih =>
    obtain ⟨tr, s₁, hrun, hn, hl₁, h₁⟩ := ih
    obtain ⟨tr', s₂, hrun', hone, hl₂, h₂⟩ := converts_once hl₁ h₁
    exact ⟨tr ++ tr', s₂, hrun.append hrun', by rw [List.countP_append, hn, hone], hl₂, h₂⟩

/-- Whatever the descent and the signals do, the numbers that the user types go in turn to
the two gyroscopes and the alarm, one for each conversion; after a sign without a number the
turn is the first gyroscope's again, and what comes after a byte that no number has is never
stored. The loop goes on until the process ends. -/
theorem numbers_stored (ht : Typed vs u.stdin) (h : (simulador u).Run C (init u) tr s) :
    tr.filterMap stored = ((assign .giro1 vs).take (tr.countP converts)).reduceOption ∧
      (Looping s → ∀ n, ∃ tr' s', (simulador u).Run Any s tr' s' ∧ tr'.countP converts = n ∧
        Looping s') := by
  suffices InputInv vs tr s ∧ Lives s from ⟨this.1.done, fun hloop => loop_goes_on this.2 hloop⟩
  induction h with
  | nil =>
    refine ⟨⟨rfl, fun b text hk => ?_⟩, rfl, rfl⟩
    obtain ⟨rfl, rfl⟩ := Prod.mk.inj (Option.some.inj hk)
    exact ⟨vs, ht, rfl⟩
  | snoc _ hs _ ih => exact ⟨inputInv_step hs ih.1, lives_step hs ih.2⟩

/-- `+3 007 - 5 x 7`: two numbers, a sign alone, one number more, and in eight conversions no
other one. -/
theorem letter_never_stored : ∃ tr s,
    (simulador ⟨9, 9, [43, 51, 32, 48, 48, 55, 32, 45, 32, 53, 32, 120, 32, 55], fun _ => false⟩).Run Any
      (init ⟨9, 9, [43, 51, 32, 48, 48, 55, 32, 45, 32, 53, 32, 120, 32, 55], fun _ => false⟩) tr s ∧
    tr.countP converts = 12 ∧
    tr.filterMap stored = ((assign .giro1 [some 3, some 7, none, some 5]).take 12).reduceOption ∧
    (Looping s → ∀ n, ∃ tr' s',
      (simulador ⟨9, 9, [43, 51, 32, 48, 48, 55, 32, 45, 32, 53, 32, 120, 32, 55], fun _ => false⟩).Run
        Any s tr' s' ∧ tr'.countP converts = n ∧ Looping s') := by
  have hrun : ∃ tr s,
      (simulador ⟨9, 9, [43, 51, 32, 48, 48, 55, 32, 45, 32, 53, 32, 120, 32, 55], fun _ => false⟩).Run
        Any (init ⟨9, 9, [43, 51, 32, 48, 48, 55, 32, 45, 32, 53, 32, 120, 32, 55], fun _ => false⟩)
          tr s ∧ tr.countP converts = 12 := by
    refine run_of_check (burst .main 3 ++ burst .descender 6 ++ burst .main 18) ?_
    decide +kernel
  obtain ⟨tr, s, h, hc⟩ := hrun
  have hstuck : Stuck [32, 120, 32, 55] := by
    intro c hc
    obtain rfl : 120 = c := Option.some.inj hc
    decide
  have hblank : ∀ text : List Byte, ∀ c, (32 :: text).head? = some c → isDigit c = false := by
    intro text c hc
    obtain rfl : 32 = c := Option.some.inj hc
    rfl
  have hspace : ∀ c ∈ [32], isSpace c = true := by simp [isSpace]
  have h3 : Numeral (value [51]) (plus :: [51]) := .plus (by decide) (by simp [isDigit])
  have h7 : Numeral (value [48, 48, 55]) [48, 48, 55] := .plain (by decide) (by simp [isDigit])
  have h5 : Numeral (value [53]) [53] := .plain (by decide) (by simp [isDigit])
  have hfive : Typed [some 5] ([32] ++ ([53] ++ [32, 120, 32, 55])) :=
    .number (by decide) hspace h5 (hblank _) (.stuck hstuck)
  have hsign : Typed [none, some 5] ([32] ++ 45 :: ([32] ++ ([53] ++ [32, 120, 32, 55]))) :=
    .sign hspace (.inl rfl) (hblank _) hfive
  have hseven : Typed [some 7, none, some 5]
      ([32] ++ ([48, 48, 55] ++ ([32] ++ 45 :: ([32] ++ ([53] ++ [32, 120, 32, 55]))))) :=
    .number (by decide) hspace h7 (hblank _) hsign
  have hthree : Typed [some 3, some 7, none, some 5] ([] ++ ([43, 51] ++
      ([32] ++ ([48, 48, 55] ++ ([32] ++ 45 :: ([32] ++ ([53] ++ [32, 120, 32, 55]))))))) :=
    .number (by decide) (List.forall_mem_nil _) h3 (hblank _) hseven
  exact ⟨tr, s, h, hc, hc ▸ numbers_stored hthree h⟩

end Simulador
