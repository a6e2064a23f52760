import Mathlib.Tactic.IntervalCases
import SistemasOperativos.Memory.Code
import SistemasOperativos.Threads.Outline
import SistemasOperativos.Threads.Rank

/-!
# What the server and its clients print

Nobody waits for the server to finish its alphabet, and the star of a client can come
before its first letter. What is printed is the alphabet all the same, as far as it goes.
-/
namespace Memory

open Threads Threads.Program Text

variable {clients : ℕ} {s s' : State clients} {a : Label clients} {tr tr' : List (Label clients)}
variable {k : Fin clients} {m : ℕ → Byte} {i : ℕ} {g : Shared clients} {ok : Bool}
variable {C D : State clients → Label clients → Prop}

/-! ## The bytes of the segment -/

def letters : List Byte := (List.range 26).map letter

/-- With the star of a client. -/
def starred : List Byte := (List.range 26).map fun i => if i = 0 then star else letter i

/-- A byte that was written. -/
def WrittenAt (m : ℕ → Byte) (i : ℕ) : Prop := m i = letter i ∨ i = 0 ∧ m i = star

/-- A segment that was new, or was left by a server and its clients at any time. -/
structure Legible (m : ℕ → Byte) : Prop where
  bytes : ∀ i < 26, m i = 0 ∨ WrittenAt m i
  ends : m 26 = 0

theorem letter_ne (h : i < 26) : letter i ≠ 0 ∧ letter i ≠ star := by
  interval_cases i <;> decide

theorem WrittenAt.ne_zero (h : WrittenAt m i) (hi : i < 26) : m i ≠ 0 := by
  obtain h | ⟨-, h⟩ := h
  · rw [h]
    exact (letter_ne hi).1
  · rw [h]
    decide

theorem writtenAt_update {j : ℕ} {c : Byte} (h : WrittenAt m i) (hc : i = j → c = letter i ∨ i = 0 ∧ c = star) :
    WrittenAt (Function.update m j c) i := by
  by_cases hij : i = j
  · subst hij
    simpa [WrittenAt] using hc rfl
  · simpa [WrittenAt, Function.update_of_ne hij] using h

/-- What anybody stores. -/
inductive Store : ℕ → Byte → Prop
  | letter {i : ℕ} (h : i < 26) : Store i (letter i)
  | null : Store 26 0
  | star : Store 0 star

theorem Legible.update (h : Legible m) {j : ℕ} {c : Byte} (hs : Store j c) :
    Legible (Function.update m j c) := by
  cases hs with
  | letter hj =>
    refine ⟨fun i hi => ?_, ?_⟩
    · by_cases hij : i = j
      · subst hij
        exact .inr (.inl (by simp))
      · simpa [WrittenAt, Function.update_of_ne hij] using h.bytes i hi
    · rw [Function.update_of_ne (by omega)]
      exact h.ends
  | null =>
    refine ⟨fun i hi => ?_, by simp⟩
    have hne : i ≠ 26 := by omega
    simpa [WrittenAt, Function.update_of_ne hne] using h.bytes i hi
  | star =>
    refine ⟨fun i hi => ?_, ?_⟩
    · by_cases hi0 : i = 0
      · subst hi0
        exact .inr (.inr ⟨rfl, by simp⟩)
      · simpa [WrittenAt, Function.update_of_ne hi0] using h.bytes i hi
    · rw [Function.update_of_ne (by decide)]
      exact h.ends

/-- A letter does not go away again. -/
theorem Store.ne_zero {j : ℕ} {c : Byte} (hs : Store j c) (hi : i < 26) (h : m i ≠ 0) :
    Function.update m j c i ≠ 0 := by
  by_cases hij : i = j
  · subst hij
    rw [Function.update_self]
    cases hs with
    | letter => exact (letter_ne hi).1
    | null => omega
    | star => decide
  · rwa [Function.update_of_ne hij]

/-! ## Assertions -/

/-- What was printed of the segment after `i` bytes. -/
def Printed (x : List Byte) (i : ℕ) : Prop := x = letters.take i ∨ x = starred.take i

def PrintPc.Server (out : List Byte) : PrintPc → Prop
  | .test i => i ≤ 26 ∧ out = utf8 "el client leyo la memoria\n" ++ starred.take i
  | .putchar i => i < 26 ∧ out = utf8 "el client leyo la memoria\n" ++ starred.take i
  | .newline => out = utf8 "el client leyo la memoria\n" ++ starred

def PrintPc.Client (shm : ℕ → Byte) (out : List Byte) : PrintPc → Prop
  | .test i => i ≤ 26 ∧ Printed out i
  | .putchar i => i < 26 ∧ shm i ≠ 0 ∧ Printed out i
  | .newline => ∃ i ≤ 26, Printed out i

def Written (n : ℕ) (m : ℕ → Byte) : Prop := ∀ i < n, WrittenAt m i

def ServerPc.At (shm : ℕ → Byte) (out : List Byte) : ServerPc → Prop
  | .store i => i < 26 ∧ Written i shm ∧ out = []
  | .null | .test | .sleep => Written 26 shm ∧ out = []
  | .printf => Written 26 shm ∧ shm 0 = star ∧ out = []
  | .print p => Written 26 shm ∧ shm 0 = star ∧ p.Server out
  | .finished => shm 0 = star ∧ out = utf8 "el client leyo la memoria\n" ++ starred ++ [newline]

def ClientPc.At (shm : ℕ → Byte) (out : List Byte) : ClientPc → Prop
  | .print p => p.Client shm out
  | .printf => ∃ i ≤ 26, ∃ x, Printed x i ∧ out = x ++ [newline]
  | .store | .finished => ∃ i ≤ 26, ∃ x, Printed x i ∧
      out = x ++ [newline] ++ utf8 "Altero la memoria\n"

def assertion : (t : Tid clients) → Loc t → Shared clients → Prop
  | .server, l, g => Legible g.shm ∧ l.At g.shm (g.printed .server)
  | .client k, l, g => Legible g.shm ∧ l.At g.shm (g.printed (.client k))

theorem take_range {n : ℕ} (f : ℕ → Byte) (h : i < n) :
    ((List.range n).map f).take (i + 1) = ((List.range n).map f).take i ++ [f i] := by
  simp [List.take_add_one, h]

theorem Printed.snoc {x : List Byte} (h : Printed x i) (hi : i < 26) (hw : WrittenAt m i) :
    Printed (x ++ [m i]) (i + 1) := by
  unfold Printed letters starred
  rw [take_range _ hi, take_range _ hi]
  obtain hw | ⟨rfl, hw⟩ := hw
  · by_cases h0 : i = 0
    · subst h0
      obtain rfl | rfl := h <;> exact .inl (by simp [hw])
    · obtain rfl | rfl := h
      · exact .inl (by rw [hw]; rfl)
      · exact .inr (by rw [hw, if_neg h0]; rfl)
  · obtain rfl | rfl := h <;> exact .inr (by simp [hw])

theorem starred_snoc (hi : i < 26) (hw : WrittenAt m i) (h0 : m 0 = star) :
    starred.take (i + 1) = starred.take i ++ [m i] := by
  unfold starred
  rw [take_range _ hi]
  by_cases hz : i = 0
  · subst hz
    simp [h0]
  · obtain hw | ⟨hz', -⟩ := hw
    · simp [hz, hw]
    · exact absurd hz' hz

theorem say_printed (t : Tid clients) (text : List Byte) (g : Shared clients) :
    (say t text g).printed t = g.printed t ++ text := by
  simp [say]

theorem server_own (l : ServerPc) (h : Legible g.shm ∧ l.At g.shm (g.printed .server)) :
    assertion .server ((server l : Instr clients ServerPc).dest l g ok)
      ((server l : Instr clients ServerPc).glob g) := by
  obtain ⟨hm, h⟩ := h
  cases l with
  | store i =>
    obtain ⟨hi, hw, hout⟩ := h
    have hw' : Written (i + 1) (Function.update g.shm i (letter i)) := by
      intro j hj
      by_cases hji : j = i
      · subst hji
        exact .inl (by simp)
      · exact writtenAt_update (hw j (by omega)) fun he => absurd he hji
    refine ⟨hm.update (.letter hi), ?_⟩
    show ServerPc.At (Function.update g.shm i (letter i)) (g.printed .server)
      (if i < 25 then .store (i + 1) else .null)
    split
    · exact ⟨by omega, hw', hout⟩
    · obtain rfl : i = 25 := by omega
      exact ⟨hw', hout⟩
  | null =>
    refine ⟨hm.update .null, fun j hj => ?_, h.2⟩
    exact writtenAt_update (h.1 j hj) fun he => by omega
  | test =>
    refine ⟨hm, ?_⟩
    show ServerPc.At g.shm (g.printed .server) (if g.shm 0 ≠ star then .sleep else .printf)
    split
    · exact h
    · rename_i h0
      exact ⟨h.1, not_not.mp h0, h.2⟩
  | sleep => exact ⟨hm, h⟩
  | printf =>
    obtain ⟨hw, h0, hout⟩ := h
    refine ⟨hm, hw, h0, Nat.zero_le _, ?_⟩
    show (say .server _ g).printed .server = _
    rw [say_printed, hout]
    rfl
  | print p =>
    obtain ⟨hw, h0, h⟩ := h
    cases p with
    | test i =>
      obtain ⟨hi, hout⟩ := h
      refine ⟨hm, hw, h0, ?_⟩
      show PrintPc.Server (g.printed .server) (if g.shm i ≠ 0 then .putchar i else .newline)
      by_cases hz : g.shm i = 0
      · rw [if_neg (not_not.mpr hz)]
        obtain rfl : i = 26 := by
          by_contra hne
          exact (hw i (by omega)).ne_zero (by omega) hz
        exact hout
      · rw [if_pos hz]
        refine ⟨?_, hout⟩
        by_contra hlt
        obtain rfl : i = 26 := by omega
        exact hz hm.ends
    | putchar i =>
      obtain ⟨hi, hout⟩ := h
      refine ⟨hm, hw, h0, hi, ?_⟩
      show (say .server _ g).printed .server = _
      rw [say_printed, hout, starred_snoc hi (hw i hi) h0, List.append_assoc]
    | newline =>
      refine ⟨hm, h0, ?_⟩
      show (say .server _ g).printed .server = _
      rw [say_printed, h]
  | finished => exact ⟨hm, h⟩

theorem client_own (l : ClientPc) (h : Legible g.shm ∧ l.At g.shm (g.printed (.client k))) :
    assertion (.client k) ((client k l).dest l g ok) ((client k l).glob g) := by
  obtain ⟨hm, h⟩ := h
  cases l with
  | print p =>
    cases p with
    | test i =>
      obtain ⟨hi, hout⟩ := h
      refine ⟨hm, ?_⟩
      show PrintPc.Client g.shm (g.printed (.client k)) (if g.shm i ≠ 0 then .putchar i else .newline)
      split
      · rename_i hz
        refine ⟨?_, hz, hout⟩
        by_contra hlt
        obtain rfl : i = 26 := by omega
        exact hz hm.ends
      · exact ⟨i, hi, hout⟩
    | putchar i =>
      obtain ⟨hi, hz, hout⟩ := h
      refine ⟨hm, hi, ?_⟩
      show Printed ((say (.client k) _ g).printed (.client k)) (i + 1)
      rw [say_printed]
      exact hout.snoc hi ((hm.bytes i hi).resolve_left hz)
    | newline =>
      obtain ⟨i, hi, hout⟩ := h
      exact ⟨hm, i, hi, _, hout, say_printed _ _ _⟩
  | printf =>
    obtain ⟨i, hi, x, hx, hout⟩ := h
    refine ⟨hm, i, hi, x, hx, ?_⟩
    show (say (.client k) _ g).printed (.client k) = _
    rw [say_printed, hout]
  | store => exact ⟨hm.update .star, h⟩
  | finished => exact ⟨hm, h⟩

/-- What an operation does to the rest of the memory. -/
structure Leaves (t : Tid clients) (g g' : Shared clients) : Prop where
  shm : g'.shm = g.shm ∨ ∃ j c, g'.shm = Function.update g.shm j c ∧ Store j c ∧
    (t ≠ .server → j = 0 ∧ c = star)
  printed : ∀ u, u ≠ t → g'.printed u = g.printed u

theorem leaves_refl (t : Tid clients) (g : Shared clients) : Leaves t g g :=
  ⟨.inl rfl, fun _ _ => rfl⟩

theorem leaves_say (t : Tid clients) (text : List Byte) (g : Shared clients) :
    Leaves t g (say t text g) :=
  ⟨.inl rfl, fun _ hu => Function.update_of_ne hu _ _⟩

theorem print_leaves {L : Type} {t : Tid clients} {pc : PrintPc → L} {k : L} (p : PrintPc) :
    Leaves t g ((print t pc k p).glob g) := by
  cases p with
  | test => exact leaves_refl _ _
  | putchar | newline => exact leaves_say _ _ _

theorem code_leaves (t : Tid clients) (l : Loc t) (h : assertion t l g) :
    Leaves t g ((code t l).glob g) := by
  cases t with
  | server =>
    cases l with
    | store i => exact ⟨.inr ⟨i, _, rfl, .letter h.2.1, fun h => absurd rfl h⟩, fun _ _ => rfl⟩
    | null => exact ⟨.inr ⟨26, _, rfl, .null, fun h => absurd rfl h⟩, fun _ _ => rfl⟩
    | printf => exact leaves_say _ _ _
    | print p => exact print_leaves p
    | test | sleep | finished => exact leaves_refl _ _
  | client k =>
    cases l with
    | print p => exact print_leaves p
    | printf => exact leaves_say _ _ _
    | store => exact ⟨.inr ⟨0, star, rfl, .star, fun _ => ⟨rfl, rfl⟩⟩, fun _ _ => rfl⟩
    | finished => exact leaves_refl _ _

theorem written_star {n : ℕ} (h : Written n m) : Written n (Function.update m 0 star) :=
  fun i hi => writtenAt_update (h i hi) fun hi0 => .inr ⟨hi0, rfl⟩

theorem server_star {l : ServerPc} {out : List Byte} (h : l.At m out) :
    l.At (Function.update m 0 star) out := by
  cases l with
  | store i => exact ⟨h.1, written_star h.2.1, h.2.2⟩
  | null | test | sleep => exact ⟨written_star h.1, h.2⟩
  | printf | print p => exact ⟨written_star h.1, by simp, h.2.2⟩
  | finished => exact ⟨by simp, h.2⟩

theorem client_update {l : ClientPc} {out : List Byte} (h : l.At m out) {j : ℕ} {c : Byte}
    (hs : Store j c) : l.At (Function.update m j c) out := by
  cases l with
  | print p =>
    cases p with
    | putchar i => exact ⟨h.1, hs.ne_zero h.1 h.2.1, h.2.2⟩
    | _ => exact h
  | _ => exact h

theorem assertion_leaves {t u : Tid clients} {l : Loc u} {g' : Shared clients} (hl : Leaves t g g')
    (hu : t ≠ u) (h : assertion u l g) : assertion u l g' := by
  have hp := hl.printed u (Ne.symm hu)
  obtain hsame | ⟨j, c, hupd, hs, hstar⟩ := hl.shm
  · cases u with
    | server =>
      show Legible g'.shm ∧ ServerPc.At g'.shm (g'.printed .server) l
      rw [hsame, hp]
      exact h
    | client k =>
      show Legible g'.shm ∧ ClientPc.At g'.shm (g'.printed (.client k)) l
      rw [hsame, hp]
      exact h
  · cases u with
    | server =>
      obtain ⟨rfl, rfl⟩ := hstar hu
      show Legible g'.shm ∧ ServerPc.At g'.shm (g'.printed .server) l
      rw [hupd, hp]
      exact ⟨h.1.update hs, server_star h.2⟩
    | client k =>
      show Legible g'.shm ∧ ClientPc.At g'.shm (g'.printed (.client k)) l
      rw [hupd, hp]
      exact ⟨h.1.update hs, client_update h.2 hs⟩

def outline (clients : ℕ) : Outline (memory clients) where
  assertion := assertion
  own t l g ok h := by
    cases t with
    | server => exact server_own l h
    | client k => exact client_own l h
  other t u l k g htu h h' := assertion_leaves (code_leaves t l h) htu h'
  handled _ _ _ _ _ h := by cases h
  env e := e.elim

theorem outline_init (hm : Legible m) : (outline clients).Holds (init clients m) := by
  intro t
  cases t with
  | server => exact ⟨hm, Nat.zero_lt_succ 25, fun i hi => absurd hi (Nat.not_lt_zero i), rfl⟩
  | client k => exact ⟨hm, Nat.zero_le 26, .inl rfl⟩

theorem holds (hm : Legible m) (h : (memory clients).Run C (init clients m) tr s) :
    (outline clients).Holds s :=
  (outline clients).run h (outline_init hm)

theorem prefix_of_printed {x : List Byte} (h : Printed x i) : x <+: letters ∨ x <+: starred := by
  obtain rfl | rfl := h
  · exact .inl (List.take_prefix _ _)
  · exact .inr (List.take_prefix _ _)

/-- The server, if it ends, has printed the alphabet with a star at its front, and each
client the beginning of the alphabet, with its letter or the star of another client. -/
theorem what_is_printed (hm : Legible m) (h : (memory clients).Run C (init clients m) tr s) :
    (s.loc .server = .finished → s.glob.printed .server =
      utf8 "el client leyo la memoria\n" ++ starred ++ [newline]) ∧
    ∀ k, s.loc (.client k) = .finished → ∃ x, (x <+: letters ∨ x <+: starred) ∧
      s.glob.printed (.client k) = x ++ [newline] ++ utf8 "Altero la memoria\n" := by
  refine ⟨fun hl => ?_, fun k hl => ?_⟩
  · obtain ⟨-, hat⟩ : Legible s.glob.shm ∧ (s.loc .server).At _ _ := holds hm h .server
    rw [hl] at hat
    exact hat.2
  · obtain ⟨-, hat⟩ : Legible s.glob.shm ∧ (s.loc (.client k)).At _ _ := holds hm h (.client k)
    rw [hl] at hat
    obtain ⟨i, -, x, hx, hout⟩ := hat
    exact ⟨x, prefix_of_printed hx, hout⟩

/-- A client comes after the second letter. -/
theorem two_letters_printed : ∃ tr s, (memory 1).Run Any (init 1 fun _ => 0) tr s ∧
    s.loc .server = .finished ∧ s.glob.printed (.client 0) = utf8 "ab\nAltero la memoria\n" ∧
    s.glob.printed .server = utf8 "el client leyo la memoria\n" ++ starred ++ [newline] := by
  have hrun : ∃ tr s, (memory 1).Run Any (init 1 fun _ => 0) tr s ∧ s.loc .server = .finished ∧
      s.glob.printed (.client 0) = utf8 "ab\nAltero la memoria\n" := by
    refine run_of_check (burst .server 2 ++ burst (.client 0) 8 ++ burst .server 81) ?_
    decide +kernel
  have hm : Legible fun _ => 0 := ⟨fun _ _ => .inl rfl, rfl⟩
  obtain ⟨tr, s, h, hl, hout⟩ := hrun
  exact ⟨tr, s, h, hl, hout, (what_is_printed hm h).1 hl⟩

/-! ## The star that the server waits for -/

/-- Whether a client has stored its star since the server came. -/
def answered : Bool → Label clients → Bool
  | _, .exec .server (.store 0) _ => false
  | _, .exec (.client _) .store _ => true
  | b, _ => b

/-- Before the test that lets the server go on. -/
def ServerPc.waits : ServerPc → Bool
  | .store _ | .null | .test | .sleep => true
  | _ => false

theorem effect_star (t : Tid clients) (ok : Bool) (h : assertion t (s.loc t) s.glob) (b : Bool)
    (hb : b = decide (s.glob.shm 0 = star)) :
    answered b (.exec t (s.loc t) ok) =
      decide (((memory clients).effect s t ok).glob.shm 0 = star) := by
  rw [effect_glob]
  show _ = decide (((code t (s.loc t)).glob s.glob).shm 0 = star)
  generalize s.loc t = l at h
  cases t with
  | server =>
    cases l with
    | store i =>
      cases i with
      | zero => exact (decide_eq_false (by simpa [code, server, Op.glob, put] using (letter_ne (by decide)).2)).symm
      | succ i => simpa [answered, code, server, Op.glob, put] using hb
    | print p => cases p <;> exact hb
    | null => simpa [answered, code, server, Op.glob, put] using hb
    | _ => exact hb
  | client k =>
    cases l with
    | print p => cases p <;> exact hb
    | store => exact (decide_eq_true (by simp [code, client, Op.glob, put])).symm
    | _ => exact hb

theorem answered_run (hm : Legible m) (h : (memory clients).Run C (init clients m) tr s) :
    tr.foldl answered (decide (m 0 = star)) = decide (s.glob.shm 0 = star) := by
  induction h with
  | nil => rfl
  | @snoc tr s s' a h hs _ ih =>
    rw [List.foldl_append, List.foldl_cons, List.foldl_nil]
    cases hs with
    | exec => exact effect_star _ _ (holds hm h _) _ ih
    | die | cont | int => exact ih
    | env e => exact e.elim

/-- The server forgets what was in the segment before. -/
theorem answered_fresh (h : (memory clients).Run C (init clients m) tr s) :
    s.loc .server = .store 0 ∨ ∀ b b', tr.foldl answered b = tr.foldl answered b' := by
  induction h with
  | nil => exact .inl rfl
  | @snoc tr s s' a h hs _ ih =>
    simp only [List.foldl_append, List.foldl_cons, List.foldl_nil]
    obtain hl | heq := ih
    · cases hs with
      | @exec t ok _ _ _ =>
        cases t with
        | server =>
          rw [hl]
          exact .inr fun _ _ => rfl
        | client k => exact .inl ((effect_loc_of_ne (by nofun)).trans hl)
      | die => exact .inl (by rwa [die_loc])
      | @cont t _ _ =>
        cases t with
        | server =>
          refine .inl ?_
          have hop : ((memory clients).op s .server).interruptible = false := by
            show (server (s.loc .server) : Instr clients ServerPc).interruptible = false
            rw [hl]
            rfl
          rw [wake_loc_self, hop]
          exact hl
        | client k => exact .inl ((wake_loc_of_ne (by nofun)).trans hl)
      | int _ _ hl => cases hl
      | env e => exact e.elim
    · exact .inr fun b b' => by rw [heq b b']

/-- What the server has left once the star is there. -/
def PrintPc.rank : PrintPc → ℕ
  | .test i => 2 * (26 - i) + 2
  | .putchar i => 2 * (26 - i) + 1
  | .newline => 1

def ServerPc.rank : ServerPc → ℕ
  | .store i => 58 + (25 - i)
  | .null => 57
  | .sleep => 57
  | .test => 56
  | .printf => 55
  | .print p => p.rank
  | .finished => 0

/-- The star is there, and the server does not take it away. -/
structure Answered (s : State clients) : Prop where
  star : s.glob.shm 0 = star
  fresh : s.loc .server ≠ .store 0

theorem rank_dest {l : ServerPc} (h : l.At g.shm (g.printed .server)) (h0 : g.shm 0 = star)
    (hr : (server l : Instr clients ServerPc).isRet = false) :
    ((server l : Instr clients ServerPc).dest l g ok).rank < l.rank := by
  cases l with
  | store i =>
    have hi : i < 26 := h.1
    simp only [server, Op.dest]
    split <;> simp only [ServerPc.rank] <;> omega
  | test =>
    simp only [server, Op.dest, h0, ne_eq, not_true_eq_false, if_false]
    decide
  | print p =>
    cases p with
    | test i =>
      have hi : i ≤ 26 := h.2.2.1
      simp only [server, print, Op.dest]
      split <;> simp only [ServerPc.rank, PrintPc.rank] <;> omega
    | putchar i =>
      have hi : i < 26 := h.2.2.1
      simp only [server, print, Op.dest, ServerPc.rank, PrintPc.rank]
      omega
    | newline => exact Nat.zero_lt_one
  | finished => cases hr
  | _ => simp [server, Op.dest, ServerPc.rank, PrintPc.rank]

theorem server_ranks : Ranks (memory clients) (fun s => (outline clients).Holds s ∧ Answered s)
    .server ServerPc.rank ((memory clients).goesOn .server) := by
  refine goesOn_ranks (fun s ok hi _ hr _ => ?_) fun _ _ h => by cases h
  obtain ⟨-, hat⟩ : Legible s.glob.shm ∧ (s.loc .server).At _ _ := hi.1 .server
  exact rank_dest hat hi.2.star hr

/-- Nobody goes back to the first letter. -/
theorem fresh_step (hs : (memory clients).Step s a s') (h : s.loc .server ≠ .store 0) :
    s'.loc .server ≠ .store 0 := by
  obtain hl | ⟨ok, hl⟩ | hl := step_loc hs .server
  · rwa [hl]
  · rw [hl]
    show (server (s.loc .server) : Instr clients ServerPc).dest _ _ _ ≠ _
    generalize s.loc .server = l
    cases l with
    | store i =>
      simp only [server, Op.dest]
      split <;> nofun
    | test =>
      simp only [server, Op.dest]
      split <;> nofun
    | print p => cases p <;> nofun
    | finished => nofun
    | _ => nofun
  · cases hl

theorem answered_steps {t : Tid clients} (hf : s.loc .server ≠ .store 0) :
    answered true (.exec t (s.loc t) ok) = true := by
  cases t with
  | server =>
    generalize s.loc .server = l at hf
    cases l with
    | store i =>
      cases i with
      | zero => exact absurd rfl hf
      | succ i => rfl
    | _ => rfl
  | client k =>
    generalize s.loc (.client k) = l
    cases l <;> rfl

theorem answered_step (hs : (memory clients).Step s a s') (ho : (outline clients).Holds s)
    (h : Answered s) : Answered s' := by
  refine ⟨?_, fresh_step hs h.fresh⟩
  cases hs with
  | @exec t ok _ _ _ =>
    have hb := effect_star t ok (ho t) true (decide_eq_true h.star).symm
    rw [answered_steps h.fresh] at hb
    exact of_decide_eq_true hb.symm
  | die | cont | int => exact h.star
  | env e => exact e.elim

/-- No star is there, and no client is left to store one. -/
structure Lost (s : State clients) : Prop where
  star : s.glob.shm 0 ≠ star
  waits : (s.loc .server).waits = true
  gone : ∀ k, s.loc (.client k) = .finished

theorem lost_step (hs : (memory clients).Step s a s') (ho : (outline clients).Holds s)
    (h : Lost s) : Lost s' := by
  have hgone : ∀ k, s'.loc (.client k) = .finished := by
    intro k
    obtain hl | ⟨ok, hl⟩ | hl := step_loc hs (.client k)
    · rw [hl, h.gone]
    · rw [hl]
      show (client k (s.loc (.client k))).dest _ _ _ = _
      rw [h.gone]
      rfl
    · cases hl
  refine ⟨?_, ?_, hgone⟩
  · cases hs with
    | @exec t ok _ _ _ =>
      have hb := effect_star t ok (ho t) false (decide_eq_false h.star).symm
      have hfalse : answered false (.exec t (s.loc t) ok) = false := by
        cases t with
        | server =>
          generalize s.loc .server = l
          cases l with
          | store i => cases i <;> rfl
          | _ => rfl
        | client k =>
          rw [h.gone k]
          rfl
      rw [hfalse] at hb
      exact of_decide_eq_false hb.symm
    | die | cont | int => exact h.star
    | env e => exact e.elim
  · obtain hl | ⟨ok, hl⟩ | hl := step_loc hs .server
    · rw [hl]
      exact h.waits
    · rw [hl]
      show ((server (s.loc .server) : Instr clients ServerPc).dest _ _ _).waits = true
      have hw := h.waits
      generalize s.loc .server = l at hw
      cases l with
      | store i =>
        simp only [server, Op.dest]
        split <;> rfl
      | test =>
        simp only [server, Op.dest, if_pos h.star]
        rfl
      | null | sleep => rfl
      | _ => cases hw
    · cases hl

/-- When the clients are gone: if one of them stored its star after the server came, the
server has at most 82 steps before its last one; otherwise it waits for ever. -/
theorem answered_or_lost (hm : Legible m) (h : (memory clients).Run C (init clients m) tr s)
    (hf : s.loc .server ≠ .store 0) (hgone : ∀ k, s.loc (.client k) = .finished)
    (h' : (memory clients).Run D s tr' s') :
    if tr.foldl answered false then tr'.countP ((memory clients).goesOn .server) ≤ 82
    else (s'.loc .server).waits = true := by
  have hstar : tr.foldl answered false = decide (s.glob.shm 0 = star) := by
    rw [← answered_run hm h]
    exact (answered_fresh h).resolve_left hf _ _
  have ho := holds hm h
  split
  · rename_i hans
    have hI : ∀ tr' s', (memory clients).Run D s tr' s' → (outline clients).Holds s' ∧ Answered s' := by
      intro tr' s' hr
      refine hr.invariant (I := fun s => (outline clients).Holds s ∧ Answered s)
        ⟨ho, of_decide_eq_true (hstar ▸ hans), hf⟩ ?_
      intro s a s' hi hs _
      exact ⟨(outline clients).step hs hi.1, answered_step hs hi.1 hi.2⟩
    have hb := server_ranks.bound h' hI
    have hle : (s.loc .server).rank ≤ 82 := by
      obtain ⟨-, hat⟩ : Legible s.glob.shm ∧ (s.loc .server).At _ _ := ho .server
      generalize s.loc .server = l at hf hat
      cases l with
      | store i =>
        have hi : i ≠ 0 := fun h0 => hf (h0 ▸ rfl)
        simp only [ServerPc.rank]
        omega
      | print p => cases p <;> simp only [ServerPc.rank, PrintPc.rank] <;> omega
      | _ => simp [ServerPc.rank]
    omega
  · rename_i hans
    have h0 : s.glob.shm 0 ≠ star := by
      rw [hstar] at hans
      simpa using hans
    have hw : (s.loc .server).waits = true := by
      obtain ⟨-, hat⟩ : Legible s.glob.shm ∧ (s.loc .server).At _ _ := ho .server
      generalize s.loc .server = l at hat
      cases l with
      | printf | print p => exact absurd hat.2.1 h0
      | finished => exact absurd hat.1 h0
      | _ => rfl
    have hI : (outline clients).Holds s' ∧ Lost s' := by
      refine h'.invariant (I := fun s => (outline clients).Holds s ∧ Lost s) ⟨ho, h0, hw, hgone⟩ ?_
      intro s a s' hi hs _
      exact ⟨(outline clients).step hs hi.1, lost_step hs hi.1 hi.2⟩
    exact hI.2.waits

/-- A client that is too early: its star is overwritten by the first letter. -/
theorem star_lost : ∃ tr s tr' s', (memory 1).Run Any (init 1 fun _ => 0) tr s ∧
    (memory 1).Run Any s tr' s' ∧ tr'.length = 40 ∧ tr.foldl answered false = false ∧
    if tr.foldl answered false then tr'.countP ((memory 1).goesOn .server) ≤ 82
    else (s'.loc .server).waits = true := by
  have hrun : ∃ tr s, (memory 1).Run Any (init 1 fun _ => 0) tr s ∧ s.loc .server = .store 1 ∧
      s.loc (.client 0) = .finished ∧ tr.foldl answered false = false ∧
      (((memory 1).play Any (burst .server 40) [] s).any fun r => r.1.length = 40) = true := by
    refine run_of_check (burst (.client 0) 4 ++ burst .server 1) ?_
    decide +kernel
  have hm : Legible fun _ => 0 := ⟨fun _ _ => .inl rfl, rfl⟩
  obtain ⟨tr, s, h, hl, hc, ha, hplay⟩ := hrun
  obtain ⟨tr', s', h', hn⟩ := run_of_check (Q := fun tr _ => tr.length = 40) _ hplay
  have hf : s.loc .server ≠ .store 0 := by
    rw [hl]
    decide
  have hgone : ∀ k : Fin 1, s.loc (.client k) = .finished := by
    intro k
    obtain rfl : k = 0 := Subsingleton.elim _ _
    exact hc
  exact ⟨tr, s, tr', s', h, h', hn, ha, answered_or_lost hm h hf hgone h'⟩

end Memory
