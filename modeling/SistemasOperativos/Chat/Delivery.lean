import SistemasOperativos.Chat.Code
import SistemasOperativos.Threads.Plain

/-!
# Delivery of messages

A party takes its turn to read from the sign in the first byte, but writes without
looking at it. Whoever writes second replaces a message that nobody has read, and as long
as he does not write the first one is not read either.
-/
namespace Chat

open Threads Threads.Program Text

variable {u : Session} {p q : Party} {s s' : State} {a : Label} {tr tr' : List Label}
variable {x y : Locals} {l : Pc} {g : Segment} {ok : Bool} {m m' : Message}

/-! ## Messages in a run -/

def begins (p : Party) : Label → Bool
  | .exec q (.mark _) _ => q = p
  | _ => false

def writes (m : Message) : Label → Bool
  | .exec p (.mark x) _ | .exec p (.write x _) _ => message p x = m
  | _ => false

/-- A text that has bytes of the message comes out at the other party. -/
def prints (m : Message) : Label → Bool
  | .exec p (.printed _ out) _ => p ≠ m.1 && out.any fun b => b.origin = some m
  | _ => false

def Began (p : Party) (tr : List Label) : Prop := ∃ a ∈ tr, begins p a = true

/-- What the other party should read of a message, up to its zero byte. -/
def text (p : Party) (x : Locals) : List Cell :=
  (x.input.takeWhile (· ≠ 0) ++ [0]).map fun b => ⟨b, some (message p x)⟩

/-- Every printed text is one message of the other party, none comes out twice, and
no byte of a message is replaced before it came out. Nothing is said of a message that has
not come out yet. -/
structure Intact (tr : List Label) : Prop where
  whole : ∀ tr₁ tr₂ p x out ok, tr = tr₁ ++ .exec p (.printed x out) ok :: tr₂ →
    ∃ y ok', .exec p.other (.mark y) ok' ∈ tr₁ ∧ out = text p.other y
  once : ∀ m, tr.countP (prints m) ≤ 1
  kept : ∀ tr₁ tr₂ a m m', tr = tr₁ ++ a :: tr₂ → writes m' a = true → m ≠ m' →
    (∃ b ∈ tr₁, writes m b = true) → tr₁.countP (prints m) = 1

theorem intact_init (h : Intact (tr ++ tr')) : Intact tr where
  whole tr₁ tr₂ p x out ok htr := h.whole tr₁ (tr₂ ++ tr') p x out ok (by simp [htr])
  once m := by
    have hle := h.once m
    rw [List.countP_append] at hle
    omega
  kept tr₁ tr₂ a m m' htr := h.kept tr₁ (tr₂ ++ tr') a m m' (by simp [htr])

/-- The message can still come out, and nothing is spoilt until then. -/
def Arrives (u : Session) (tr : List Label) (s : State) (m : Message) : Prop :=
  ∃ tr' s', (chat u).Run Any s tr' s' ∧ Intact (tr ++ tr') ∧ (tr ++ tr').countP (prints m) = 1

/-- Every message that is written comes out whole, once, and before it is replaced. -/
structure Delivered (u : Session) (tr : List Label) (s : State) : Prop where
  intact : Intact tr
  arrives : ∀ m, (∃ a ∈ tr, writes m a = true) → Arrives u tr s m

theorem began_snoc : Began p (tr ++ [a]) ↔ Began p tr ∨ begins p a = true := by
  simp [Began, or_and_right, exists_or]

theorem begins_inv (h : begins p a = true) : ∃ x ok, a = .exec p (.mark x) ok := by
  match a, h with
  | .exec _ (.mark x) ok, h => exact ⟨x, ok, by rw [of_decide_eq_true h]⟩

/-! ## Before the other party begins -/

theorem gets_cases (u : Session) (p : Party) (x : Locals) :
    (∃ y, y.sent = x.sent ∧ gets u p x = .mem fun g => (g, .mark y)) ∨
    (x.stdin = [] ∧ u.closed p = false ∧ gets u p x = .pause (.gets x)) := by
  unfold gets
  split
  · rename_i input stdin _
    exact .inl ⟨{ x with input := input, stdin := stdin }, rfl, rfl⟩
  · rename_i hnone
    split
    · exact .inl ⟨x, rfl, rfl⟩
    · rename_i hclosed
      exact .inr ⟨fgets_eq_none.mp hnone, Bool.eq_false_iff.mpr hclosed, rfl⟩

theorem main_plain (u : Session) (p : Party) (l : Pc) : (main u p l).Plain := by
  cases l with
  | gets x =>
    obtain ⟨y, -, hy⟩ | ⟨-, -, hy⟩ := gets_cases u p x
    · rw [main, hy]
      trivial
    · rw [main, hy]
      trivial
  | _ => trivial

/-- Not a byte is written yet. -/
def Unbegun : Pc → Prop
  | .gets _ | .mark _ => True
  | _ => False

/-- With its first message, whose sign is still there. -/
def Waiting (u : Session) (p : Party) (g : Segment) : Pc → Prop
  | .gets x | .mark x => x.sent = 0
  | .write x _ | .poll x => x.sent = 0 ∧ (g 0).byte = u.sign p
  | _ => False

/-- Nothing comes out, and nothing is written but the first message of `p`. -/
def Calm (p : Party) : Label → Prop
  | .exec _ (.gets _) _ => True
  | .exec q (.mark x) _ | .exec q (.write x _) _ | .exec q (.poll x) _ => q = p ∧ x.sent = 0
  | _ => False

/-- The other party has not begun. -/
structure Alone (u : Session) (p : Party) (tr : List Label) (s : State) : Prop where
  untouched : Untouched s
  calm : ∀ a ∈ tr, Calm p a
  unbegun : Unbegun (s.loc p.other)
  waiting : Waiting u p s.glob (s.loc p)

theorem calm_prints (h : Calm p a) : prints m a = false := by
  match a, h with
  | .exec _ (.gets _) _, _ | .exec _ (.mark _) _, _ | .exec _ (.write _ _) _, _
  | .exec _ (.poll _) _, _ => rfl

theorem calm_writes (h : Calm p a) (hw : writes m a = true) : m = (p, 0) := by
  match a, h, hw with
  | .exec _ (.mark x) _, ⟨rfl, h0⟩, hw | .exec _ (.write x _) _, ⟨rfl, h0⟩, hw =>
    rw [← of_decide_eq_true hw, message, h0]

theorem intact_calm (h : ∀ a ∈ tr, Calm p a) : Intact tr where
  whole tr₁ tr₂ q x out ok htr := by
    have hcalm : Calm p (.exec q (.printed x out) ok) := h _ (by simp [htr])
    exact hcalm.elim
  once m := by
    have hnone : tr.countP (prints m) = 0 :=
      List.countP_eq_zero.mpr fun a ha => by simp [calm_prints (h a ha)]
    omega
  kept tr₁ tr₂ a m m' htr hw hne hb := by
    obtain ⟨b, hb, hwb⟩ := hb
    have hm := calm_writes (h b (by simp [htr, hb])) hwb
    have hm' := calm_writes (h a (by simp [htr])) hw
    exact absurd (hm.trans hm'.symm) hne

theorem main_unbegun (h : Unbegun l) (hl : ∀ x, l ≠ .mark x) (ok : Bool) :
    (main u p l).glob g = g ∧ Unbegun ((main u p l).dest l g ok) := by
  cases l with
  | gets x =>
    obtain ⟨y, -, hy⟩ | ⟨-, -, hy⟩ := gets_cases u p x
    · rw [main, hy]
      exact ⟨rfl, trivial⟩
    · rw [main, hy]
      exact ⟨rfl, trivial⟩
  | mark x => exact absurd rfl (hl x)
  | _ => exact h.elim

theorem main_waiting (h : Waiting u p g l) (ok : Bool) :
    Waiting u p ((main u p l).glob g) ((main u p l).dest l g ok) ∧ Calm p (.exec p l ok) := by
  cases l with
  | gets x =>
    refine ⟨?_, trivial⟩
    obtain ⟨y, hy0, hy⟩ | ⟨-, -, hy⟩ := gets_cases u p x
    · rw [main, hy]
      exact hy0.trans h
    · rw [main, hy]
      exact h
  | mark x =>
    have hsign : (put p x 0 (u.sign p) g 0).byte = u.sign p := by simp [put]
    exact ⟨⟨h, hsign⟩, rfl, h⟩
  | write x c =>
    have hsign : (put p x (c + 1) (x.input.getD c 0) g 0).byte = u.sign p := by
      simpa [put] using h.2
    refine ⟨?_, rfl, h.1⟩
    simp only [main, Op.dest, Op.glob]
    split
    · exact ⟨h.1, hsign⟩
    · exact ⟨h.1, hsign⟩
  | poll x =>
    refine ⟨?_, rfl, h.1⟩
    simp only [main, Op.dest, Op.glob, h.2, if_true]
    exact h
  | _ => exact h.elim

theorem alone_init (u : Session) (p : Party) : Alone u p [] (init u) where
  untouched := { cancelled := fun _ => rfl, cont := fun _ => rfl }
  calm := by simp
  unbegun := trivial
  waiting := rfl

theorem untouched_effect (h : Untouched s) : Untouched ((chat u).effect s p ok) :=
  h.effect ((main_plain u p _).cancels _) ((main_plain u p _).signals _ _)

theorem other_ne (p : Party) : p.other ≠ p := by
  cases p <;> decide

theorem eq_or_other (p q : Party) : p = q ∨ p = q.other := by
  cases p <;> cases q <;> decide

theorem alone_step (hs : (chat u).Step s a s') (ha : ¬ begins p.other a = true)
    (h : Alone u p tr s) : Alone u p (tr ++ [a]) s' := by
  obtain ⟨t, ok, rfl, rfl, -, -⟩ := h.untouched.step (fun _ _ => rfl) hs
  have hu : Untouched ((chat u).effect s t ok) := untouched_effect h.untouched
  obtain rfl | rfl := eq_or_other t p
  · obtain ⟨hw, hcalm⟩ := main_waiting h.waiting ok
    refine { untouched := hu, calm := ?_, unbegun := ?_, waiting := ?_ }
    · simpa [or_imp, forall_and] using ⟨h.calm, hcalm⟩
    · rw [effect_loc_of_ne (other_ne t)]
      exact h.unbegun
    · rw [effect_loc_self]
      exact hw
  · have hl : ∀ x, s.loc p.other ≠ .mark x := by
      intro x hx
      exact ha (by rw [hx]; exact decide_eq_true rfl)
    obtain ⟨hglob, hub⟩ := main_unbegun (u := u) (p := p.other) (g := s.glob) h.unbegun hl ok
    have hcalm : Calm p (.exec p.other (s.loc p.other) ok : Label) := by
      have hun := h.unbegun
      revert hun hl
      cases s.loc p.other with
      | gets x => exact fun _ _ => trivial
      | mark x => exact fun hl _ => absurd rfl (hl x)
      | _ => exact fun _ hun => hun.elim
    refine { untouched := hu, calm := ?_, unbegun := ?_, waiting := ?_ }
    · simpa [or_imp, forall_and] using ⟨h.calm, hcalm⟩
    · rw [effect_loc_self]
      exact hub
    · rw [effect_loc_of_ne (other_ne p).symm]
      have hg : ((chat u).effect s p.other ok).glob = s.glob := hglob
      rw [hg]
      exact h.waiting

theorem alone_run (h : (chat u).Run Any (init u) tr s) (hp : ¬ Began p.other tr) :
    Alone u p tr s := by
  induction h with
  | nil => exact alone_init u p
  | snoc _ hs _ ih =>
    rw [began_snoc, not_or] at hp
    exact alone_step hs hp.2 (ih hp.1)

/-! ## After the other party begins -/

theorem other_other (p : Party) : p.other.other = p := by
  cases p <;> rfl

/-- The second to begin replaces the sign of a message that nobody has read. -/
theorem not_intact_begins (h : (chat u).Run Any (init u) tr s) (hp : Began p tr)
    (hq : ¬ Began p.other tr) (ha : begins p.other a = true) : ¬ Intact (tr ++ [a]) := by
  intro hd
  obtain ⟨b, hb, hbegins⟩ := hp
  obtain ⟨x, ok, rfl⟩ := begins_inv hbegins
  obtain ⟨y, ok', rfl⟩ := begins_inv ha
  have hne : message p x ≠ message p.other y := fun he => other_ne p (congrArg Prod.fst he).symm
  have hone := hd.kept tr [] _ (message p x) (message p.other y) rfl (decide_eq_true rfl) hne
    ⟨_, hb, decide_eq_true rfl⟩
  have hnone : tr.countP (prints (message p x)) = 0 :=
    List.countP_eq_zero.mpr fun c hc => by simp [calm_prints ((alone_run h hq).calm c hc)]
  omega

theorem not_intact (h : (chat u).Run Any (init u) tr s) (hp : Began p tr)
    (hq : Began p.other tr) : ¬ Intact tr := by
  induction h with
  | nil => simp [Began] at hp
  | @snoc tr s s' a hr _ _ ih =>
    by_cases hp' : Began p tr
    · by_cases hq' : Began p.other tr
      · exact fun hd => ih hp' hq' (intact_init hd)
      · exact not_intact_begins hr hp' hq' ((began_snoc.mp hq).resolve_left hq')
    · by_cases hq' : Began p.other tr
      · have ha := (began_snoc.mp hp).resolve_left hp'
        rw [← other_other p] at hp' ha
        exact not_intact_begins hr hq' hp' ha
      · have ha := begins_inv ((began_snoc.mp hp).resolve_left hp')
        have ha' := begins_inv ((began_snoc.mp hq).resolve_left hq')
        obtain ⟨x, ok, rfl⟩ := ha
        obtain ⟨y, ok', he⟩ := ha'
        cases p <;> cases he

theorem intact_iff (h : (chat u).Run Any (init u) tr s) :
    Intact tr ↔ ¬ (Began .first tr ∧ Began .second tr) := by
  constructor
  · rintro hd ⟨h1, h2⟩
    exact not_intact (p := .first) h h1 h2 hd
  · intro hnot
    by_cases h1 : Began .first tr
    · exact intact_calm (alone_run (p := .first) h fun h2 => hnot ⟨h1, h2⟩).calm
    · exact intact_calm (alone_run (p := .second) h h1).calm

/-! ## Nobody reads alone -/

/-- Who has begun alone has a message that no run brings out intact: the other party has to
begin before it reads. -/
theorem not_arrives (h : (chat u).Run Any (init u) tr s) (hp : Began p tr) :
    ∃ m, (∃ a ∈ tr, writes m a = true) ∧ ¬ Arrives u tr s m := by
  obtain ⟨b, hb, hbegins⟩ := hp
  obtain ⟨x, ok, rfl⟩ := begins_inv hbegins
  refine ⟨message p x, ⟨_, hb, decide_eq_true rfl⟩, ?_⟩
  rintro ⟨tr', s', hrun, hintact, hone⟩
  have hall := h.append hrun
  have hbegan : Began p (tr ++ tr') := ⟨_, List.mem_append_left _ hb, hbegins⟩
  have halone : ¬ Began p.other (tr ++ tr') := fun hq => not_intact hall hbegan hq hintact
  have hnone : (tr ++ tr').countP (prints (message p x)) = 0 :=
    List.countP_eq_zero.mpr fun c hc => by simp [calm_prints ((alone_run hall halone).calm c hc)]
  omega

/-- Before anybody begins nothing is written. -/
theorem nothing_written (h : (chat u).Run Any (init u) tr s) (h1 : ¬ Began .first tr)
    (h2 : ¬ Began .second tr) : ¬ ∃ a ∈ tr, writes m a = true := by
  rintro ⟨a, ha, hw⟩
  have hfirst := calm_writes ((alone_run (p := .first) h h2).calm a ha) hw
  have hsecond := calm_writes ((alone_run (p := .second) h h1).calm a ha) hw
  cases hfirst.symm.trans hsecond

theorem delivered_iff (h : (chat u).Run Any (init u) tr s) :
    Delivered u tr s ↔ ¬ Began .first tr ∧ ¬ Began .second tr := by
  have hnot : ∀ p, Delivered u tr s → ¬ Began p tr := by
    intro p hd hp
    obtain ⟨m, hw, hm⟩ := not_arrives h hp
    exact hm (hd.arrives m hw)
  constructor
  · exact fun hd => ⟨hnot .first hd, hnot .second hd⟩
  · rintro ⟨h1, h2⟩
    exact ⟨(intact_iff h).mpr fun hboth => h1 hboth.1, fun m hw => (nothing_written h h1 h2 hw).elim⟩

/-! ## Who can begin -/

/-- There is a line, or an end of the input that `fgets` comes back from. -/
def Ready (u : Session) (p : Party) : Prop := u.lines p ≠ [] ∨ u.closed p = true

theorem alive_init (u : Session) : Alive (init u) where
  cancelled := fun _ => rfl
  cont := fun _ => rfl
  ended := rfl
  life := fun _ => rfl

theorem ofLines_eq_nil {lines : List (List Byte)} : ofLines lines = [] ↔ lines = [] := by
  cases lines <;> simp [ofLines]

theorem gets_ready (hp : Ready u p) :
    ∃ y, gets u p ⟨ofLines (u.lines p), u.input p, 0⟩ = .mem fun g => (g, .mark y) := by
  obtain ⟨y, -, hy⟩ | ⟨hnil, hopen, -⟩ := gets_cases u p ⟨ofLines (u.lines p), u.input p, 0⟩
  · exact ⟨y, hy⟩
  · obtain hp | hp := hp
    · exact absurd (ofLines_eq_nil.mp hnil) hp
    · cases hopen.symm.trans hp

theorem can_begin (hp : Ready u p) : ∃ tr s, (chat u).Run Any (init u) tr s ∧ Began p tr := by
  obtain ⟨y, hy⟩ := gets_ready hp
  have hop : (chat u).op (init u) p = .mem fun g => (g, .mark y) := hy
  have h1 : Alive ((chat u).effect (init u) p true) :=
    (alive_init u).effect (main_plain u p (start u p))
  have hl1 : ((chat u).effect (init u) p true).loc p = .mark y := by
    rw [effect_loc_self, hop]
    rfl
  have hs1 := (alive_init u).exec (P := chat u) (t := p) (by rw [hop]; trivial) true
  have hs2 := h1.exec (P := chat u) (t := p) (by rw [op, hl1]; trivial) true
  refine ⟨_, _, .snoc (.snoc .nil hs1 trivial) hs2 trivial, ?_⟩
  refine ⟨_, List.mem_append_right _ (List.mem_singleton_self _), ?_⟩
  rw [hl1]
  exact decide_eq_true rfl

/-- Who has nothing to read never begins. -/
theorem never_begins (hp : ¬ Ready u p) (h : (chat u).Run Any (init u) tr s) : ¬ Began p tr := by
  have hlines : u.lines p = [] := not_not.mp fun hne => hp (.inl hne)
  have hopen : u.closed p = false := Bool.eq_false_iff.mpr fun hc => hp (.inr hc)
  have hinv : Untouched s ∧ s.loc p = start u p ∧ ¬ Began p tr := by
    induction h with
    | nil => exact ⟨⟨fun _ => rfl, fun _ => rfl⟩, rfl, by simp [Began]⟩
    | @snoc tr s s' a _ hs _ ih =>
      obtain ⟨hu, hl, hb⟩ := ih
      obtain ⟨t, ok, rfl, rfl, -, he⟩ := hu.step (fun _ _ => rfl) hs
      by_cases ht : p = t
      · subst ht
        have hpause : (chat u).op s p = .pause (start u p) := by
          simp only [op, hl, chat, start, main, gets, hlines, hopen]
          rfl
        rw [hpause] at he
        exact he.elim
      · refine ⟨untouched_effect hu, by rw [effect_loc_of_ne ht, hl], ?_⟩
        rw [began_snoc, not_or]
        refine ⟨hb, fun hbegins => ?_⟩
        obtain ⟨x, ok', hx⟩ := begins_inv hbegins
        injection hx with htp
        exact ht htp.symm
  exact hinv.2.2

/-- Messages are intact as long as one party at most has begun to write, and they are
delivered as long as nobody has: that is so in every run if and only if neither party ever
has anything to write. -/
theorem chat_delivery (u : Session) :
    (∀ tr s, (chat u).Run Any (init u) tr s →
      (Intact tr ↔ ¬ (Began .first tr ∧ Began .second tr))) ∧
    (∀ tr s, (chat u).Run Any (init u) tr s →
      (Delivered u tr s ↔ ¬ Began .first tr ∧ ¬ Began .second tr)) ∧
    ((∀ tr s, (chat u).Run Any (init u) tr s → Delivered u tr s) ↔
      ¬ Ready u .first ∧ ¬ Ready u .second) := by
  refine ⟨fun tr s h => intact_iff h, fun tr s h => delivered_iff h, fun hall => ?_, ?_⟩
  · have hnot : ∀ p, ¬ Ready u p := by
      intro p hp
      obtain ⟨tr, s, hr, hb⟩ := can_begin hp
      obtain ⟨h1, h2⟩ := (delivered_iff hr).mp (hall tr s hr)
      cases p with
      | first => exact h1 hb
      | second => exact h2 hb
    exact ⟨hnot .first, hnot .second⟩
  · rintro ⟨h1, h2⟩ tr s h
    exact (delivered_iff h).mpr ⟨never_begins h1 h, never_begins h2 h⟩

/-- The signs are 1 and 2, and each party has a line of two letters. -/
def letters : Session where
  sign
    | .first => 1
    | .second => 2
  lines
    | .first => [[97, 97]]
    | .second => [[98, 98]]
  closed _ := false
  input _ := List.replicate lengthMsg 0
  segment _ := 0

/-- The first party is alone and sends its line, which is intact and never read. -/
theorem chat_delivery_alone : ∃ tr s, (chat letters).Run Any (init letters) tr s ∧
    tr.countP (writes (.first, 0)) = 21 ∧ Intact tr ∧ ¬ Delivered letters tr s := by
  have hrun : ∃ tr s, (chat letters).Run Any (init letters) tr s ∧
      tr.countP (writes (.first, 0)) = 21 ∧ tr.any (begins .first) = true ∧
      ¬ tr.any (begins .second) = true := by
    refine run_of_check (burst .first 25) ?_
    decide +kernel
  obtain ⟨tr, s, h, hcount, hb, hnb⟩ := hrun
  obtain ⟨hintact, hdelivered, -⟩ := chat_delivery letters
  refine ⟨tr, s, h, hcount, (hintact tr s h).mpr fun hboth => ?_, fun hd => ?_⟩
  · exact hnb (List.any_eq_true.mpr hboth.2)
  · exact ((hdelivered tr s h).mp hd).1 (List.any_eq_true.mp hb)

/-- Bytes of both parties come out in one text. -/
def mixes : Label → Bool
  | .exec _ (.printed _ out) _ =>
    out.any (fun b => b.origin = some (.first, 0)) && out.any fun b => b.origin = some (.second, 0)
  | _ => false

/-- The second party begins while the first has not looked at the sign yet. -/
theorem mixed_text : ∃ tr s, (chat letters).Run Any (init letters) tr s ∧
    tr.any mixes = true ∧ ¬ Intact tr ∧ ¬ Delivered letters tr s := by
  have hrun : ∃ tr s, (chat letters).Run Any (init letters) tr s ∧ tr.any mixes = true ∧
      tr.any (begins .first) = true ∧ tr.any (begins .second) = true := by
    refine run_of_check (burst .first 22 ++ burst .second 3 ++ burst .first 6) ?_
    decide +kernel
  obtain ⟨tr, s, h, hmix, h1, h2⟩ := hrun
  have hnot : ¬ Intact tr :=
    not_intact (p := .first) h (List.any_eq_true.mp h1) (List.any_eq_true.mp h2)
  exact ⟨tr, s, h, hmix, hnot, fun hd => hnot hd.intact⟩

end Chat
