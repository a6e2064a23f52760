import SistemasOperativos.Pipes.Code

/-!
# The time of a child

In `proc_time.c` and `problema2.c` the parent waits for the child before it reads the pipe. It
needs no end of the input, and has none, for it keeps the write end.
-/
namespace Pipes.Measure

open Descriptors Descriptors.Table Text

variable {F : Type} {t : Table F} {fds : ℤ × ℤ} {capacity : ℕ} {r w : ℕ} {p : Role} {pc pc' : Pc}
variable {tr : List (Role × Call F)} {s₀ s : State Role F Pc} {c : Call F} {u : Table (End F)}
variable {out : List Byte}

/-! ## The tables -/

/-- The descriptor that a process uses next. -/
def Has (r w : ℕ) (u : Table (End F)) : Role → Pc → Prop
  | .child, .dup2 => u.file w = some .write ∧ 1 < u.length
  | .child, .closeRead | .child, .closeWrite | .child, .flush | .child, .exit =>
    u.file 1 = some .write
  | .child, .ended => u = []
  | .parent, .dupStdin | .parent, .dup2Stdin | .parent, .waitpid | .parent, .read | .parent, .done =>
    u.file r = some .read
  | _, _ => False

theorem has_step (hr0 : r ≠ 0) (hr1 : r ≠ 1) (hw1 : w ≠ 1) (h : Has r w u p pc)
    (hc : main ((r : ℤ), (w : ℤ)) out p pc c pc') : Has r w (c.table u) p pc' := by
  have hclose : ∀ i : ℕ, i ≠ 1 → u.file 1 = some .write → (u.close i).file 1 = some .write := by
    intro i hi hfile
    have hne : (i : ℤ) ≠ (1 : ℕ) := by omega
    exact (close_keeps hne).trans hfile
  cases p with
  | child =>
    cases pc with
    | dup2 =>
      obtain ⟨rfl, rfl⟩ := hc
      have hdup : u.dup2 w 1 = u.put 1 (some .write) := dup2_some h.1 1
      have hfile : (u.put 1 (some .write)).file 1 = some .write := file_put_self h.2 _
      exact (congrArg (Table.file · 1) hdup).trans hfile
    | closeRead =>
      obtain ⟨rfl, rfl⟩ := hc
      exact hclose r hr1 h
    | closeWrite =>
      obtain ⟨rfl, rfl⟩ := hc
      exact hclose w hw1 h
    | flush =>
      rcases hc with ⟨rfl, rfl⟩ | ⟨rfl, rfl⟩
      · exact h
      · rfl
    | exit =>
      obtain ⟨rfl, rfl⟩ := hc
      rfl
    | _ => exact hc.elim
  | parent =>
    cases pc with
    | dupStdin =>
      obtain ⟨rfl, rfl⟩ := hc
      exact dup_keeps h 0
    | dup2Stdin =>
      obtain ⟨rfl, rfl⟩ := hc
      have hne : (0 : ℤ) ≠ r := by omega
      exact (dup2_keeps hne r).trans h
    | waitpid =>
      obtain ⟨rfl, rfl⟩ := hc
      exact h
    | read =>
      obtain ⟨buffP, rfl, rfl⟩ := hc
      exact h
    | _ => exact hc.elim

/-! ## The text -/

def Pc.written : Pc → Bool
  | .exit | .ended => true
  | _ => false

/-- How many calls the process made. -/
def Pc.calls : Pc → ℕ
  | .dup2 | .dupStdin => 0
  | .closeRead | .dup2Stdin => 1
  | .closeWrite | .waitpid => 2
  | .flush | .read => 3
  | .exit | .done => 4
  | .ended => 5

/-- What went through the pipe. -/
structure Sent (r w : ℕ) (out : List Byte) (tr : List (Role × Call F)) (s : State Role F Pc) :
    Prop where
  has : ∀ p, Has r w (s.table p) p (s.pc p)
  buffer : s.buffer =
    if (s.pc .child).written = true ∧ s.pc .parent ≠ .done then out else []
  waited : s.pc .parent = .read ∨ s.pc .parent = .done → s.pc .child = .ended
  length : tr.length = (s.pc .child).calls + (s.pc .parent).calls
  clean : Clean out tr

theorem Sent.next (hr0 : r ≠ 0) (hr1 : r ≠ 1) (hw1 : w ≠ 1) (h : Sent r w out tr s)
    (hc : main ((r : ℤ), (w : ℤ)) out p (s.pc p) c pc) (hcalls : pc.calls = (s.pc p).calls + 1)
    (hbuffer : (s.after p c pc).buffer = if ((s.after p c pc).pc .child).written = true ∧
      (s.after p c pc).pc .parent ≠ .done then out else [])
    (hwaited : (s.after p c pc).pc .parent = .read ∨ (s.after p c pc).pc .parent = .done →
      (s.after p c pc).pc .child = .ended)
    (hclean : Clean out (tr ++ [(p, c)])) : Sent r w out (tr ++ [(p, c)]) (s.after p c pc) := by
  constructor
  · intro q
    by_cases hqp : q = p
    · subst q
      simpa [State.after] using has_step hr0 hr1 hw1 (h.has p) hc
    · simpa [State.after, Function.update_of_ne hqp] using h.has q
  · exact hbuffer
  · exact hwaited
  · have hlen := h.length
    rw [List.length_append, List.length_singleton]
    cases p <;> simp [State.after] <;> omega
  · exact hclean

/-- The parent keeps the read end all the time. -/
theorem Sent.reader (h : Sent r w out tr s) : s.Open .read := by
  have hhas := h.has .parent
  have hfile : (s.table .parent).file r = some .read := by
    cases hpc : s.pc .parent <;> rw [hpc] at hhas <;> first | exact hhas | exact hhas.elim
  exact State.open_of_file hfile

/-- A child that still has a table has not ended. -/
theorem Sent.ended (h : Sent r w out tr s) (hnil : s.table .child = []) : s.pc .child = .ended := by
  have hhas := h.has .child
  rw [hnil] at hhas
  cases hpc : s.pc .child with
  | ended => rfl
  | dup2 =>
    rw [hpc] at hhas
    exact (Nat.not_lt_zero 1 hhas.2).elim
  | closeRead | closeWrite | flush | exit =>
    rw [hpc] at hhas
    cases hhas
  | _ =>
    rw [hpc] at hhas
    exact hhas.elim

/-! ## One call -/

/-- The child has not written before its `flush`, and the parent has not read. -/
theorem Sent.empty (h : Sent r w out tr s) (hpc : (s.pc .child).written = false) : s.buffer = [] := by
  simp [h.buffer, hpc]

theorem sent_child (hr0 : r ≠ 0) (hr1 : r ≠ 1) (hw1 : w ≠ 1) (h : Sent r w out tr s)
    (hc : main ((r : ℤ), (w : ℤ)) out .child (s.pc .child) c pc) (ha : s.Allowed capacity .child c) :
    Sent r w out (tr ++ [(.child, c)]) (s.after .child c pc) := by
  have hmain := hc
  have hparent : (s.after .child c pc).pc .parent = s.pc .parent := by simp [State.after]
  have hchild : (s.after .child c pc).pc .child = pc := by simp [State.after]
  have hrunning : s.pc .child ≠ .ended := by
    intro hpc
    rw [hpc] at hc
    exact hc
  have hearly : ¬ (s.pc .parent = .read ∨ s.pc .parent = .done) := fun hp => hrunning (h.waited hp)
  have hnext := h.next hr0 hr1 hw1 hmain
  rw [hparent, hchild] at hnext
  cases hpc : s.pc .child with
  | dup2 | closeRead | closeWrite =>
    rw [hpc] at hc hnext
    obtain ⟨rfl, rfl⟩ := hc
    have hempty := h.empty (congrArg Pc.written hpc)
    apply hnext rfl _ (fun hp => (hearly hp).elim) (h.clean.quiet rfl)
    simpa [State.after, Call.buffer, Pc.written] using hempty
  | flush =>
    rw [hpc] at hc hnext
    rcases hc with ⟨rfl, rfl⟩ | ⟨rfl, rfl⟩
    · have hhas := h.has .child
      rw [hpc] at hhas
      have hempty := h.empty (congrArg Pc.written hpc)
      have hfile : (s.table .child).file 1 = some .write := hhas
      have hdone : s.pc .parent ≠ .done := fun hd => hearly (.inr hd)
      apply hnext rfl _ (fun hp => (hearly hp).elim) (h.clean.quiet rfl)
      simp [State.after, Call.buffer, hfile, hempty, hdone, Pc.written]
    · exact (ha.2 h.reader).elim
  | exit =>
    rw [hpc] at hc hnext
    obtain ⟨rfl, rfl⟩ := hc
    apply hnext rfl _ (fun _ => rfl) (h.clean.quiet rfl)
    have hbuffer := h.buffer
    rw [hpc] at hbuffer
    exact hbuffer
  | ended => exact (hrunning hpc).elim
  | _ =>
    rw [hpc] at hc
    exact hc.elim

theorem sent_parent (hr0 : r ≠ 0) (hr1 : r ≠ 1) (hw1 : w ≠ 1) (h : Sent r w out tr s)
    (hlen : out.length ≤ lenBuff)
    (hc : main ((r : ℤ), (w : ℤ)) out .parent (s.pc .parent) c pc)
    (ha : s.Allowed capacity .parent c) :
    Sent r w out (tr ++ [(.parent, c)]) (s.after .parent c pc) := by
  have hmain := hc
  have hparent : (s.after .parent c pc).pc .parent = pc := by simp [State.after]
  have hchild : (s.after .parent c pc).pc .child = s.pc .child := by simp [State.after]
  have hnext := h.next hr0 hr1 hw1 hmain
  rw [hparent, hchild] at hnext
  have hbuffer := h.buffer
  cases hpc : s.pc .parent with
  | dupStdin | dup2Stdin =>
    rw [hpc] at hc hnext hbuffer
    obtain ⟨rfl, rfl⟩ := hc
    apply hnext rfl _ (by simp) (h.clean.quiet rfl)
    simpa [State.after, Call.buffer] using hbuffer
  | waitpid =>
    rw [hpc] at hc hnext hbuffer
    obtain ⟨rfl, rfl⟩ := hc
    have hended := h.ended (ha .child (by decide))
    apply hnext rfl _ (fun _ => hended) (h.clean.quiet rfl)
    simpa [State.after, Call.buffer] using hbuffer
  | read =>
    rw [hpc] at hc hnext hbuffer
    obtain ⟨buffP, rfl, rfl⟩ := hc
    have hended := h.waited (.inl hpc)
    have hhas := h.has .parent
    rw [hpc] at hhas
    have hfile : (s.table .parent).file r = some .read := hhas
    have hfull : s.buffer = out := by simpa [hended, Pc.written] using hbuffer
    have hread : buffP = out := by
      rw [(ha hfile).1, hfull]
      exact List.take_of_length_le hlen
    subst hread
    apply hnext rfl _ (fun _ => hended) h.clean.read
    simp [State.after, Call.buffer, hfile, hfull]
  | _ =>
    rw [hpc] at hc
    exact hc.elim

theorem sent_run (hr0 : r ≠ 0) (hr1 : r ≠ 1) (hw1 : w ≠ 1) (hlen : out.length ≤ lenBuff)
    (h₀ : Sent r w out [] s₀) (h : Run (main ((r : ℤ), (w : ℤ)) out) capacity s₀ tr s) :
    Sent r w out tr s := by
  induction h with
  | nil => exact h₀
  | @snoc _ _ p _ _ _ hc ha ih =>
    cases p with
    | child => exact sent_child hr0 hr1 hw1 ih hc ha
    | parent => exact sent_parent hr0 hr1 hw1 ih hlen hc ha

/-! ## The whole round -/

/-- The child can always go on, and after it the parent. -/
theorem Sent.next_call (h : Sent r w out tr s) (hout : out ≠ []) (hcap : out.length ≤ capacity)
    (hne : ¬ (s.pc .child = .ended ∧ s.pc .parent = .done)) :
    ∃ p c pc, main ((r : ℤ), (w : ℤ)) out p (s.pc p) c pc ∧ s.Allowed capacity p c := by
  have hgo : ∀ p pc c pc', s.pc p = pc → main ((r : ℤ), (w : ℤ)) out p pc c pc' →
      s.Allowed capacity p c →
      ∃ p c pc, main ((r : ℤ), (w : ℤ)) out p (s.pc p) c pc ∧ s.Allowed capacity p c := by
    rintro p pc c pc' rfl hc ha
    exact ⟨p, c, pc', hc, ha⟩
  have hchild := h.has .child
  have hparent := h.has .parent
  cases hpc : s.pc .child with
  | dup2 => exact hgo _ _ _ _ hpc ⟨rfl, rfl⟩ trivial
  | closeRead => exact hgo _ _ _ _ hpc ⟨rfl, rfl⟩ trivial
  | closeWrite => exact hgo _ _ _ _ hpc ⟨rfl, rfl⟩ trivial
  | exit => exact hgo _ _ _ _ hpc ⟨rfl, rfl⟩ trivial
  | flush =>
    apply hgo _ _ _ _ hpc (.inl ⟨rfl, rfl⟩)
    intro _
    exact ⟨h.reader, by simpa [h.empty (congrArg Pc.written hpc)] using hcap⟩
  | ended =>
    rw [hpc] at hchild
    cases hpp : s.pc .parent with
    | dupStdin => exact hgo _ _ _ _ hpp ⟨rfl, rfl⟩ trivial
    | dup2Stdin => exact hgo _ _ _ _ hpp ⟨rfl, rfl⟩ trivial
    | waitpid =>
      apply hgo _ _ _ _ hpp ⟨rfl, rfl⟩
      intro q hq
      cases q with
      | child => exact hchild
      | parent => exact (hq rfl).elim
    | read =>
      apply hgo _ _ _ _ hpp ⟨_, rfl, rfl⟩
      intro _
      have hfull : s.buffer = out := by simp [h.buffer, hpc, hpp, Pc.written]
      exact ⟨rfl, .inl (hfull ▸ hout)⟩
    | done => exact (hne ⟨hpc, hpp⟩).elim
    | _ =>
      rw [hpp] at hparent
      exact hparent.elim
  | _ =>
    rw [hpc] at hchild
    exact hchild.elim

theorem forked_sent (hf : forked t start = some (fds, s₀)) (h0 : (t.file 0).isSome = true)
    (h1 : (t.file 1).isSome = true) (out : List Byte) : ∃ r w : ℕ, fds = ((r : ℤ), (w : ℤ)) ∧
    r ≠ 0 ∧ r ≠ 1 ∧ w ≠ 1 ∧ Sent r w out [] s₀ := by
  obtain ⟨r, w, hfds, -, hr, hw, hpc, hbuffer, htable⟩ := forked_spec hf
  have hfree : ∀ i j : ℕ, t.file i = none → (t.file j).isSome = true → i ≠ j := by
    rintro i j hi hj rfl
    rw [hi] at hj
    cases hj
  obtain ⟨f, hf1⟩ := Option.isSome_iff_exists.mp h1
  have hlt : 1 < (s₀.table .child).length := by
    rw [(htable .child).1, length_put, length_put, files, List.length_map]
    exact lt_of_file (i := 1) hf1
  refine ⟨r, w, hfds, hfree r 0 hr h0, hfree r 1 hr h1, hfree w 1 hw h1, ?_, ?_, ?_, ?_, ?_⟩
  · intro p
    rw [hpc]
    cases p with
    | child => exact ⟨(htable .child).2.2.1, hlt⟩
    | parent => exact (htable .parent).2.1
  · simp [hbuffer, hpc, start, Pc.written]
  · simp [hpc, start]
  · simp [hpc, start, Pc.calls]
  · exact clean_nil out

/-- In whatever order parent and child make their calls, the parent reads all that the child has
printed and nothing else, the child is not ended by its `write`, and somebody can go on until
the child has ended and the parent has read. -/
theorem text_arrives (hf : forked t start = some (fds, s₀)) (h0 : (t.file 0).isSome = true)
    (h1 : (t.file 1).isSome = true) (hout : out ≠ []) (hlen : out.length ≤ lenBuff)
    (hcap : out.length ≤ capacity) (h : Run (main fds out) capacity s₀ tr s) :
    (∀ p fd count bytes, (p, Call.read fd count bytes) ∈ tr → bytes = out) ∧
    (∀ p fd, (p, Call.sigpipe fd) ∉ tr) ∧
    tr.length ≤ 9 ∧
    ((∃ p c pc, main fds out p (s.pc p) c pc ∧ s.Allowed capacity p c) ∨
      s.pc .child = .ended ∧ s.pc .parent = .done ∧ s.buffer = []) := by
  obtain ⟨r, w, rfl, hr0, hr1, hw1, h₀⟩ := forked_sent hf h0 h1 out
  have hsent := sent_run hr0 hr1 hw1 hlen h₀ h
  refine ⟨hsent.clean.whole, hsent.clean.alive, ?_, ?_⟩
  · have hchild := hsent.has .child
    have hparent := hsent.has .parent
    have hcalls : (s.pc .child).calls ≤ 5 ∧ (s.pc .parent).calls ≤ 4 := by
      constructor
      · cases s.pc .child <;> decide
      · cases hpp : s.pc .parent with
        | ended =>
          rw [hpp] at hparent
          exact hparent.elim
        | _ => decide
    rw [hsent.length]
    omega
  · by_cases hend : s.pc .child = .ended ∧ s.pc .parent = .done
    · right
      exact ⟨hend.1, hend.2, by simp [hsent.buffer, hend.2]⟩
    · left
      exact hsent.next_call hout hcap hend

/-- The parent waits for a child that prints `12`. -/
theorem text_arrives_two : ∃ s₀ tr s,
    forked (P := Role) [some 0, some 1, some 2, none, none, none] start =
      some (((3 : ℤ), (4 : ℤ)), s₀) ∧
    Run (main (3, 4) [49, 50]) 65536 s₀ tr s ∧ s.pc .parent = .waitpid ∧
    ∃ p c pc, main (3, 4) [49, 50] p (s.pc p) c pc ∧ s.Allowed 65536 p c := by
  have hf : forked (P := Role) [some 0, some 1, some 2, none, none, none] start =
      some (((3 : ℤ), (4 : ℤ)), ⟨start, fun _ => [some (.other 0), some (.other 1),
        some (.other 2), some .read, some .write, none], []⟩) := rfl
  have dup : main (F := ℕ) (3, 4) [49, 50] .parent .dupStdin (.dup 0) .dup2Stdin := ⟨rfl, rfl⟩
  have dup2 : main (F := ℕ) (3, 4) [49, 50] .parent .dup2Stdin (.dup2 3 0) .waitpid := ⟨rfl, rfl⟩
  have hrun : Run (main (F := ℕ) (3, 4) [49, 50]) 65536 ⟨start, fun _ => [some (.other 0),
    some (.other 1), some (.other 2), some .read, some .write, none], []⟩ _ _ := .nil
  have hrun := hrun.snoc dup trivial
  have hrun := hrun.snoc dup2 trivial
  rcases (text_arrives hf rfl rfl (by decide) (by decide) (by decide) hrun).2.2.2 with hnext | hend
  · exact ⟨_, _, _, hf, hrun, rfl, hnext⟩
  · cases hend.1

end Pipes.Measure
