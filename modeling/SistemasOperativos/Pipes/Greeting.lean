import SistemasOperativos.Pipes.Code

/-!
# One message through a pipe

In `pipe_unix.c` each process closes the end that is not its own before it uses the other one.
The child still has the read end when the parent writes, for it closes that only after it has
read.
-/
namespace Pipes.PipeUnix

open Descriptors Descriptors.Table Text

variable {F : Type} {t : Table F} {fds : ℤ × ℤ} {capacity : ℕ} {r w : ℕ} {p : Role} {pc pc' : Pc}
variable {tr : List (Role × Call F)} {s₀ s : State Role F Pc} {c : Call F} {u : Table (End F)}

/-! ## The tables -/

/-- The one end that is left after `closeUnused`. -/
def own (t : Table F) (r w : ℕ) : Role → Table (End F)
  | .child => (files t).put r (some .read)
  | .parent => (files t).put w (some .write)

/-- The table of a process at each of its locations. -/
def Held (t : Table F) (r w : ℕ) (p : Role) (u : Table (End F)) : Pc → Prop
  | .closeUnused => u = ((files t).put r (some .read)).put w (some .write)
  | .transfer | .closeUsed => u = own t r w p
  | .ret => u = files t
  | .ended => True

/-- The two slots of the pipe. -/
structure Slots (t : Table F) (r w : ℕ) : Prop where
  ne : r ≠ w
  read : (files t).file r = none
  write : (files t).file w = none
  readLt : r < (files t).length
  writeLt : w < (files t).length

theorem Slots.close_unused (h : Slots t r w) (p : Role) :
    (((files t).put r (some .read)).put w (some .write)).close (unused ((r : ℤ), (w : ℤ)) p) =
      own t r w p := by
  cases p with
  | child =>
    have hw : ((files t).put r (some .read)).file w = none := (file_put_of_ne h.ne _).trans h.write
    exact (close_nat _ w).trans (put_put_none hw _)
  | parent =>
    have hcomm : ((files t).put r (some .read)).put w (some .write) =
        ((files t).put w (some .write)).put r (some .read) := List.set_comm _ _ h.ne
    have hr : ((files t).put w (some .write)).file r = none :=
      (file_put_of_ne h.ne.symm _).trans h.read
    rw [hcomm]
    exact (close_nat _ r).trans (put_put_none hr _)

theorem Slots.close_used (h : Slots t r w) (p : Role) :
    (own t r w p).close (used ((r : ℤ), (w : ℤ)) p) = files t := by
  cases p with
  | child => exact (close_nat _ r).trans (put_put_none h.read _)
  | parent => exact (close_nat _ w).trans (put_put_none h.write _)

theorem held_step (hs : Slots t r w) (h : Held t r w p u pc)
    (hc : main ((r : ℤ), (w : ℤ)) p pc c pc') : Held t r w p (c.table u) pc' := by
  cases pc with
  | closeUnused =>
    obtain ⟨rfl, rfl⟩ := hc
    have hu : u = ((files t).put r (some .read)).put w (some .write) := h
    subst hu
    exact hs.close_unused p
  | transfer =>
    cases p with
    | child =>
      obtain ⟨readMsg, rfl, rfl⟩ := hc
      exact h
    | parent =>
      rcases hc with ⟨rfl, rfl⟩ | ⟨rfl, rfl⟩
      · exact h
      · trivial
  | closeUsed =>
    obtain ⟨rfl, rfl⟩ := hc
    have hu : u = own t r w p := h
    subst hu
    exact hs.close_used p
  | ret =>
    obtain ⟨rfl, rfl⟩ := hc
    trivial
  | ended => exact hc.elim

/-! ## The message -/

/-- The transfer is behind the process. -/
def Pc.passed : Pc → Bool
  | .closeUnused | .transfer => false
  | .closeUsed | .ret | .ended => true

/-- How many calls it made. -/
def Pc.calls : Pc → ℕ
  | .closeUnused => 0
  | .transfer => 1
  | .closeUsed => 2
  | .ret => 3
  | .ended => 4

/-- What went through the pipe up to some state. -/
structure Sent (t : Table F) (r w : ℕ) (tr : List (Role × Call F)) (s : State Role F Pc) : Prop where
  held : ∀ p, Held t r w p (s.table p) (s.pc p)
  order : (s.pc .child).passed = true → (s.pc .parent).passed = true
  buffer : s.buffer =
    if (s.pc .parent).passed = true ∧ (s.pc .child).passed = false then writeMsg else []
  length : tr.length = (s.pc .parent).calls + (s.pc .child).calls
  got : (s.pc .child).passed = true → (Role.child, Call.read r bufferSize writeMsg) ∈ tr
  clean : Clean writeMsg tr

/-- The end that a process uses. -/
def side : Role → End F
  | .child => .read
  | .parent => .write

/-- It is open up to the transfer. -/
theorem held_side (hs : Slots t r w) (h : Held t r w p u pc) (hp : pc.passed = false) :
    u.file (used ((r : ℤ), (w : ℤ)) p) = some (side p) := by
  cases pc with
  | closeUnused =>
    have hu : u = ((files t).put r (some .read)).put w (some .write) := h
    subst hu
    cases p with
    | child => exact (file_put_of_ne hs.ne.symm _).trans (file_put_self hs.readLt _)
    | parent => exact file_put_self (by rw [length_put]; exact hs.writeLt) _
  | transfer =>
    have hu : u = own t r w p := h
    subst hu
    cases p with
    | child => exact file_put_self hs.readLt _
    | parent => exact file_put_self hs.writeLt _
  | closeUsed | ret | ended => cases hp

theorem Sent.open_side (hs : Slots t r w) (h : Sent t r w tr s) (hp : (s.pc p).passed = false) :
    s.Open (side p) :=
  State.open_of_file (held_side hs (h.held p) hp)

theorem Sent.child_waits (h : Sent t r w tr s) (hp : (s.pc .parent).passed = false) :
    (s.pc .child).passed = false := by
  by_contra hne
  have horder := h.order (by simpa using hne)
  rw [hp] at horder
  cases horder

/-! ## One call -/

/-- What a call has to keep of the message. -/
theorem Sent.next (hs : Slots t r w) (h : Sent t r w tr s)
    (hc : main ((r : ℤ), (w : ℤ)) p (s.pc p) c pc) (hcalls : pc.calls = (s.pc p).calls + 1)
    (horder : ((s.after p c pc).pc .child).passed = true →
      ((s.after p c pc).pc .parent).passed = true)
    (hbuffer : (s.after p c pc).buffer = if ((s.after p c pc).pc .parent).passed = true ∧
      ((s.after p c pc).pc .child).passed = false then writeMsg else [])
    (hgot : ((s.after p c pc).pc .child).passed = true →
      (Role.child, Call.read (F := F) r bufferSize writeMsg) ∈ tr ++ [(p, c)])
    (hclean : Clean writeMsg (tr ++ [(p, c)])) : Sent t r w (tr ++ [(p, c)]) (s.after p c pc) := by
  constructor
  · intro q
    by_cases hqp : q = p
    · subst q
      simpa [State.after] using held_step hs (h.held p) hc
    · simpa [State.after, Function.update_of_ne hqp] using h.held q
  · exact horder
  · exact hbuffer
  · have hlen := h.length
    rw [List.length_append, List.length_singleton]
    cases p <;> simp [State.after] <;> omega
  · exact hgot
  · exact hclean

/-- A call that has nothing to do with the message. -/
theorem Sent.quiet (hs : Slots t r w) (h : Sent t r w tr s)
    (hc : main ((r : ℤ), (w : ℤ)) p (s.pc p) c pc) (hcalls : pc.calls = (s.pc p).calls + 1)
    (hpassed : pc.passed = (s.pc p).passed) (hq : (∃ fd, c = .close fd) ∨ c = .exit) :
    Sent t r w (tr ++ [(p, c)]) (s.after p c pc) := by
  have hpc : ∀ q, ((s.after p c pc).pc q).passed = (s.pc q).passed := by
    intro q
    by_cases hqp : q = p
    · subst q
      simpa [State.after] using hpassed
    · simp [State.after, Function.update_of_ne hqp]
  have hbuffer : (s.after p c pc).buffer = s.buffer := by
    rcases hq with ⟨fd, rfl⟩ | rfl <;> rfl
  apply h.next hs hc hcalls
  · rw [hpc, hpc]
    exact h.order
  · rw [hpc, hpc, hbuffer]
    exact h.buffer
  · intro hp
    rw [hpc] at hp
    exact List.mem_append_left _ (h.got hp)
  · apply h.clean.quiet
    rcases hq with ⟨fd, rfl⟩ | rfl <;> rfl

/-- The parent writes while the child has the read end. -/
theorem Sent.write (hs : Slots t r w) (h : Sent t r w tr s) (hpc : s.pc .parent = .transfer) :
    Sent t r w (tr ++ [(.parent, .write w writeMsg)]) (s.after .parent (.write w writeMsg) .closeUsed) := by
  have hp : (s.pc .parent).passed = false := congrArg Pc.passed hpc
  have hchild := h.child_waits hp
  have hfile : (s.table .parent).file w = some .write := held_side hs (h.held .parent) hp
  have hempty : s.buffer = [] := by simp [h.buffer, hp]
  apply h.next hs
  · rw [hpc]
    exact Or.inl ⟨rfl, rfl⟩
  · rw [hpc]
    rfl
  · intro _
    rfl
  · have hpassed : Pc.closeUsed.passed = true := rfl
    simp [State.after, Call.buffer, hfile, hempty, hchild, hpassed]
  · intro hpassed
    exact (Bool.false_ne_true (hchild.symm.trans hpassed)).elim
  · exact h.clean.quiet rfl

/-- The child has to wait for the whole message. -/
theorem Sent.read (hs : Slots t r w) (h : Sent t r w tr s) (hpc : s.pc .child = .transfer)
    {readMsg : List Byte} (ha : s.Allowed capacity .child (.read r bufferSize readMsg)) :
    readMsg = writeMsg ∧ Sent t r w (tr ++ [(.child, .read r bufferSize readMsg)])
      (s.after .child (.read r bufferSize readMsg) .closeUsed) := by
  have hc : (s.pc .child).passed = false := congrArg Pc.passed hpc
  have hfile : (s.table .child).file r = some .read := held_side hs (h.held .child) hc
  obtain ⟨hread, hnot⟩ := ha hfile
  have hp : (s.pc .parent).passed = true := by
    by_contra hp
    have hp : (s.pc .parent).passed = false := by simpa using hp
    have hempty : s.buffer = [] := by simp [h.buffer, hp]
    rcases hnot with hne | hclosed
    · exact hne hempty
    · exact hclosed (h.open_side hs hp)
  have hbuffer : s.buffer = writeMsg := by simp [h.buffer, hp, hc]
  have hmsg : readMsg = writeMsg := by
    rw [hread, hbuffer]
    rfl
  subst hmsg
  refine ⟨rfl, ?_⟩
  apply h.next hs
  · rw [hpc]
    exact ⟨_, rfl, rfl⟩
  · rw [hpc]
    rfl
  · intro _
    simpa [State.after] using hp
  · simp [State.after, Call.buffer, hfile, hbuffer, Pc.passed]
  · intro _
    exact List.mem_append_right _ List.mem_cons_self
  · exact h.clean.read

theorem sent_step (hs : Slots t r w) (h : Sent t r w tr s)
    (hc : main ((r : ℤ), (w : ℤ)) p (s.pc p) c pc) (ha : s.Allowed capacity p c) :
    Sent t r w (tr ++ [(p, c)]) (s.after p c pc) := by
  have hmain := hc
  cases hpc : s.pc p with
  | closeUnused | closeUsed =>
    rw [hpc] at hc
    obtain ⟨rfl, rfl⟩ := hc
    exact h.quiet hs hmain (by rw [hpc]; rfl) (by rw [hpc]; rfl) (Or.inl ⟨_, rfl⟩)
  | ret =>
    rw [hpc] at hc
    obtain ⟨rfl, rfl⟩ := hc
    exact h.quiet hs hmain (by rw [hpc]; rfl) (by rw [hpc]; rfl) (Or.inr rfl)
  | transfer =>
    rw [hpc] at hc
    cases p with
    | child =>
      obtain ⟨readMsg, rfl, rfl⟩ := hc
      exact (h.read hs hpc ha).2
    | parent =>
      rcases hc with ⟨rfl, rfl⟩ | ⟨rfl, rfl⟩
      · exact h.write hs hpc
      · have hchild := h.child_waits (congrArg Pc.passed hpc)
        exact (ha.2 (h.open_side hs hchild)).elim
  | ended =>
    rw [hpc] at hc
    exact hc.elim

theorem sent_run (hs : Slots t r w) (h₀ : Sent t r w [] s₀)
    (h : Run (main ((r : ℤ), (w : ℤ))) capacity s₀ tr s) : Sent t r w tr s := by
  induction h with
  | nil => exact h₀
  | snoc _ hc ha ih => exact sent_step hs ih hc ha

/-! ## The whole run -/

/-- Somebody can make the next call, up to the end of both. -/
theorem Sent.next_call (hs : Slots t r w) (h : Sent t r w tr s) (hcap : writeMsg.length ≤ capacity)
    (hne : s.pc p ≠ .ended) :
    ∃ q c pc, main ((r : ℤ), (w : ℤ)) q (s.pc q) c pc ∧ s.Allowed capacity q c := by
  have hplain : ∀ q, s.pc q ≠ .transfer → s.pc q ≠ .ended →
      ∃ c pc, main ((r : ℤ), (w : ℤ)) q (s.pc q) c pc ∧ s.Allowed capacity q c := by
    intro q ht he
    cases hpc : s.pc q with
    | closeUnused | closeUsed => exact ⟨.close _, _, ⟨rfl, rfl⟩, trivial⟩
    | ret => exact ⟨.exit, _, ⟨rfl, rfl⟩, trivial⟩
    | transfer => exact (ht hpc).elim
    | ended => exact (he hpc).elim
  by_cases ht : s.pc .parent = .transfer
  · have hp : (s.pc .parent).passed = false := congrArg Pc.passed ht
    have hempty : s.buffer = [] := by simp [h.buffer, hp]
    refine ⟨.parent, .write w writeMsg, .closeUsed, ?_, fun _ => ⟨?_, ?_⟩⟩
    · rw [ht]
      exact Or.inl ⟨rfl, rfl⟩
    · exact h.open_side hs (h.child_waits hp)
    · simpa [hempty] using hcap
  by_cases hend : s.pc .parent = .ended
  · by_cases hc : s.pc .child = .transfer
    · have hbuffer : s.buffer = writeMsg := by simp [h.buffer, hend, hc, Pc.passed]
      refine ⟨.child, .read r bufferSize writeMsg, .closeUsed, ?_, fun _ => ⟨?_, ?_⟩⟩
      · rw [hc]
        exact ⟨_, rfl, rfl⟩
      · rw [hbuffer]
        rfl
      · rw [hbuffer]
        exact Or.inl (by decide)
    · have hchild : s.pc .child ≠ .ended := by
        intro hchild
        cases p with
        | child => exact hne hchild
        | parent => exact hne hend
      exact ⟨.child, hplain .child hc hchild⟩
  · exact ⟨.parent, hplain .parent ht hend⟩

theorem forked_sent (hf : forked t (fun _ => .closeUnused) = some (fds, s₀)) :
    ∃ r w : ℕ, fds = ((r : ℤ), (w : ℤ)) ∧ Slots t r w ∧ Sent t r w [] s₀ := by
  obtain ⟨r, w, hfds, hne, hr, hw, hpc, hbuffer, htable⟩ := forked_spec hf
  have hlt : ∀ i : ℕ, ∀ e : End F, (s₀.table .child).file i = some e → i < (files t).length := by
    intro i e he
    have hlt := lt_of_file he
    rwa [(htable .child).1, length_put, length_put] at hlt
  have hstart : ∀ p, s₀.pc p = .closeUnused := fun p => congrFun hpc p
  refine ⟨r, w, hfds, ⟨hne, ?_, ?_, ?_, ?_⟩, ?_⟩
  · simp [file_files, hr]
  · simp [file_files, hw]
  · exact hlt r _ (htable .child).2.1
  · exact hlt w _ (htable .child).2.2.1
  · constructor
    · intro p
      rw [hstart]
      exact (htable p).1
    · simp [hstart]
    · simp [hstart, Pc.passed, hbuffer]
    · simp [hstart, Pc.calls]
    · simp [hstart, Pc.passed]
    · exact clean_nil writeMsg

/-- In whatever order the two processes make their calls: the child reads the whole message, the
parent is not ended by its `write`, somebody can always go on, and when both are at their `return`
everything is closed that the pipe has opened. -/
theorem message_arrives (hf : forked t (fun _ => .closeUnused) = some (fds, s₀))
    (hcap : writeMsg.length ≤ capacity) (h : Run (main fds) capacity s₀ tr s) :
    (∀ p fd count bytes, (p, Call.read fd count bytes) ∈ tr → bytes = writeMsg) ∧
    (∀ p fd, (p, Call.sigpipe fd) ∉ tr) ∧
    (∀ p, s.pc p = .ret → s.table p = files t) ∧
    tr.length ≤ 8 ∧
    ((∃ p c pc, main fds p (s.pc p) c pc ∧ s.Allowed capacity p c) ∨
      (∀ p, s.pc p = .ended) ∧ s.buffer = [] ∧
        ∃ fd count, (Role.child, Call.read fd count writeMsg) ∈ tr) := by
  obtain ⟨r, w, rfl, hs, h₀⟩ := forked_sent hf
  have hsent := sent_run hs h₀ h
  refine ⟨hsent.clean.whole, hsent.clean.alive, ?_, ?_, ?_⟩
  · intro p hpc
    have hheld := hsent.held p
    rwa [hpc] at hheld
  · have hcalls : ∀ pc : Pc, pc.calls ≤ 4 := by
      intro pc
      cases pc <;> decide
    have hparent := hcalls (s.pc .parent)
    have hchild := hcalls (s.pc .child)
    have hlen := hsent.length
    omega
  · by_cases hend : ∀ p, s.pc p = .ended
    · right
      refine ⟨hend, ?_, r, bufferSize, hsent.got ?_⟩
      · simp [hsent.buffer, hend, Pc.passed]
      · rw [hend]
        rfl
    · left
      obtain ⟨p, hp⟩ := not_forall.mp hend
      exact hsent.next_call hs hcap hp

/-- The child waits in its `read` until the parent writes. -/
theorem message_arrives_late : ∃ s₀ tr s,
    forked (P := Role) [some 0, some 1, some 2, none, none] (fun _ => Pc.closeUnused) =
      some (((3 : ℤ), (4 : ℤ)), s₀) ∧
    Run (main (3, 4)) 512 s₀ tr s ∧ tr.length = 2 ∧ s.pc .child = .transfer ∧
    ∃ p c pc, main (3, 4) p (s.pc p) c pc ∧ s.Allowed 512 p c := by
  have hf : forked (P := Role) [some 0, some 1, some 2, none, none] (fun _ => Pc.closeUnused) =
      some (((3 : ℤ), (4 : ℤ)), ⟨fun _ => .closeUnused, fun _ => [some (.other 0), some (.other 1),
        some (.other 2), some .read, some .write], []⟩) := rfl
  have child : main (F := ℕ) (3, 4) .child .closeUnused (.close 4) .transfer := ⟨rfl, rfl⟩
  have parent : main (F := ℕ) (3, 4) .parent .closeUnused (.close 3) .transfer := ⟨rfl, rfl⟩
  have hrun : Run (main (F := ℕ) (3, 4)) 512 ⟨fun _ => .closeUnused, fun _ => [some (.other 0),
    some (.other 1), some (.other 2), some .read, some .write], []⟩ _ _ := .nil
  have hrun := hrun.snoc child trivial
  have hrun := hrun.snoc parent trivial
  rcases (message_arrives hf (by decide) hrun).2.2.2.2 with hnext | ⟨hend, -⟩
  · exact ⟨_, _, _, hf, hrun, rfl, rfl, hnext⟩
  · cases hend .child

end Pipes.PipeUnix
