import SistemasOperativos.Pipes.Code

/-!
# Ends that nobody closes

In `my_pipe.c` both processes keep both ends, for `close` comes only after an `execv` that
failed. The reader is a writer too, and so its input has no end.
-/
namespace Pipes.MyPipe

open Descriptors Descriptors.Table Text

variable {F : Type} {t : Table F} {fds : ℤ × ℤ} {capacity : ℕ} {r w : ℕ} {p : Role} {pc pc' : Pc}
variable {tr : List (Role × Call F)} {s₀ s : State Role F Pc} {c : Call F} {u : Table (End F)}

/-- Up to here no end was closed. -/
def Pc.holds : Pc → Bool
  | .closeStd | .dup | .execv | .program => true
  | .closeRead | .closeWrite | .exit | .ended => false

/-- The ends in the table of a process. The child has the write end only where it had it from
the parent. -/
structure Ends (r w : ℕ) (p : Role) (pc : Pc) (u : Table (End F)) : Prop where
  read : pc.holds = true → u.file r = some .read
  write : pc.holds = true → u.file w = some .write
  only : p = .child → Only w u

theorem ends_step (hrw : r ≠ w) (hr : ∀ p, (r : ℤ) ≠ std p) (hw : ∀ p, (w : ℤ) ≠ std p)
    (h : Ends r w p pc u) (hc : main ((r : ℤ), (w : ℤ)) p pc c pc') : Ends r w p pc' (c.table u) := by
  cases pc with
  | closeStd =>
    obtain ⟨rfl, rfl⟩ := hc
    have hlr : (Call.close (F := F) (std p)).Leaves r := (hr p).symm
    have hlw : (Call.close (F := F) (std p)).Leaves w := (hw p).symm
    constructor
    · intro _
      exact Call.table_keeps hlr (h.read rfl)
    · intro _
      exact Call.table_keeps hlw (h.write rfl)
    · intro hp
      exact only_close (h.only hp) _
  | dup =>
    obtain ⟨rfl, rfl⟩ := hc
    constructor
    · intro _
      exact dup_keeps (h.read rfl) _
    · intro _
      exact dup_keeps (h.write rfl) _
    · intro hp
      have hl : (Call.dup (F := F) (used ((r : ℤ), (w : ℤ)) p)).Leaves w := by
        subst hp
        simpa [Call.Leaves, used] using hrw
      exact Call.only_table (h.only hp) hl
  | execv =>
    rcases hc with ⟨rfl, rfl⟩ | ⟨rfl, rfl⟩
    · exact ⟨fun _ => h.read rfl, fun _ => h.write rfl, h.only⟩
    · exact ⟨nofun, nofun, h.only⟩
  | program =>
    rcases hc with ⟨hlr, hlw, rfl⟩ | ⟨rfl, rfl⟩ | ⟨fd, rfl, rfl⟩
    · constructor
      · intro hpc
        exact Call.table_keeps hlr (h.read hpc)
      · intro hpc
        exact Call.table_keeps hlw (h.write hpc)
      · intro hp
        exact Call.only_table (h.only hp) hlw
    · exact ⟨nofun, nofun, fun _ => only_nil⟩
    · exact ⟨nofun, nofun, fun _ => only_nil⟩
  | closeRead | closeWrite =>
    obtain ⟨rfl, rfl⟩ := hc
    exact ⟨nofun, nofun, fun hp => only_close (h.only hp) _⟩
  | exit =>
    obtain ⟨rfl, rfl⟩ := hc
    exact ⟨nofun, nofun, fun _ => only_nil⟩
  | ended => exact hc.elim

theorem ends_run (capacity : ℕ) (hf : forked t (fun _ => .closeStd) = some (fds, s₀))
    (h0 : (t.file 0).isSome = true) (h1 : (t.file 1).isSome = true) : ∃ r w : ℕ, fds = ((r : ℤ), (w : ℤ)) ∧
    ∀ tr s, Run (main fds) capacity s₀ tr s → ∀ p, Ends r w p (s.pc p) (s.table p) := by
  obtain ⟨r, w, rfl, hrw, hrnone, hwnone, hpc, -, htable⟩ := forked_spec hf
  have hstd : ∀ i : ℕ, t.file i = none → ∀ p, (i : ℤ) ≠ std p := by
    intro i hi p hip
    rw [hip] at hi
    cases p with
    | child =>
      have hnone : t.file 0 = none := hi
      simp [hnone] at h0
    | parent =>
      have hnone : t.file 1 = none := hi
      simp [hnone] at h1
  refine ⟨r, w, rfl, fun tr s h => h.alone (I := Ends r w) ?_ ?_⟩
  · intro p
    obtain ⟨-, hr, hw, honly⟩ := htable p
    exact ⟨fun _ => hr, fun _ => hw, fun _ => honly⟩
  · intro p pc c pc' u hi hc
    exact ends_step hrw (hstd r hrnone) (hstd w hwnone) hi hc

/-- A call that is told of the pipe is one of an executed program. -/
theorem main_program (hc : main fds p pc c pc')
    (h : (∃ fd count bytes, c = .read fd count bytes) ∨ ∃ fd, c = .sigpipe fd) : pc = .program := by
  cases pc with
  | program => rfl
  | execv => rcases hc with ⟨rfl, -⟩ | ⟨rfl, -⟩ <;> simp at h
  | closeStd | dup | closeRead | closeWrite | exit =>
    obtain ⟨rfl, -⟩ := hc
    simp at h
  | ended => exact hc.elim

/-- `p` can have `bytes` from a `read` of the pipe. -/
def Gets (fds : ℤ × ℤ) (capacity : ℕ) (s : State Role F Pc) (p : Role) (bytes : List Byte) : Prop :=
  ∃ fd count pc, main (F := F) fds p (s.pc p) (.read fd count bytes) pc ∧
    s.Allowed capacity p (.read fd count bytes) ∧ (s.table p).file fd = some .read ∧ 0 < count

/-- `p` can be ended by a `write` to the pipe. -/
def Breaks (fds : ℤ × ℤ) (capacity : ℕ) (s : State Role F Pc) (p : Role) : Prop :=
  ∃ fd pc, main (F := F) fds p (s.pc p) (.sigpipe fd) pc ∧ s.Allowed capacity p (.sigpipe fd)

theorem gets_ne_nil {bytes : List Byte} (h : Ends r w p (s.pc p) (s.table p))
    (hg : Gets fds capacity s p bytes) : bytes ≠ [] ∧ s.buffer ≠ [] := by
  obtain ⟨fd, count, pc, hc, ha, hfd, hcount⟩ := hg
  have hpc := main_program hc (.inl ⟨fd, count, bytes, rfl⟩)
  have hopen : s.Open .write := State.open_of_file (h.write (by simp [hpc, Pc.holds]))
  refine ⟨ha.ne_nil hcount hfd hopen, ?_⟩
  rcases (ha hfd).2 with hne | hclosed
  · exact hne
  · exact (hclosed hopen).elim

theorem not_breaks (h : Ends r w p (s.pc p) (s.table p)) : ¬ Breaks fds capacity s p := by
  intro hb
  obtain ⟨fd, pc, hc, ha⟩ := hb
  have hpc := main_program hc (.inr ⟨fd, rfl⟩)
  exact ha.2 (State.open_of_file (h.read (by simp [hpc, Pc.holds])))

/-- The child writes nothing to the pipe. -/
theorem child_buffer (h : Ends r w .child (s.pc .child) (s.table .child)) (hb : s.buffer = [])
    (hc : main ((r : ℤ), (w : ℤ)) .child (s.pc .child) c pc) :
    c.buffer (s.table .child) s.buffer = [] := by
  rw [hb]
  cases hpc : s.pc .child with
  | program =>
    rw [hpc] at hc
    rcases hc with ⟨-, hlw, -⟩ | ⟨rfl, -⟩ | ⟨fd, rfl, -⟩
    · exact Call.buffer_nil (h.only rfl) hlw
    · rfl
    · rfl
  | execv =>
    rw [hpc] at hc
    rcases hc with ⟨rfl, -⟩ | ⟨rfl, -⟩ <;> rfl
  | closeStd | dup | closeRead | closeWrite | exit =>
    rw [hpc] at hc
    obtain ⟨rfl, -⟩ := hc
    rfl
  | ended =>
    rw [hpc] at hc
    exact hc.elim

/-- After the parent nobody writes. -/
theorem parent_ended {s' : State Role F Pc} (hpc : s.pc .parent = .ended) (hb : s.buffer = [])
    (hi : ∀ tr s', Run (main ((r : ℤ), (w : ℤ))) capacity s tr s' →
      ∀ p, Ends r w p (s'.pc p) (s'.table p))
    (h : Run (main ((r : ℤ), (w : ℤ))) capacity s tr s') :
    s'.pc .parent = .ended ∧ s'.buffer = [] := by
  induction h with
  | nil => exact ⟨hpc, hb⟩
  | @snoc tr s' p c pc h hc ha ih =>
    cases p with
    | parent =>
      rw [ih.1] at hc
      exact hc.elim
    | child =>
      refine ⟨?_, child_buffer (hi tr s' h .child) ih.2 hc⟩
      simpa [State.after] using ih.1

/-- Whatever the two programs do with their own descriptors, no `read` of the pipe comes to the
end of the input and no `write` finds the pipe without a reader. Once the parent has ended and
the pipe is empty, the child waits for ever. -/
theorem input_without_end (hf : forked t (fun _ => .closeStd) = some (fds, s₀))
    (h0 : (t.file 0).isSome = true) (h1 : (t.file 1).isSome = true)
    (h : Run (main fds) capacity s₀ tr s) :
    (∀ p bytes, Gets fds capacity s p bytes → bytes ≠ []) ∧
    (∀ p, ¬ Breaks fds capacity s p) ∧
    (s.pc .parent = .ended → s.buffer = [] → ∀ tr' s', Run (main fds) capacity s tr' s' →
      ∀ p bytes, ¬ Gets fds capacity s' p bytes) := by
  obtain ⟨r, w, rfl, hends⟩ := ends_run capacity hf h0 h1
  refine ⟨fun p bytes hg => (gets_ne_nil (hends tr s h p) hg).1, ?_, ?_⟩
  · intro p
    exact not_breaks (hends tr s h p)
  · intro hpc hb tr' s' h' p bytes hg
    have hlater : ∀ tr' s', Run (main ((r : ℤ), (w : ℤ))) capacity s tr' s' →
        ∀ p, Ends r w p (s'.pc p) (s'.table p) := by
      intro tr' s' h'
      exact hends (tr ++ tr') s' (h.trans h')
    exact (gets_ne_nil (hlater tr' s' h' p) hg).2 (parent_ended hpc hb hlater h').2

/-- The parent writes two bytes and ends, the child reads them and waits. -/
theorem input_without_end_two : ∃ s₀ tr s,
    forked (P := Role) [some 0, some 1, some 2, none, none] (fun _ => Pc.closeStd) =
      some (((3 : ℤ), (4 : ℤ)), s₀) ∧
    Run (main (3, 4)) 512 s₀ tr s ∧
    (Role.child, Call.read 0 1024 [104, 105]) ∈ tr ∧
    ∀ tr' s', Run (main (3, 4)) 512 s tr' s' → ∀ p bytes, ¬ Gets (3, 4) 512 s' p bytes := by
  have hf : forked (P := Role) [some 0, some 1, some 2, none, none] (fun _ => Pc.closeStd) =
      some (((3 : ℤ), (4 : ℤ)), ⟨fun _ => .closeStd, fun _ => [some (.other 0), some (.other 1),
        some (.other 2), some .read, some .write], []⟩) := rfl
  have h : ∃ tr s, Run (main (3, 4)) 512 ⟨fun _ => .closeStd, fun _ => [some (.other 0),
      some (.other 1), some (.other 2), some .read, some .write], []⟩ tr s ∧
      s.pc .parent = .ended ∧ s.buffer = [] ∧
      (Role.child, Call.read 0 1024 [104, 105]) ∈ tr := by
    have close0 : main (F := ℕ) (3, 4) .child .closeStd (.close 0) .dup := ⟨rfl, rfl⟩
    have dup3 : main (F := ℕ) (3, 4) .child .dup (.dup 3) .execv := ⟨rfl, rfl⟩
    have execv (p : Role) : main (F := ℕ) (3, 4) p .execv (.execv true) .program := .inl ⟨rfl, rfl⟩
    have close1 : main (F := ℕ) (3, 4) .parent .closeStd (.close 1) .dup := ⟨rfl, rfl⟩
    have dup4 : main (F := ℕ) (3, 4) .parent .dup (.dup 4) .execv := ⟨rfl, rfl⟩
    have write : main (F := ℕ) (3, 4) .parent .program (.write 1 [104, 105]) .program :=
      .inl ⟨by decide, by decide, rfl⟩
    have exit : main (F := ℕ) (3, 4) .parent .program .exit .ended := .inr (.inl ⟨rfl, rfl⟩)
    have read : main (F := ℕ) (3, 4) .child .program (.read 0 1024 [104, 105]) .program :=
      .inl ⟨by decide, by decide, rfl⟩
    have hrun : Run (main (F := ℕ) (3, 4)) 512 ⟨fun _ => .closeStd, fun _ => [some (.other 0),
      some (.other 1), some (.other 2), some .read, some .write], []⟩ _ _ := .nil
    have hrun := hrun.snoc close0 trivial
    have hrun := hrun.snoc dup3 trivial
    have hrun := hrun.snoc (execv .child) trivial
    have hrun := hrun.snoc close1 trivial
    have hrun := hrun.snoc dup4 trivial
    have hrun := hrun.snoc (execv .parent) trivial
    have hrun := hrun.snoc write fun _ => ⟨⟨.child, by decide⟩, by decide⟩
    have hrun := hrun.snoc exit trivial
    have hrun := hrun.snoc read fun _ => ⟨by decide, .inl (by decide)⟩
    exact ⟨_, _, hrun, rfl, rfl, by decide⟩
  obtain ⟨tr, s, h, hpc, hb, hread⟩ := h
  exact ⟨_, tr, s, hf, h, hread, (input_without_end hf rfl rfl h).2.2 hpc hb⟩

end Pipes.MyPipe
