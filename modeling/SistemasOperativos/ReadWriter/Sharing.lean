import SistemasOperativos.ReadWriter.Exclusion

/-!
# Readers do not wait for readers

While somebody reads, the readers have `empty` together. Whoever finds `turn` and `mutex` free
comes to its reading section without the others.
-/
namespace ReadWriter

open Threads Threads.Program

variable {readers writers : ℕ} {s s' s₀ : State readers writers} {tr : List (Label readers writers)}
variable {r q : Fin readers} {l : ReaderPc} {σ : Sem → ℕ} {c : Int}

/-- The reader `r` came to `l` by its own steps. -/
structure Alone (s₀ : State readers writers) (r : Fin readers) (n : ℕ) (l : ReaderPc) (σ : Sem → ℕ)
    (c : Int) (tr : List (Label readers writers)) (s : State readers writers) : Prop where
  run : (readWriter readers writers).Run Any s₀ tr s
  length : tr.length = n
  own : ∀ a ∈ tr, ∃ l ok, a = .exec (.reader r) l ok
  loc : s.loc (.reader r) = l
  sem : s.sem = σ
  count : s.glob = ⟨c⟩
  others : ∀ t, t ≠ .reader r → s.loc t = s₀.loc t
  alive : Alive s

theorem Alone.step {n : ℕ} (h : Alone s₀ r n l σ c tr s)
    (he : (reader l : Instr readers writers ReaderPc).Enabled σ) {l' : ReaderPc} {σ' : Sem → ℕ}
    {c' : Int} (hl : (reader l : Instr readers writers ReaderPc).dest l ⟨c⟩ true = l')
    (hσ : (reader l : Instr readers writers ReaderPc).sems σ = σ')
    (hc : (reader l : Instr readers writers ReaderPc).glob ⟨c⟩ = ⟨c'⟩) :
    ∃ tr' s', Alone s₀ r (n + 1) l' σ' c' tr' s' := by
  have hop : (readWriter readers writers).op s (.reader r) = reader l := congrArg reader h.loc
  have hstep : (readWriter readers writers).Step s (.exec (.reader r) (s.loc (.reader r)) true)
      ((readWriter readers writers).effect s (.reader r) true) := by
    apply h.alive.exec
    rw [hop, h.sem]
    exact he
  refine ⟨_, _, h.run.snoc hstep trivial, ?_, ?_, ?_, ?_, ?_, ?_, alive_exec h.alive⟩
  · simp [h.length]
  · intro a ha
    rcases List.mem_append.mp ha with ha | ha
    · exact h.own a ha
    · exact ⟨_, _, List.mem_singleton.mp ha⟩
  · rw [effect_loc_self, hop, h.loc, h.count]
    exact hl
  · rw [effect_sem, hop, h.sem]
    exact hσ
  · rw [effect_glob, hop, h.count]
    exact hc
  · intro t ht
    rw [effect_loc_of_ne ht]
    exact h.others t ht

/-- In every reachable state in which somebody reads and both locks are free, a reader at its
first statement comes to its reading section in seven steps of its own, and all who were reading
still are. -/
theorem readers_share (h : (readWriter readers writers).Reachable (init readers writers) s)
    (hq : (s.loc (.reader q)).reading = true) (hr : s.loc (.reader r) = .waitTurn)
    (hturn : 0 < s.sem .turn) (hmutex : 0 < s.sem .mutex) :
    ∃ tr s', (readWriter readers writers).Run Any s tr s' ∧ tr.length = 7 ∧
      (∀ a ∈ tr, ∃ l ok, a = .exec (.reader r) l ok) ∧ s'.loc (.reader r) = .read ∧
      ∀ t, t ≠ .reader r → s'.loc t = s.loc t := by
  have hi := inv_reachable h
  obtain ⟨c, hc⟩ : ∃ c, s.glob = ⟨c⟩ := ⟨s.glob.noReaders, rfl⟩
  have hpos : 1 ≤ c := by
    have hcounted : counted s q = true := by
      unfold counted
      cases hl : s.loc (.reader q) <;> rw [hl] at hq <;> first | rfl | cases hq
    have hcensus := census_pos hcounted
    have hcount := hi.count
    rw [hc] at hcount
    dsimp only at hcount
    omega
  have h0 : Alone s r 0 .waitTurn s.sem c [] s :=
    ⟨.nil, rfl, nofun, hr, rfl, hc, fun _ _ => rfl, hi.alive⟩
  obtain ⟨_, _, h1⟩ := h0.step hturn rfl rfl rfl
  obtain ⟨_, _, h2⟩ := h1.step trivial rfl rfl rfl
  obtain ⟨_, _, h3⟩ := h2.step hmutex rfl rfl rfl
  obtain ⟨_, _, h4⟩ := h3.step trivial rfl rfl rfl
  obtain ⟨_, _, h5⟩ := h4.step trivial rfl rfl rfl
  obtain ⟨_, _, h6⟩ := h5.step trivial (if_neg (by dsimp only; omega)) rfl rfl
  obtain ⟨tr, s', h7⟩ := h6.step trivial rfl rfl rfl
  exact ⟨tr, s', h7.run, h7.length, h7.own, h7.loc, h7.others⟩

/-- The second of three readers. -/
theorem readers_share_two : ∃ (tr : List (Label 3 1)) (s : State 3 1),
    (readWriter 3 1).Run Any (init 3 1) tr s ∧ s.loc (.reader 0) = .read ∧
    s.loc (.reader 1) = .read := by
  have hrun : ∃ tr s, (readWriter 3 1).Run Any (init 3 1) tr s ∧ s.loc (.reader 0) = .read ∧
      s.loc (.reader 1) = .waitTurn ∧ 0 < s.sem .turn ∧ 0 < s.sem .mutex := by
    refine run_of_check (burst (.reader 0) 8) ?_
    decide +kernel
  obtain ⟨tr, s, h, h0, h1, hturn, hmutex⟩ := hrun
  have hreads : (s.loc (.reader 0)).reading = true := by
    rw [h0]
    rfl
  obtain ⟨tr', s', h', -, -, hl, hothers⟩ :=
    readers_share h.reachable hreads h1 hturn hmutex
  have hstays : s'.loc (.reader 0) = .read := (hothers (.reader 0) (by decide)).trans h0
  exact ⟨tr ++ tr', s', h.append h', hstays, hl⟩

end ReadWriter
