import SistemasOperativos.Sistema.Corrections

/-!
# Handles of the correction threads

The handle of a new correction thread takes the place of the one before it, which only
a cancelled thread can spare.
-/
namespace Sistema

open Threads Threads.Program

variable {s s' : State} {a : Label} {t u : Tid} {i : Gyro} {n : ℕ} {tr : List Label}
variable {inp : Input} {ok : Bool} {l : Loc t}

/-- The location inside `create_signals_gyros`, also under the handler of `main`. -/
def creating : (t : Tid) → Loc t → Option CreatePc
  | .main, l => inGyros .main l.base
  | t, l => inGyros t l

/-- The thread is the one whose handle is stored for the gyroscope, or its creator is about
to store it. -/
def Reached (s : State) (i : Gyro) (u : Tid) : Prop :=
  s.glob.arrayThreads (threadOf i) = some u ∨
    ∃ t, creating t (s.loc t) = some (.storeThread i u)

/-- The gyroscope whose handle is overwritten. -/
def replaces : Label → Option Gyro
  | .exec t l _ =>
    match inGyros t l with
    | some (.storeThread i _) => some i
    | _ => none
  | _ => none

/-- A handle is overwritten only when its thread has been cancelled. -/
def ReplacesCancelled (s : State) (a : Label) : Prop :=
  ∀ i ∈ replaces a, ∀ u ∈ s.glob.arrayThreads (threadOf i), s.cancelled u = true

instance (s : State) (a : Label) : Decidable (ReplacesCancelled s a) :=
  inferInstanceAs (Decidable (∀ i ∈ replaces a, ∀ u ∈ s.glob.arrayThreads (threadOf i), _))

theorem creating_of_inGyros {p : CreatePc} (h : inGyros t l = some p) : creating t l = some p := by
  cases t with
  | main =>
    cases l with
    | createGyros => exact h
    | _ => cases h
  | _ => exact h

theorem threadOf_inj {i j : Gyro} (h : threadOf i = threadOf j) : i = j :=
  Fin.ext (congrArg (fun k : ThreadIdx => k.val) h)

/-- A store puts its thread into the cell of its gyroscope; all else leaves the cell. -/
theorem arrayThreads_glob (l : Loc t) (g : Shared) (i : Gyro) :
    ((code t l).glob g).arrayThreads (threadOf i) = g.arrayThreads (threadOf i) ∨
      ∃ u, inGyros t l = some (.storeThread i u) ∧
        ((code t l).glob g).arrayThreads (threadOf i) = some u := by
  have hw := code_writes t l g
  generalize (code t l).glob g = g' at hw
  have h2 := threadOf_ne_two i
  have h3 := threadOf_ne_three i
  cases hw with
  | @storeGyro _ _ _ j u hl =>
    by_cases hij : i = j
    · subst hij
      exact .inr ⟨u, hl, by simp [storeThread, put]⟩
    · have hne : threadOf i ≠ threadOf j := fun he => hij (threadOf_inj he)
      exact .inl (by simp [storeThread, put, hne])
  | descend =>
    left
    unfold descend
    split <;> rfl
  | _ => exact .inl (by first | rfl | simp [storeThread, put, h2, h3])

/-- Where the store is executed the new handle is in the cell. -/
theorem storeThread_glob {u : Tid} (h : inGyros t l = some (.storeThread i u)) (g : Shared) :
    ((code t l).glob g).arrayThreads (threadOf i) = some u := by
  cases t with
  | main =>
    cases l with
    | createGyros p =>
      cases h
      simp [code, main, createSignalsGyros, Op.glob, storeThread, put]
    | _ => cases h
  | goUp30m =>
    cases l with
    | create p =>
      cases h
      simp [code, goUp30m, createSignalsGyros, Op.glob, storeThread, put]
    | _ => cases h
  | sigHandlerManual =>
    cases l with
    | create a p =>
      cases h
      simp [code, sigHandlerManual, createSignalsGyros, Op.glob, storeThread, put]
    | _ => cases h
  | _ => cases h

theorem createThread_dest (h : inGyros t l = some (.createThread i)) (g : Shared) :
    inGyros t ((code t l).dest l g ok) =
      some (.storeThread i (.gyroscopeThread i (g.corrections i))) := by
  cases t with
  | main =>
    cases l with
    | createGyros p =>
      cases h
      rfl
    | _ => cases h
  | goUp30m =>
    cases l with
    | create p =>
      cases h
      rfl
    | _ => cases h
  | sigHandlerManual =>
    cases l with
    | create a p =>
      cases h
      rfl
    | _ => cases h
  | _ => cases h

/-- A creation is at its store, or interrupted by the handler. -/
theorem creating_dest {p : CreatePc} (h : creating t l = some p) (g : Shared) (ok : Bool) :
    inGyros t l = some p ∨ creating t ((code t l).dest l g ok) = some p := by
  cases t with
  | main =>
    cases l with
    | createGyros q => exact .inl h
    | handler saved q =>
      right
      cases q with
      | exit => exact h
      | _ =>
        simp only [code, main, terminteProgram, Op.dest]
        split <;> exact h
    | _ => cases h
  | _ => exact .inl h

theorem creating_awake {p : CreatePc} (h : creating t l = some p) :
    (code t l).interruptible = false := by
  cases t with
  | main => exact main_not_interruptible l
  | _ => exact inGyros_awake h

theorem creating_int {l' : Loc t} (h : onInt t l = some l') : creating t l' = creating t l := by
  cases t with
  | main => cases l <;> cases h <;> rfl
  | _ => cases h

theorem reached_exec (hc : ReplacesCancelled s (.exec t (s.loc t) ok)) (hn : s.cancelled u = false)
    (h : Reached s i u) : Reached (sistema.effect s t ok) i u := by
  obtain hst | ⟨v, hv⟩ := h
  · obtain he | ⟨w, hl, -⟩ := arrayThreads_glob (s.loc t) s.glob i
    · exact .inl (he.trans hst)
    · have hcan := hc i (by simp [replaces, hl]) u hst
      cases hn.symm.trans hcan
  · by_cases hvt : v = t
    · subst hvt
      obtain hl | hd := creating_dest hv s.glob ok
      · exact .inl (storeThread_glob hl s.glob)
      · exact .inr ⟨v, by rwa [effect_loc_self]⟩
    · exact .inr ⟨v, by rwa [effect_loc_of_ne hvt]⟩

theorem reached_step (hs : sistema.Step s a s') (hc : ReplacesCancelled s a)
    (hn : s.cancelled u = false) (h : Reached s i u) : Reached s' i u := by
  cases hs with
  | exec => exact reached_exec hc hn h
  | die =>
    refine h.imp id fun ⟨v, hv⟩ => ⟨v, ?_⟩
    rwa [die_loc]
  | @cont t _ _ =>
    refine h.imp id fun ⟨v, hv⟩ => ⟨v, ?_⟩
    by_cases hvt : v = t
    · subst hvt
      have hnot : (sistema.op s v).interruptible = false := creating_awake hv
      rwa [wake_loc_self, hnot]
    · rwa [wake_loc_of_ne hvt]
  | @int t l _ _ hl =>
    refine h.imp id fun ⟨v, hv⟩ => ⟨v, ?_⟩
    by_cases hvt : v = t
    · subst hvt
      rw [handle_loc_self]
      exact (creating_int hl).trans hv
    · rwa [handle_loc_of_ne hvt]
  | env e =>
    refine h.imp (fun hst => ?_) id
    cases e <;> exact hst

/-- Every correction thread that was created and not cancelled can be reached. -/
def AllReached (s : State) : Prop := ∀ i n, s.life (.gyroscopeThread i n) ≠ .unborn →
  s.cancelled (.gyroscopeThread i n) = false → Reached s i (.gyroscopeThread i n)

theorem allReached_step (hs : sistema.Step s a s') (hc : ReplacesCancelled s a)
    (h : AllReached s) : AllReached s' := by
  intro i n hb hn
  have hn₀ : s.cancelled (.gyroscopeThread i n) = false := by
    by_contra hcan
    cases (step_cancelled_mono hs (Bool.eq_true_of_not_eq_false hcan)).symm.trans hn
  by_cases hu : s.life (.gyroscopeThread i n) = .unborn
  · obtain ⟨t, ok, rfl, hcr⟩ := newly_born hs hu hb
    obtain ⟨hl, rfl⟩ := creates_correction hcr
    obtain ⟨-, -, -, -, rfl⟩ := hs.exec_inv
    refine .inr ⟨t, creating_of_inGyros ?_⟩
    rw [effect_loc_self]
    exact createThread_dest hl s.glob
  · exact reached_step hs hc hn₀ (h i n hu hn₀)

/-- If only cancelled threads lose their handle, every other one created for a gyroscope
is the one that is stored, or about to be. -/
theorem live_correction_stored (h : sistema.Run ReplacesCancelled (init inp) tr s) (i : Gyro)
    (n : ℕ) (hb : s.life (.gyroscopeThread i n) ≠ .unborn)
    (hn : s.cancelled (.gyroscopeThread i n) = false) : Reached s i (.gyroscopeThread i n) := by
  have hall : AllReached s := by
    refine h.invariant (fun i n hb => absurd rfl hb) ?_
    exact fun _ _ _ hi hs hc => allReached_step hs hc hi
  exact hall i n hb hn

/-- Alarm 103 cancels the first correction thread and stores the second. -/
theorem live_correction_stored_once : ∃ tr s,
    sistema.Run ReplacesCancelled (init ⟨10, 100, fun _ => 1, 0⟩) tr s ∧
    s.cancelled (.gyroscopeThread 0 0) = true ∧ s.life (.gyroscopeThread 0 1) = .running ∧
    Reached s 0 (.gyroscopeThread 0 1) := by
  have hrun : ∃ tr s, sistema.Run ReplacesCancelled (init ⟨10, 100, fun _ => 1, 0⟩) tr s ∧
      s.cancelled (.gyroscopeThread 0 0) = true ∧ s.life (.gyroscopeThread 0 1) = .running ∧
      s.cancelled (.gyroscopeThread 0 1) = false := by
    refine run_of_check (boot ++ alarmed 103 12) ?_
    decide +kernel
  obtain ⟨tr, s, h, hc, hr, hn⟩ := hrun
  exact ⟨tr, s, h, hc, hr, live_correction_stored h 0 1 (by rw [hr]; nofun) hn⟩

/-- A climb cancels the correction threads, alarm 103 creates them again, and the end of the
climb once more, over handles of threads that still run. -/
theorem live_correction_lost : ∃ inp s n m, sistema.Reachable (init inp) s ∧ n ≠ m ∧
    (∀ k ∈ [n, m], s.Running (.gyroscopeThread 0 k) ∧ s.cancelled (.gyroscopeThread 0 k) = false) ∧
    ¬ Reached s 0 (.gyroscopeThread 0 n) := by
  have hrun : ∃ tr s, sistema.Run Any (init ⟨4, 100, fun _ => 1, 0⟩) tr s ∧
      (∀ k ∈ [1, 2], s.Running (.gyroscopeThread 0 k) ∧
        s.cancelled (.gyroscopeThread 0 k) = false) ∧
      s.glob.arrayThreads (threadOf 0) = some (.gyroscopeThread 0 2) ∧
      s.loc .main = .head ∧ s.loc .goUp30m = .change .lock ∧ s.loc .sigHandlerManual = .alarm .c103 .lock := by
    refine run_of_check (boot ++ burst .goUp30m 1 ++ burst .signalRestartLanding 19 ++
      [.cont .goUp30m] ++ alarmed 103 16 ++ burst .goUp30m 44) ?_
    decide +kernel
  obtain ⟨tr, s, h, hlive, hst, hmain, hup, hman⟩ := hrun
  refine ⟨_, s, 1, 2, h.reachable, by decide, hlive, ?_⟩
  rintro (hst' | ⟨t, ht⟩)
  · cases hst.symm.trans hst'
  · cases t with
    | main =>
      rw [hmain] at ht
      cases ht
    | goUp30m =>
      rw [hup] at ht
      cases ht
    | sigHandlerManual =>
      rw [hman] at ht
      cases ht
    | _ => cases ht

end Sistema
