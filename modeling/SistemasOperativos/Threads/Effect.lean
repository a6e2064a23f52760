import SistemasOperativos.Threads.Run

set_option linter.unusedSectionVars false

/-! What one step leaves of each part of the state. -/
namespace Threads

variable {S G M E T : Type} {L : T → Type} [DecidableEq S] [DecidableEq T]

namespace Op
variable {K : Type} {o : Op S G M T K} {x : S}

/-- The operation neither takes, posts nor overwrites `x`. -/
def Quiet (x : S) : Op S G M T K → Prop
  | wait y _ | post y _ | copy y _ _ => y ≠ x
  | _ => True

/-- The operation concerns its own thread alone, which goes on: it creates, cancels and
signals nobody, overwrites no semaphore and does not return or exit. -/
def Plain : Op S G M T K → Prop
  | copy .. | create .. | cancel .. | kill .. | exit | ret => False
  | _ => True

theorem Plain.creates (h : o.Plain) (g : G) : o.creates g = none := by
  cases o <;> first | rfl | exact h.elim

theorem Plain.cancels (h : o.Plain) (g : G) : o.cancels g = none := by
  cases o <;> first | rfl | exact h.elim

theorem Plain.signals (h : o.Plain) (sig : Signal) (g : G) : o.signals sig g = none := by
  cases o <;> first | rfl | exact h.elim

theorem Plain.isRet (h : o.Plain) : o.isRet = false := by
  cases o <;> first | rfl | exact h.elim

theorem Plain.isExit (h : o.Plain) : o.isExit = false := by
  cases o <;> first | rfl | exact h.elim

theorem sems_quiet (h : o.Quiet x) (σ : S → ℕ) : o.sems σ x = σ x := by
  cases o <;> simp_all [Quiet, sems, eq_comm]

theorem mem_held_quiet {lock : S → Bool} (h : o.Quiet x) (hs : List S) :
    x ∈ o.held lock hs ↔ x ∈ hs := by
  cases o with
  | wait y k =>
    have hy : x ≠ y := fun he => h he.symm
    simp only [held]
    split <;> simp [hy]
  | post y k => exact List.mem_erase_of_ne (fun he => h he.symm)
  | _ => exact Iff.rfl

/-- A sleeping call changes nothing but its thread's location. -/
theorem interruptible_held {lock : S → Bool} (h : o.interruptible = true) (hs : List S) :
    o.held lock hs = hs := by
  cases o <;> simp_all [interruptible, held]

theorem interruptible_glob (h : o.interruptible = true) (g : G) : o.glob g = g := by
  cases o <;> simp_all [interruptible, glob]

theorem interruptible_sent (h : o.interruptible = true) (ok : Bool) : o.sent ok = none := by
  cases o <;> simp_all [interruptible, sent]

end Op

/-- A signal has reached the thread and is not delivered yet. -/
def Thread.pending {K : Type} (x : Thread S K) : Signal → Bool
  | .cont => x.cont
  | .int => x.int

namespace Program
variable {P : Program S G M E T L} {s s' : State S G T L} {t u : T} {ok : Bool}
variable {a : Label E T L}

@[simp] theorem effect_sem : (P.effect s t ok).sem = (P.op s t).sems s.sem := rfl
@[simp] theorem effect_glob : (P.effect s t ok).glob = (P.op s t).glob s.glob := rfl

@[simp] theorem effect_loc_self :
    (P.effect s t ok).loc t = (P.op s t).dest (s.loc t) s.glob ok := by
  simp [effect, mark, State.loc, advance]

theorem effect_loc_of_ne (h : u ≠ t) : (P.effect s t ok).loc u = s.loc u := by
  simp [effect, mark, State.loc, h]

@[simp] theorem effect_held_self :
    (P.effect s t ok).held t = (P.op s t).held P.lock (s.held t) := by
  simp [effect, mark, State.held, advance]

theorem effect_held_of_ne (h : u ≠ t) : (P.effect s t ok).held u = s.held u := by
  simp [effect, mark, State.held, h]

theorem effect_cancelled (u : T) : (P.effect s t ok).cancelled u =
    (s.cancelled u || decide ((P.op s t).cancels s.glob = some u)) := by
  by_cases h : u = t
  · subst h
    simp [effect, mark, State.cancelled, advance]
  · simp [effect, mark, State.cancelled, h]

theorem effect_life_of_ne (h : u ≠ t) : (P.effect s t ok).life u =
    if (P.op s t).creates s.glob = some u then .running else s.life u := by
  simp [effect, mark, State.life, h]

theorem effect_life_self : (P.effect s t ok).life t =
    if (P.op s t).creates s.glob = some t then .running
    else if (P.op s t).isRet then .finished else s.life t := by
  simp [effect, mark, State.life, advance]

/-- A thread that is over after an operation was over before, or returned. -/
theorem effect_finished (hu : (P.effect s t ok).life u = .finished) : s.life u = .finished ∧ u ≠ t ∨
    u = t ∧ ((P.op s t).isRet = true ∨ s.life t = .finished) := by
  by_cases h : u = t
  · subst h
    rw [effect_life_self] at hu
    split at hu
    · cases hu
    · split at hu
      · exact .inr ⟨rfl, .inl ‹_›⟩
      · exact .inr ⟨rfl, .inr hu⟩
  · rw [effect_life_of_ne h] at hu
    split at hu
    · cases hu
    · exact .inl ⟨hu, h⟩

theorem effect_unborn (hr : s.Running t) (hu : (P.effect s t ok).life u = .unborn) :
    s.life u = .unborn ∧ u ≠ t := by
  by_cases h : u = t
  · subst h
    rw [effect_life_self, hr.2] at hu
    split at hu
    · cases hu
    · split at hu <;> cases hu
  · rw [effect_life_of_ne h] at hu
    split at hu
    · cases hu
    · exact ⟨hu, h⟩

/-! Death, waking and handling change one thread, and neither its locks nor its
cancellation. -/

@[simp] theorem die_glob : (die s t).glob = s.glob := rfl
@[simp] theorem wake_glob : (P.wake s t).glob = s.glob := rfl
@[simp] theorem handle_glob {l : L t} : (handle s t l).glob = s.glob := rfl
@[simp] theorem disturb_glob {e : E} : (P.disturb s e).glob = P.env e s.glob := rfl

theorem setThr_of_ne {x : Thread S (L t)} (h : u ≠ t) : (s.setThr t x).thr u = s.thr u := by
  simp [State.setThr, h]

@[simp] theorem setThr_self {x : Thread S (L t)} : (s.setThr t x).thr t = x := by
  simp [State.setThr]

theorem setThr_held {x : Thread S (L t)} (hx : x.held = s.held t) :
    (s.setThr t x).held u = s.held u := by
  by_cases h : u = t
  · subst h
    simpa [State.held] using hx
  · simp [State.held, setThr_of_ne h]

theorem setThr_cancelled {x : Thread S (L t)} (hx : x.cancelled = s.cancelled t) :
    (s.setThr t x).cancelled u = s.cancelled u := by
  by_cases h : u = t
  · subst h
    simpa [State.cancelled] using hx
  · simp [State.cancelled, setThr_of_ne h]

theorem setThr_life {x : Thread S (L t)} (hx : x.life = s.life t) :
    (s.setThr t x).life u = s.life u := by
  by_cases h : u = t
  · subst h
    simpa [State.life] using hx
  · simp [State.life, setThr_of_ne h]

@[simp] theorem die_held : (die s t).held u = s.held u := setThr_held rfl
@[simp] theorem wake_held : (P.wake s t).held u = s.held u := setThr_held rfl
@[simp] theorem handle_held {l : L t} : (handle s t l).held u = s.held u := setThr_held rfl
@[simp] theorem die_cancelled : (die s t).cancelled u = s.cancelled u := setThr_cancelled rfl
@[simp] theorem wake_cancelled : (P.wake s t).cancelled u = s.cancelled u := setThr_cancelled rfl
@[simp] theorem handle_cancelled {l : L t} : (handle s t l).cancelled u = s.cancelled u :=
  setThr_cancelled rfl
@[simp] theorem wake_life : (P.wake s t).life u = s.life u := setThr_life rfl
@[simp] theorem handle_life {l : L t} : (handle s t l).life u = s.life u := setThr_life rfl

@[simp] theorem die_life_self : (die s t).life t = .finished := by
  simp [die, State.life]

theorem die_life_of_ne (h : u ≠ t) : (die s t).life u = s.life u := by
  simp [die, State.life, setThr_of_ne h]

theorem die_unborn (hu : (die s t).life u = .unborn) : s.life u = .unborn := by
  by_cases h : u = t
  · subst h
    simp at hu
  · rwa [die_life_of_ne h] at hu

@[simp] theorem die_loc : (die s t).loc u = s.loc u := by
  by_cases h : u = t
  · subst h
    simp [die, State.loc]
  · simp [die, State.loc, setThr_of_ne h]

theorem wake_loc_self : (P.wake s t).loc t =
    if (P.op s t).interruptible then (P.op s t).dest (s.loc t) s.glob true else s.loc t := by
  simp [wake, State.loc]

theorem wake_loc_of_ne (h : u ≠ t) : (P.wake s t).loc u = s.loc u := by
  simp [wake, State.loc, setThr_of_ne h]

@[simp] theorem handle_loc_self {l : L t} : (handle s t l).loc t = l := by
  simp [handle, State.loc]

theorem handle_loc_of_ne {l : L t} (h : u ≠ t) : (handle s t l).loc u = s.loc u := by
  simp [handle, State.loc, setThr_of_ne h]

/-- Where a step can take the location of any one thread. -/
theorem step_loc (h : P.Step s a s') (u : T) : s'.loc u = s.loc u ∨
    (∃ ok, s'.loc u = (P.op s u).dest (s.loc u) s.glob ok) ∨ P.onInt u (s.loc u) = some (s'.loc u) := by
  cases h with
  | @exec t ok _ _ _ =>
    by_cases hu : u = t
    · subst hu
      exact .inr (.inl ⟨ok, effect_loc_self⟩)
    · exact .inl (effect_loc_of_ne hu)
  | die => exact .inl die_loc
  | @cont t _ _ =>
    by_cases hu : u = t
    · subst hu
      rw [wake_loc_self]
      split
      · exact .inr (.inl ⟨true, rfl⟩)
      · exact .inl rfl
    · exact .inl (wake_loc_of_ne hu)
  | @int t l _ _ hl =>
    by_cases hu : u = t
    · subst hu
      exact .inr (.inr (by simpa using hl))
    · exact .inl (handle_loc_of_ne hu)
  | env => exact .inl rfl

/-- A fact about the location of one thread and the shared memory is kept by a step that
is the thread's own, that of another thread, its waking, its handler or the environment's. -/
theorem step_slice (hs : P.Step s a s') (u : T) {I : L u → G → Prop} (h : I (s.loc u) s.glob)
    (own : ∀ ok, a = .exec u (s.loc u) ok → s.Running u → (P.op s u).Enabled s.sem →
      I ((P.op s u).dest (s.loc u) s.glob ok) ((P.op s u).glob s.glob))
    (other : ∀ t ok, t ≠ u → a = .exec t (s.loc t) ok → s.Running t →
      I (s.loc u) ((P.op s t).glob s.glob))
    (woken : a = .cont u → (P.op s u).interruptible = true →
      I ((P.op s u).dest (s.loc u) s.glob true) s.glob)
    (handled : ∀ l, a = .int u → P.onInt u (s.loc u) = some l → I l s.glob)
    (env : ∀ e, a = .env e → I (s.loc u) (P.env e s.glob)) : I (s'.loc u) s'.glob := by
  cases hs with
  | @exec t ok hr _ he =>
    rw [effect_glob]
    by_cases hu : t = u
    · subst hu
      rw [effect_loc_self]
      exact own ok rfl hr he
    · rw [effect_loc_of_ne (Ne.symm hu)]
      exact other t ok hu rfl hr
  | die =>
    rw [die_loc]
    exact h
  | @cont t _ _ =>
    rw [wake_glob]
    by_cases hu : t = u
    · subst hu
      rw [wake_loc_self]
      split
      · exact woken rfl ‹_›
      · exact h
    · rw [wake_loc_of_ne (Ne.symm hu)]
      exact h
  | @int t l _ _ hl =>
    rw [handle_glob]
    by_cases hu : t = u
    · subst hu
      rw [handle_loc_self]
      exact handled l rfl hl
    · rw [handle_loc_of_ne (Ne.symm hu)]
      exact h
  | env e => exact env e rfl

/-- A cancelled thread passes a cancellation point only when a signal wakes it there. -/
theorem step_loc_of_cancelled (h : P.Step s a s') (hc : s.cancelled u = true) :
    s'.loc u = s.loc u ∨ (∃ ok, s'.loc u = (P.op s u).dest (s.loc u) s.glob ok ∧
      ((P.op s u).cancelPoint = false ∨ (P.op s u).interruptible = true)) ∨
    P.onInt u (s.loc u) = some (s'.loc u) := by
  cases h with
  | @exec t ok _ hcc _ =>
    by_cases hu : u = t
    · subst hu
      refine .inr (.inl ⟨ok, effect_loc_self, .inl ?_⟩)
      simpa [hc] using hcc
    · exact .inl (effect_loc_of_ne hu)
  | die => exact .inl die_loc
  | @cont t _ _ =>
    by_cases hu : u = t
    · subst hu
      rw [wake_loc_self]
      split
      · rename_i hi
        exact .inr (.inl ⟨true, rfl, .inr hi⟩)
      · exact .inl rfl
    · exact .inl (wake_loc_of_ne hu)
  | @int t l _ _ hl =>
    by_cases hu : u = t
    · subst hu
      exact .inr (.inr (by simpa using hl))
    · exact .inl (handle_loc_of_ne hu)
  | env => exact .inl rfl

/-- Only `pthread_cancel` cancels. -/
theorem newly_cancelled (h : P.Step s a s') (hn : s.cancelled u = false)
    (hc : s'.cancelled u = true) : ∃ t ok, a = .exec t (s.loc t) ok ∧ s' = P.effect s t ok ∧
      (P.op s t).cancels s.glob = some u := by
  cases h with
  | @exec t ok _ _ _ =>
    rw [effect_cancelled, hn] at hc
    exact ⟨t, ok, rfl, rfl, by simpa using hc⟩
  | env => exact absurd (hn.symm.trans hc) nofun
  | _ => simp [hn] at hc

theorem step_cancelled_mono (h : P.Step s a s') (hc : s.cancelled u = true) :
    s'.cancelled u = true := by
  cases h with
  | exec => simp [effect_cancelled, hc]
  | env => exact hc
  | _ => simpa using hc

theorem effect_pending (sig : Signal) (u : T) : ((P.effect s t ok).thr u).pending sig =
    ((s.thr u).pending sig || decide ((P.op s t).signals sig s.glob = some u)) := by
  by_cases h : u = t
  · subst h
    cases sig <;> simp [effect, mark, advance, Thread.pending]
  · cases sig <;> simp [effect, mark, h, Thread.pending]

theorem effect_cont (u : T) : ((P.effect s t ok).thr u).cont =
    ((s.thr u).cont || decide ((P.op s t).signals .cont s.glob = some u)) :=
  effect_pending .cont u

theorem effect_int (u : T) : ((P.effect s t ok).thr u).int =
    ((s.thr u).int || decide ((P.op s t).signals .int s.glob = some u)) :=
  effect_pending .int u

/-- Only `pthread_kill` makes a signal pending. -/
theorem newly_pending (sig : Signal) (h : P.Step s a s') (hn : (s.thr u).pending sig = false)
    (hc : (s'.thr u).pending sig = true) : ∃ t ok, a = .exec t (s.loc t) ok ∧
      (P.op s t).signals sig s.glob = some u := by
  cases h with
  | @exec t ok _ _ _ =>
    rw [effect_pending, hn] at hc
    exact ⟨t, ok, rfl, by simpa using hc⟩
  | @die t _ _ _ | @cont t _ _ | @int t l _ _ _ =>
    by_cases hu : u = t
    · subst hu
      cases sig <;> simp_all [die, wake, handle, Thread.pending]
    · cases sig <;> simp_all [die, wake, handle, setThr_of_ne hu, Thread.pending]
  | env => exact absurd (hn.symm.trans hc) nofun

/-- Only a signal wakes a sleeping thread later on. -/
theorem newly_continued (h : P.Step s a s') (hn : (s.thr u).cont = false)
    (hc : (s'.thr u).cont = true) : ∃ t ok, a = .exec t (s.loc t) ok ∧
      (P.op s t).signals .cont s.glob = some u :=
  newly_pending .cont h hn hc

/-- A pending signal is spent by its delivery alone. -/
theorem newly_spent (h : P.Step s a s') (hc : (s.thr u).cont = true)
    (hn : (s'.thr u).cont = false) : a = .cont u := by
  cases h with
  | exec =>
    rw [effect_cont, hc] at hn
    cases hn
  | @die t _ _ _ | @int t l _ _ _ =>
    by_cases hu : u = t
    · subst hu
      simp [die, handle, hc] at hn
    · simp [die, handle, setThr_of_ne hu, hc] at hn
  | @cont t _ _ =>
    by_cases hu : u = t
    · rw [hu]
    · simp [wake, setThr_of_ne hu, hc] at hn
  | env => exact absurd (hc.symm.trans hn) nofun

/-- Only a creation makes a thread begin. -/
theorem newly_born (h : P.Step s a s') (hu : s.life u = .unborn)
    (hb : s'.life u ≠ .unborn) : ∃ t ok, a = .exec t (s.loc t) ok ∧
      (P.op s t).creates s.glob = some u := by
  cases h with
  | @exec t ok hr _ _ =>
    have hne : u ≠ t := by
      rintro rfl
      cases hu.symm.trans hr.2
    rw [effect_life_of_ne hne] at hb
    split at hb
    · exact ⟨t, ok, rfl, ‹_›⟩
    · exact absurd hu hb
  | @die t hr _ _ =>
    have hne : u ≠ t := by
      rintro rfl
      cases hu.symm.trans hr.2
    rw [die_life_of_ne hne] at hb
    exact absurd hu hb
  | cont | int =>
    simp only [wake_life, handle_life] at hb
    exact absurd hu hb
  | env => exact absurd hu hb

/-- Only a signal runs a handler later on. -/
theorem newly_interrupted (h : P.Step s a s') (hn : (s.thr u).int = false)
    (hc : (s'.thr u).int = true) : ∃ t ok, a = .exec t (s.loc t) ok ∧
      (P.op s t).signals .int s.glob = some u :=
  newly_pending .int h hn hc

/-- Only `exit` ends the program. -/
theorem newly_ended (h : P.Step s a s') (hc : s'.ended = true) :
    ∃ t ok, a = .exec t (s.loc t) ok ∧ (P.op s t).isExit = true := by
  cases h with
  | @exec t ok hr _ _ =>
    have hend : (s.ended || (P.op s t).isExit) = true := hc
    rw [hr.1, Bool.false_or] at hend
    exact ⟨t, ok, rfl, hend⟩
  | die hr _ _ | cont hr _ | int hr _ _ => cases hr.1.symm.trans hc
  | env _ hr => cases hr.symm.trans hc

end Program
end Threads
