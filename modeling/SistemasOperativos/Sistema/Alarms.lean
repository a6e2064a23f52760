import SistemasOperativos.Sistema.Locks
import SistemasOperativos.Sistema.Schedules

/-!
# The cell of the alarms

The simulator writes a code into `*alarma` at any time. The handler reads the cell again
for every comparison, clears it after the branch, and reads it once more.
-/
namespace Sistema

open Threads Threads.Program

variable {s s' : State} {a : Label} {tr : List Label} {inp : Input} {ok : Bool}
variable {d : Option Alarm} {v v' : Int} {l : ManualPc} {g : Shared}

/-- One of the four codes. -/
def Known (v : Int) : Prop := ∃ c : Alarm, v = c.code

instance (v : Int) : Decidable (Known v) :=
  decidable_of_iff (v = 101 ∨ v = 102 ∨ v = 103 ∨ v = 104)
    ⟨fun h => by
      obtain rfl | rfl | rfl | rfl := h
      exacts [⟨.c101, rfl⟩, ⟨.c102, rfl⟩, ⟨.c103, rfl⟩, ⟨.c104, rfl⟩],
    fun ⟨c, hc⟩ => by cases c <;> simp_all [Alarm.code]⟩

/-- The simulator writes known codes only. -/
def Coded : Label → Prop
  | .env (.alarma v) => Known v
  | _ => True

instance : (a : Label) → Decidable (Coded a)
  | .env (.alarma v) => inferInstanceAs (Decidable (Known v))
  | .env (.gyro _ _) | .exec .. | .die .. | .cont _ | .int _ => isTrue trivial

/-- The code whose branch is running. -/
def ManualPc.running : ManualPc → Option Alarm
  | .manage a _ | .cancelGyro a _ | .create a _ | .alarm a _ => some a
  | _ => none

/-- The code dispatched last in the current pass of the handler. -/
def dispatch (d : Option Alarm) : Label → Option Alarm
  | .exec .sigHandlerManual .head _ => none
  | .exec .sigHandlerManual l _ => l.running.or d
  | _ => d

def dispatched (tr : List Label) : Option Alarm := tr.foldl dispatch none

/-- Where the handler loses no code `v` that is written over `v₀`: the comparisons still
to come find it, or it is the one being handled. -/
def ManualPc.accepts (v₀ v : Int) : ManualPc → Bool
  | .testCode a => a.code ≤ v
  | .manage _ _ | .cancelGyro _ _ | .create _ _ | .alarm _ _ | .sleep | .kill | .reset => v = v₀
  | .reread => false
  | _ => true

/-- No code is written where the handler would lose it. -/
def Timely (s : State) : Label → Prop
  | .env (.alarma v) => (s.loc .sigHandlerManual).accepts s.glob.alarma v = true
  | _ => True

instance (s : State) : (a : Label) → Decidable (Timely s a)
  | .env (.alarma v) =>
    inferInstanceAs (Decidable ((s.loc .sigHandlerManual).accepts s.glob.alarma v = true))
  | .env (.gyro _ _) | .exec .. | .die .. | .cont _ | .int _ => isTrue trivial

/-- What the cell holds while the handler is at a location, `d` being dispatched last. -/
def ManualPc.Cell (d : Option Alarm) (v : Int) : ManualPc → Prop
  | .testCode a => ∃ c : Alarm, v = c.code ∧ a.code ≤ c.code
  | .manage a _ | .cancelGyro a _ | .create a _ | .alarm a _ => v = a.code
  | .sleep | .kill | .reset => ∃ c, d = some c ∧ v = c.code
  | .reread => v = 0
  | _ => v = 0 ∨ Known v

theorem ManualPc.Cell.write (h : l.Cell d v) (hv : Known v') (ha : l.accepts v v' = true) :
    l.Cell d v' := by
  cases l with
  | testCode a =>
    obtain ⟨c, rfl⟩ := hv
    exact ⟨c, rfl, by simpa [accepts] using ha⟩
  | manage | cancelGyro | create | alarm | sleep | kill | reset =>
    have hvv : v' = v := by simpa [accepts] using ha
    exact hvv ▸ h
  | reread => cases ha
  | _ => exact .inr hv

/-- The branch of a matching code, or the next comparison. -/
theorem cell_testCode {b : Alarm} (h : (ManualPc.testCode b).Cell d g.alarma) :
    ((sigHandlerManual (.testCode b)).dest (.testCode b) g ok).Cell d g.alarma := by
  obtain ⟨c, hv, hle⟩ := h
  simp only [sigHandlerManual, Op.dest]
  by_cases hb : g.alarma = b.code
  · rw [if_pos hb]
    cases b <;> exact hb
  · rw [if_neg hb]
    rw [hv] at hb ⊢
    cases b with
    | c104 => cases c <;> simp [Alarm.code] at hb hle
    | _ => exact ⟨c, rfl, by cases c <;> simp_all [Alarm.code]⟩

theorem cell_dest (hl : g.lastAlamra = 0) (h : l.Cell d g.alarma) :
    ((sigHandlerManual l).dest l g ok).Cell (dispatch d (.exec .sigHandlerManual l ok))
      ((sigHandlerManual l).glob g).alarma := by
  cases l with
  | head | finished =>
    simp only [sigHandlerManual, Op.dest]
    first | (split <;> exact h) | exact h
  | test =>
    simp only [sigHandlerManual, Op.dest]
    by_cases hne : g.lastAlamra ≠ g.alarma
    · rw [if_pos hne]
      obtain h0 | ⟨c, hc⟩ := h
      · exact absurd (hl.trans h0.symm) hne
      · exact ⟨c, hc, by cases c <;> decide⟩
    · rw [if_neg hne]
      exact h
  | testCode b => exact cell_testCode h
  | manage b p =>
    cases p with
    | on => cases b <;> exact h
    | _ => exact h
  | cancelGyro b i => obtain rfl | rfl := gyro_cases i <;> exact h
  | create b p =>
    cases p with
    | storeThread i t => obtain rfl | rfl := gyro_cases i <;> exact h
    | _ => exact h
  | alarm b p =>
    have hk : (if b = .c104 then ManualPc.sleep else .reset).Cell (some b) g.alarma := by
      split <;> exact ⟨b, rfl, h⟩
    have hpc : ∀ q, (ManualPc.alarm b q).Cell (some b) g.alarma := fun _ => h
    have hd : ((sigHandlerManual (.alarm b p)).dest (.alarm b p) g ok).Cell (some b) g.alarma :=
      sendMesg_dest (A := fun l : ManualPc => l.Cell (some b) g.alarma) hpc hk p
    cases p <;> exact hd
  | send p =>
    have hpc : ∀ q, (ManualPc.send q).Cell d g.alarma := fun _ => h
    have hk : ManualPc.waitMsg.Cell d g.alarma := h
    have hd : ((sigHandlerManual (.send p)).dest (.send p) g ok).Cell d g.alarma :=
      sendMesg_dest (A := fun l : ManualPc => l.Cell d g.alarma) hpc hk p
    cases p <;> exact hd
  | reset => rfl
  | reread => exact .inl h
  | _ => exact h

theorem manual_last (hl : g.lastAlamra = 0) (h : l.Cell d g.alarma) :
    ((sigHandlerManual l).glob g).lastAlamra = 0 := by
  have hw := code_writes .sigHandlerManual l g
  generalize hg : (sigHandlerManual l).glob g = g'
  have hg' : (code .sigHandlerManual l).glob g = g' := hg
  rw [hg'] at hw
  cases hw with
  | reread => exact h
  | _ => exact hl

/-- Only the handler clears the cell and notes what it has seen. -/
theorem alarm_other {t : Tid} (ht : t ≠ .sigHandlerManual) (l : Loc t) (g : Shared) :
    ((code t l).glob g).alarma = g.alarma ∧ ((code t l).glob g).lastAlamra = g.lastAlamra := by
  have hw := code_writes t l g
  generalize (code t l).glob g = g' at hw
  cases hw with
  | resetAlarm | reread => exact absurd rfl ht
  | descend =>
    unfold descend
    split <;> exact ⟨rfl, rfl⟩
  | _ => exact ⟨rfl, rfl⟩

theorem dispatch_other {t : Tid} (ht : t ≠ .sigHandlerManual) (l : Loc t) :
    dispatch d (.exec t l ok) = d := by
  cases t with
  | sigHandlerManual => exact absurd rfl ht
  | _ => rfl

/-- The cell holds what the handler's location says, and nothing is marked as seen. -/
def Heeded (d : Option Alarm) (l : ManualPc) (g : Shared) : Prop :=
  g.lastAlamra = 0 ∧ l.Cell d g.alarma

/-- A sleep that a signal ends leaves the handler in its branch. -/
theorem cell_woken (hi : (sigHandlerManual l).interruptible = true) (h : l.Cell d v) :
    ((sigHandlerManual l).dest l g ok).Cell d v := by
  cases l with
  | sleep => exact h
  | alarm b p | send p =>
    cases p with
    | sleep => exact h
    | _ => cases hi
  | manage b p | create b p => cases p <;> cases hi
  | _ => cases hi

theorem heeded_step (hs : sistema.Step s a s') (hc : Coded a) (ht : Timely s a)
    (h : Heeded d (s.loc .sigHandlerManual) s.glob) :
    Heeded (dispatch d a) (s'.loc .sigHandlerManual) s'.glob := by
  obtain ⟨hlast, hcell⟩ := h
  cases hs with
  | @exec t ok _ _ _ =>
    rw [effect_glob]
    by_cases htm : t = .sigHandlerManual
    · subst htm
      rw [effect_loc_self]
      exact ⟨manual_last hlast hcell, cell_dest hlast hcell⟩
    · have hother := alarm_other htm (s.loc t) s.glob
      rw [effect_loc_of_ne (Ne.symm htm), dispatch_other htm]
      exact ⟨hother.2.trans hlast, hother.1 ▸ hcell⟩
  | die =>
    rw [die_loc]
    exact ⟨hlast, hcell⟩
  | @cont t _ _ =>
    refine ⟨hlast, ?_⟩
    by_cases htm : t = .sigHandlerManual
    · subst htm
      rw [wake_loc_self]
      split
      · exact cell_woken ‹_› hcell
      · exact hcell
    · rw [wake_loc_of_ne (Ne.symm htm)]
      exact hcell
  | @int t l _ _ hl =>
    cases t with
    | main =>
      rw [handle_loc_of_ne (by nofun)]
      exact ⟨hlast, hcell⟩
    | _ => cases hl
  | env e =>
    cases e with
    | gyro i v => exact ⟨hlast, hcell⟩
    | alarma v => exact ⟨hlast, hcell.write hc ht⟩

theorem heeded_run (hi : inp.alarma = 0 ∨ Known inp.alarma)
    (h : sistema.Run (fun s a => Coded a ∧ Timely s a) (init inp) tr s) :
    Heeded (dispatched tr) (s.loc .sigHandlerManual) s.glob := by
  have h₀ : Heeded none ((init inp).loc .sigHandlerManual) (init inp).glob := ⟨rfl, hi⟩
  exact h.invariant_ghost (I := fun d s => Heeded d (s.loc .sigHandlerManual) s.glob) h₀
    fun _ _ _ _ hh hs hc => heeded_step hs hc.1 hc.2 hh

/-- When no code comes at a bad moment, the handler clears the code that it has just
dispatched, and no code is taken as seen. -/
theorem alarm_heeded (hi : inp.alarma = 0 ∨ Known inp.alarma)
    (h : sistema.Run (fun s a => Coded a ∧ Timely s a) (init inp) tr s) :
    (∀ ok s', sistema.Step s (.exec .sigHandlerManual .reset ok) s' →
      ∃ c, dispatched tr = some c ∧ s.glob.alarma = c.code) ∧
    (s.glob.alarma ≠ 0 → s.glob.lastAlamra ≠ s.glob.alarma) := by
  obtain ⟨hlast, hcell⟩ := heeded_run hi h
  refine ⟨fun ok s' hs => ?_, fun hne he => hne (he.symm.trans hlast)⟩
  rw [hs.exec_inv.1] at hcell
  exact hcell

/-- Alarm 102 handled alone. -/
theorem alarm_heeded_once : ∃ tr s s',
    sistema.Run (fun s a => Coded a ∧ Timely s a) (init ⟨10, 100, fun _ => 0, 0⟩) tr s ∧
    sistema.Step s (.exec .sigHandlerManual .reset true) s' ∧
    (∃ c, dispatched tr = some c ∧ s.glob.alarma = c.code) ∧
    s.glob.alarma = 102 ∧ s.glob.lastAlamra ≠ s.glob.alarma := by
  have hrun : ∃ tr s,
      sistema.Run (fun s a => Coded a ∧ Timely s a) (init ⟨10, 100, fun _ => 0, 0⟩) tr s ∧
      (s.Running .sigHandlerManual ∧ s.loc .sigHandlerManual = .reset) ∧ s.glob.alarma = 102 := by
    refine run_of_check (boot ++ [.env (.alarma 102)] ++ burst .sigHandlerManual 17) ?_
    decide +kernel
  obtain ⟨tr, s, h, ⟨hr, hl⟩, ha⟩ := hrun
  have hs := step_at hr hl rfl trivial
  obtain ⟨hcleared, hseen⟩ := alarm_heeded (.inl rfl) h
  exact ⟨tr, s, _, h, hs, hcleared _ _ hs, ha, hseen (by rw [ha]; decide)⟩

/-- The simulator raises 101 while the handler reports 102: the handler clears 101. -/
theorem alarm_lost : ∃ inp tr s s', sistema.Run (fun _ a => Coded a) (init inp) tr s ∧
    sistema.Step s (.exec .sigHandlerManual .reset true) s' ∧ dispatched tr = some .c102 ∧
    s.glob.alarma = 101 ∧ s'.glob.alarma = 0 := by
  have hrun : ∃ tr s, sistema.Run (fun _ a => Coded a) (init ⟨10, 100, fun _ => 0, 0⟩) tr s ∧
      (s.Running .sigHandlerManual ∧ s.loc .sigHandlerManual = .reset) ∧
      dispatched tr = some .c102 ∧ s.glob.alarma = 101 := by
    refine run_of_check (boot ++ [.env (.alarma 102)] ++ burst .sigHandlerManual 17 ++
      [.env (.alarma 101)]) ?_
    decide +kernel
  obtain ⟨tr, s, h, ⟨hr, hl⟩, hd, ha⟩ := hrun
  refine ⟨_, tr, s, _, h, step_at hr hl rfl trivial, hd, ha, ?_⟩
  have hop : sistema.op s .sigHandlerManual = sigHandlerManual .reset :=
    congrArg sigHandlerManual hl
  rw [effect_glob, hop]
  rfl

end Sistema
