import SistemasOperativos.Sistema.Restart

/-!
# Correction threads that are created again

A new correction thread works with a copy of its gyroscope's semaphore, taken whoever
holds it.
-/
namespace Sistema

open Threads Threads.Program

variable {s s' : State} {a : Label} {t u : Tid} {i : Gyro} {n : ℕ} {tr : List Label}
variable {inp : Input} {ok : Bool} {l : Loc t}

/-! ## Who uses the copies -/

theorem sendPc_gyro (p : SendPc) : .gyro t ∉ p.holds := by
  cases p <;> simp [SendPc.holds]

theorem changePc_gyro (p : ChangePc) : .gyro t ∉ p.holds := by
  cases p <;> simp [ChangePc.holds]

/-- The copies are locked by their own threads alone. -/
theorem holds_gyro {l : Loc u} (h : .gyro t ∈ holds u l) : u = t := by
  cases u with
  | main =>
    obtain hl | hl := main_holds l
    · rw [show holds .main l = [] from hl] at h
      cases h
    · rw [show holds .main l = [.read] from hl] at h
      simp at h
  | signalGyro i =>
    cases l with
    | send m p => exact absurd h (sendPc_gyro p)
    | _ => simp_all [holds, SignalGyroPc.holds]
  | gyroscopeThread i n => cases l <;> simp_all [holds, GyroscopePc.holds]
  | pricipalEngineThread n =>
    cases l with
    | send m p => exact absurd h (sendPc_gyro p)
    | lockGs i | unlockGs i p =>
      obtain rfl | rfl := gyro_cases i <;> simp [holds, EnginePc.holds] at h
    | _ => simp [holds, EnginePc.holds] at h
  | signalRestartLanding =>
    cases l with
    | send m p => exact absurd h (sendPc_gyro p)
    | change p =>
      refine absurd h ?_
      simp [holds, RestartPc.holds, changePc_gyro]
    | lockGs i | unlockGs i p =>
      obtain rfl | rfl := gyro_cases i <;> simp [holds, RestartPc.holds] at h
    | _ => simp [holds, RestartPc.holds] at h
  | goUp30m =>
    cases l with
    | change p => exact absurd h (changePc_gyro p)
    | _ => simp [holds, GoUpPc.holds] at h
  | signalExploteRocket =>
    cases l with
    | send m p | abort p => exact absurd h (sendPc_gyro p)
    | _ => simp [holds, ExplotePc.holds] at h
  | signalLandingCheck =>
    cases l with
    | send m p | report d p => exact absurd h (sendPc_gyro p)
    | change d p =>
      refine absurd h ?_
      simp [holds, LandingPc.holds, changePc_gyro]
    | lockGs i | unlockTouch i | unlockGs i =>
      obtain rfl | rfl := gyro_cases i <;> simp [holds, LandingPc.holds] at h
    | _ => simp [holds, LandingPc.holds] at h
  | sigHandlerManual =>
    cases l with
    | alarm a p | send p => exact absurd h (sendPc_gyro p)
    | _ => simp [holds, ManualPc.holds] at h

theorem gyro_quiet (h : u ≠ t) (l : Loc u) (g : Shared) : (code u l).Quiet (.gyro t) := by
  have hc := code_calls u l
  cases ho : code u l with
  | wait x k =>
    rintro rfl
    have hheld := code_balanced u l g true
    rw [ho] at hheld
    have hin : .gyro t ∈ holds u k := by
      rw [show holds u k = .gyro t :: holds u l from hheld]
      exact List.mem_cons_self
    exact h (holds_gyro hin)
  | post x k =>
    rintro rfl
    exact h (holds_gyro (code_posts u l _ k ho rfl))
  | copy d x k =>
    rw [ho] at hc
    rintro rfl
    cases hc with
    | plain hp => exact hp
    | copySignal | copyThread => exact h rfl
  | _ => trivial

theorem sendMesg_arg {L : Type} {m : Msg} {pc : SendPc → L} {k : L} (p : SendPc) :
    (sendMesg m pc k p).Quiet (.arg i) := by
  cases p <;> first | trivial | (intro h; cases h)

theorem changeAction_arg {L : Type} {e : Event} {pc : ChangePc → L} {k : L} (p : ChangePc) :
    (changeAction e pc k p).Quiet (.arg i) := by
  cases p <;> first | trivial | (intro h; cases h)

theorem createSignalsGyros_arg {L : Type} {all : Bool} {pc : CreatePc → L} {k : L}
    {p : CreatePc} (hp : p ≠ .copySem i) : (createSignalsGyros all pc k p).Quiet (.arg i) := by
  cases p with
  | copySem j =>
    intro h
    cases h
    exact hp rfl
  | _ => trivial

/-- The fields of `array_gyros` are touched by `create_signals_gyros` alone. -/
theorem arg_quiet (l : Loc t) (h : inGyros t l ≠ some (.copySem i)) :
    (code t l).Quiet (.arg i) := by
  cases t with
  | main =>
    cases l with
    | createGyros p => exact createSignalsGyros_arg fun hp => h (congrArg some hp)
    | handler saved p => cases p <;> first | trivial | (intro h; cases h)
    | _ => first | trivial | (intro h; cases h)
  | pricipalEngineThread n =>
    cases l with
    | send m p => exact sendMesg_arg p
    | _ => first | trivial | (intro h; cases h)
  | signalGyro j =>
    cases l with
    | send m p => exact sendMesg_arg p
    | _ => first | trivial | (intro h; cases h)
  | gyroscopeThread j n => cases l <;> first | trivial | (intro h; cases h)
  | signalRestartLanding =>
    cases l with
    | send m p => exact sendMesg_arg p
    | change p => exact changeAction_arg p
    | _ => first | trivial | (intro h; cases h)
  | goUp30m =>
    cases l with
    | create p => exact createSignalsGyros_arg fun hp => h (congrArg some hp)
    | change p => exact changeAction_arg p
    | _ => first | trivial | (intro h; cases h)
  | signalExploteRocket =>
    cases l with
    | send m p | abort p => exact sendMesg_arg p
    | _ => first | trivial | (intro h; cases h)
  | signalLandingCheck =>
    cases l with
    | send m p | report d p => exact sendMesg_arg p
    | change d p => exact changeAction_arg p
    | _ => first | trivial | (intro h; cases h)
  | sigHandlerManual =>
    cases l with
    | send p | alarm a p => exact sendMesg_arg p
    | create a p => exact createSignalsGyros_arg fun hp => h (congrArg some hp)
    | manage a p => cases p <;> trivial
    | _ => first | trivial | (intro h; cases h)

theorem copySem_sems (h : inGyros t l = some (.copySem i)) (σ : Sem → ℕ) :
    (code t l).sems σ (.arg i) = σ (.gs i) := by
  cases t with
  | main =>
    cases l with
    | createGyros p =>
      cases h
      simp [code, main, createSignalsGyros, Op.sems]
    | _ => cases h
  | goUp30m =>
    cases l with
    | create p =>
      cases h
      simp [code, goUp30m, createSignalsGyros, Op.sems]
    | _ => cases h
  | sigHandlerManual =>
    cases l with
    | create a p =>
      cases h
      simp [code, sigHandlerManual, createSignalsGyros, Op.sems]
    | _ => cases h
  | _ => cases h

/-! ## The copy of a free semaphore -/

/-- Between the copy for this gyroscope and the creation of its thread. -/
def CreatePc.copied (i : Gyro) : CreatePc → Bool
  | .clearState j | .createSignal j | .storeSignal j _ | .createThread j => j = i
  | _ => false

/-- The gyroscope whose semaphore is copied. -/
def copies : Label → Option Gyro
  | .exec t l _ =>
    match inGyros t l with
    | some (.copySem i) => some i
    | _ => none
  | _ => none

/-- `create_signals_gyros` copies a semaphore only while nobody holds it. -/
def CopiesFree (s : State) (a : Label) : Prop := ∀ i ∈ copies a, s.sem (.gs i) ≠ 0

instance (s : State) (a : Label) : Decidable (CopiesFree s a) :=
  inferInstanceAs (Decidable (∀ i ∈ copies a, _))

/-- The copies that correction threads are made from, and work with, are free when they
do not hold them. -/
structure Supplied (s : State) : Prop where
  arg : ∀ t i p, inGyros t (s.loc t) = some p → p.copied i = true → s.sem (.arg i) ≠ 0
  born : ∀ i n, s.life (.gyroscopeThread i n) ≠ .unborn → s.sem (.arg i) ≠ 0
  own : ∀ i n, s.loc (.gyroscopeThread i n) ≠ .copySem →
    .gyro (.gyroscopeThread i n) ∉ s.held (.gyroscopeThread i n) →
    s.sem (.gyro (.gyroscopeThread i n)) ≠ 0

theorem arg_kept (hs : sistema.Step s a s') (hc : CopiesFree s a) (h : s.sem (.arg i) ≠ 0) :
    s'.sem (.arg i) ≠ 0 := by
  cases hs with
  | @exec t ok _ _ _ =>
    rw [effect_sem]
    have ho : sistema.op s t = code t (s.loc t) := rfl
    rw [ho]
    by_cases hl : inGyros t (s.loc t) = some (.copySem i)
    · rw [copySem_sems hl]
      exact hc i (by simp [copies, hl])
    · rwa [Op.sems_quiet (arg_quiet _ hl)]
  | _ => exact h

theorem inGyros_awake {p : CreatePc} (h : inGyros t l = some p) :
    (code t l).interruptible = false := by
  cases t with
  | main =>
    cases l with
    | createGyros p => cases p <;> rfl
    | _ => cases h
  | goUp30m =>
    cases l with
    | create p => cases p <;> rfl
    | _ => cases h
  | sigHandlerManual =>
    cases l with
    | create a p => cases p <;> rfl
    | _ => cases h
  | _ => cases h

theorem next_copied {g : Shared} {p q : CreatePc} (h : q.Next g p) (hp : p.copied i = true) :
    q = .copySem i ∨ q.copied i = true := by
  cases h with
  | @copied j =>
    have hj : j = i := by simpa [CreatePc.copied] using hp
    exact .inl (congrArg CreatePc.copySem hj)
  | created | stored => cases hp
  | _ => exact .inr hp

/-- Whoever is past the copy has just made it, or was past it before. -/
theorem arg_step (hs : sistema.Step s a s') (hc : CopiesFree s a) (h : Supplied s) (t : Tid)
    (p : CreatePc) (hp : inGyros t (s'.loc t) = some p) (hi : p.copied i = true) :
    s'.sem (.arg i) ≠ 0 := by
  have hkeep : ∀ q, inGyros t (s.loc t) = some q → q.copied i = true → s'.sem (.arg i) ≠ 0 :=
    fun q hq hqi => arg_kept hs hc (h.arg t i q hq hqi)
  revert p
  refine step_slice hs t (I := fun l _ => ∀ p, inGyros t l = some p → p.copied i = true →
    s'.sem (.arg i) ≠ 0) hkeep ?_ ?_ ?_ ?_ ?_
  · rintro ok rfl - - p hp hi
    obtain rfl | ⟨q, hq, hnext⟩ := inGyros_dest t (s.loc t) s.glob ok p hp
    · cases hi
    · obtain rfl | hqi := next_copied hnext hi
      · obtain ⟨-, -, -, -, rfl⟩ := hs.exec_inv
        rw [effect_sem, show sistema.op s t = code t (s.loc t) from rfl, copySem_sems hq]
        exact hc i (by simp [copies, hq])
      · exact hkeep q hq hqi
  · intro _ _ _ _ _
    exact hkeep
  · intro _ hint p hp hi
    obtain rfl | ⟨q, hq, -⟩ := inGyros_dest t (s.loc t) s.glob true p hp
    · cases hi
    · cases (inGyros_awake hq).symm.trans hint
  · intro l _ hl p hp
    cases t with
    | main =>
      generalize s.loc .main = l₀ at hl
      cases l₀ <;> cases hl <;> cases hp
    | _ => cases hl
  · intro _ _
    exact hkeep

/-- A correction thread is born where `create_signals_gyros` creates it. -/
theorem creates_correction {g : Shared} (h : (code t l).creates g = some (.gyroscopeThread i n)) :
    inGyros t l = some (.createThread i) ∧ n = g.corrections i := by
  have hc := code_calls t l
  generalize code t l = o at hc h
  cases hc with
  | plain hp => cases (hp.creates g).symm.trans h
  | createThread hl =>
    cases h
    exact ⟨hl, rfl⟩
  | createOther hu =>
    cases h
    cases hu
  | _ => cases h

theorem born_step (hs : sistema.Step s a s') (hc : CopiesFree s a) (h : Supplied s) (i : Gyro)
    (n : ℕ) (hb : s'.life (.gyroscopeThread i n) ≠ .unborn) : s'.sem (.arg i) ≠ 0 := by
  refine arg_kept hs hc ?_
  by_cases hu : s.life (.gyroscopeThread i n) = .unborn
  · obtain ⟨t, ok, -, hcr⟩ := newly_born hs hu hb
    have hl := (creates_correction hcr).1
    exact h.arg t i _ hl (by simp [CreatePc.copied])
  · exact h.born i n hu

theorem own_exec (hr : s.Running (.gyroscopeThread i n)) (h : Supplied s)
    (hh : .gyro (.gyroscopeThread i n) ∉
      (sistema.effect s (.gyroscopeThread i n) ok).held (.gyroscopeThread i n)) :
    (sistema.effect s (.gyroscopeThread i n) ok).sem (.gyro (.gyroscopeThread i n)) ≠ 0 := by
  rw [effect_held_self] at hh
  rw [effect_sem]
  have hc : Calls (.gyroscopeThread i n) (s.loc _) (sistema.op s _) := code_calls _ _
  by_cases hq : (sistema.op s (.gyroscopeThread i n)).Quiet (.gyro (.gyroscopeThread i n))
  · rw [Op.mem_held_quiet hq] at hh
    rw [Op.sems_quiet hq]
    refine h.own i n (fun hl => ?_) hh
    have hop : sistema.op s (.gyroscopeThread i n) = gyroscopeThread i n .copySem :=
      congrArg (gyroscopeThread i n) hl
    rw [hop] at hq
    exact hq rfl
  · cases ho : sistema.op s (.gyroscopeThread i n) with
    | wait y k =>
      obtain rfl : y = .gyro (.gyroscopeThread i n) := by
        simpa [ho, Op.Quiet] using hq
      rw [ho] at hh
      exact absurd List.mem_cons_self hh
    | post y k =>
      obtain rfl : y = .gyro (.gyroscopeThread i n) := by
        simpa [ho, Op.Quiet] using hq
      simp [Op.sems]
    | copy d y k =>
      obtain rfl : d = .gyro (.gyroscopeThread i n) := by
        simpa [ho, Op.Quiet] using hq
      rw [ho] at hc
      generalize s.loc (.gyroscopeThread i n) = l at hc
      cases hc with
      | plain hp => exact hp.elim
      | copyThread =>
        have hborn : s.life (.gyroscopeThread i n) ≠ .unborn := by
          intro hb
          cases hr.2.symm.trans hb
        simpa [Op.sems] using h.born i n hborn
    | _ =>
      rw [ho] at hq
      exact absurd trivial hq

/-- A correction thread has its copy from a free semaphore, and posts what it takes. -/
theorem own_step (hs : sistema.Step s a s') (h : Supplied s) (i : Gyro) (n : ℕ)
    (hl : s'.loc (.gyroscopeThread i n) ≠ .copySem)
    (hh : .gyro (.gyroscopeThread i n) ∉ s'.held (.gyroscopeThread i n)) :
    s'.sem (.gyro (.gyroscopeThread i n)) ≠ 0 := by
  cases hs with
  | @exec t ok hr _ _ =>
    by_cases ht : t = .gyroscopeThread i n
    · subst ht
      exact own_exec hr h hh
    · rw [effect_loc_of_ne (Ne.symm ht)] at hl
      rw [effect_held_of_ne (Ne.symm ht)] at hh
      rw [effect_sem, show sistema.op s t = code t (s.loc t) from rfl,
        Op.sems_quiet (gyro_quiet ht _ s.glob)]
      exact h.own i n hl hh
  | die =>
    rw [die_loc] at hl
    rw [die_held] at hh
    exact h.own i n hl hh
  | @cont t _ _ =>
    rw [wake_held] at hh
    refine h.own i n (fun he => hl ?_) hh
    by_cases ht : t = .gyroscopeThread i n
    · subst ht
      have hop : (sistema.op s (.gyroscopeThread i n)).interruptible = false :=
        congrArg (fun l => (gyroscopeThread i n l).interruptible) he
      rw [wake_loc_self, hop]
      exact he
    · rwa [wake_loc_of_ne (Ne.symm ht)]
  | @int t l _ _ hint =>
    cases t with
    | main =>
      rw [handle_loc_of_ne (by nofun)] at hl
      rw [handle_held] at hh
      exact h.own i n hl hh
    | _ => cases hint
  | env => exact h.own i n hl hh

theorem supplied_run (h : sistema.Run CopiesFree (init inp) tr s) : Supplied s := by
  refine h.invariant ⟨?_, ?_, ?_⟩ ?_
  · intro t i p hp hi
    cases t with
    | main =>
      cases hp
      cases hi
    | _ => cases hp
  · exact fun i n hb => absurd rfl hb
  · exact fun i n hl => absurd rfl hl
  · intro s a s' hi hs hc
    exact ⟨fun t i p => arg_step hs hc hi t p, born_step hs hc hi, own_step hs hi⟩

/-- Blocked on its copy, which nobody is going to post. -/
def Stuck (s : State) (t : Tid) : Prop :=
  BlockedOn sistema s t (.gyro t) ∧ ∀ u, .gyro t ∉ s.held u

/-- When only free semaphores are copied no correction thread is ever stuck. -/
theorem correction_never_stuck (h : sistema.Run CopiesFree (init inp) tr s) (i : Gyro) (n : ℕ) :
    ¬ Stuck s (.gyroscopeThread i n) := by
  rintro ⟨⟨-, ⟨k, hk⟩, h0⟩, hnone⟩
  refine (supplied_run h).own i n (fun hl => ?_) (hnone _) h0
  have hop : sistema.op s (.gyroscopeThread i n) = gyroscopeThread i n .copySem :=
    congrArg (gyroscopeThread i n) hl
  cases hop.symm.trans hk

/-- The simulator writes an alarm, and the handler acts on it up to its `n`-th step. -/
def alarmed (v : Int) (n : ℕ) : Schedule := .env (.alarma v) :: burst .sigHandlerManual n

/-- After alarm 103 the new thread of the first gyroscope comes to its semaphore. -/
def reawaken : Schedule :=
  burst (.gyroscopeThread 0 1) 2 ++ burst (.signalGyro 0) 7 ++ [.cont (.gyroscopeThread 0 1)] ++
    burst (.gyroscopeThread 0 1) 2

theorem correction_never_stuck_once : ∃ tr s,
    sistema.Run CopiesFree (init ⟨10, 100, fun _ => 1, 0⟩) tr s ∧
    s.loc (.gyroscopeThread 0 1) = .lockGyro ∧ ¬ Stuck s (.gyroscopeThread 0 1) := by
  have hrun : ∃ tr s, sistema.Run CopiesFree (init ⟨10, 100, fun _ => 1, 0⟩) tr s ∧
      s.loc (.gyroscopeThread 0 1) = .lockGyro := by
    refine run_of_check (boot ++ burst (.signalGyro 0) 1 ++ alarmed 103 12 ++ reawaken) ?_
    decide +kernel
  obtain ⟨tr, s, h, hl⟩ := hrun
  exact ⟨tr, s, h, hl, correction_never_stuck h 0 1⟩

/-- Alarm 103 is handled while the landing check has the first semaphore: the new thread
gets a copy that is taken for good. -/
theorem correction_stuck : ∃ inp s i n, sistema.Reachable (init inp) s ∧
    Stuck s (.gyroscopeThread i n) := by
  have hrun : ∃ tr s, sistema.Run Any (init ⟨10, 100, fun _ => 1, 0⟩) tr s ∧
      s.Running (.gyroscopeThread 0 1) ∧ s.loc (.gyroscopeThread 0 1) = .lockGyro ∧
      s.sem (.gyro (.gyroscopeThread 0 1)) = 0 := by
    refine run_of_check (boot ++ burst (.signalGyro 0) 1 ++ burst .signalLandingCheck 6 ++
      alarmed 103 12 ++ reawaken) ?_
    decide +kernel
  obtain ⟨tr, s, h, hr, hl, h0⟩ := hrun
  have hop : sistema.op s (.gyroscopeThread 0 1) = gyroscopeThread 0 1 .lockGyro :=
    congrArg (gyroscopeThread 0 1) hl
  refine ⟨_, s, 0, 1, h.reachable, ⟨hr, ⟨.test, hop⟩, h0⟩, fun u hu => ?_⟩
  rw [held_eq h u] at hu
  obtain rfl := holds_gyro hu
  rw [hl] at hu
  cases hu

end Sistema
