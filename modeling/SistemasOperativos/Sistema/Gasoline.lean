import SistemasOperativos.Sistema.Ticks
import SistemasOperativos.Sistema.Schedules
import SistemasOperativos.Threads.Account

/-!
# What the fuel is spent on

The fuel is an integer, so that half a unit is rounded to a whole one at every tick with
a correction.
-/
namespace Sistema

open Threads Threads.Program

variable {s : State} {tr : List Label} {inp : Input} {t : Tid}

/-- A correction of a gyroscope, or a tick of the engine. -/
inductive Spend
  | correction
  | tick (p : Potencia)
  deriving DecidableEq, Repr

/-- What is taken from a tank that is not empty. -/
def Spend.cost : Spend → Int
  | correction => 1
  | tick .acelerando => 5
  | tick .desacelerando => 1
  | tick .normal => 1

/-- The location lowers `gasoline`. -/
def spends : (t : Tid) → Loc t → Option Spend
  | .gyroscopeThread _ _, .burn => some .correction
  | .pricipalEngineThread _, .burn p => some (.tick p)
  | _, _ => none

/-- `gasoline` is lowered and `sem_gas` not yet posted. -/
def spent : (t : Tid) → Loc t → Option Spend
  | .gyroscopeThread _ _, .unlockGas => some .correction
  | .pricipalEngineThread _, .unlockGas p => some (.tick p)
  | _, _ => none

theorem burnHalf_pos {g : Int} (h : 0 < g) : burnHalf g = g - 1 := by
  unfold burnHalf
  rw [Int.tdiv_eq_ediv_of_nonneg (by omega)]
  omega

theorem burn_cost (p : Potencia) {g : Int} (h : 0 < g) :
    p.burn g + (Spend.tick p).cost = g := by
  cases p with
  | desacelerando =>
    have := burnHalf_pos h
    simp only [Potencia.burn, Spend.cost]
    omega
  | acelerando | normal => exact Int.sub_add_cancel g _

theorem spent_dest (t : Tid) (l : Loc t) (g : Shared) (ok : Bool) :
    spent t ((code t l).dest l g ok) = spends t l := by
  cases t with
  | gyroscopeThread i n =>
    cases l with
    | head | test =>
      simp only [code, gyroscopeThread, Op.dest]
      split <;> rfl
    | _ => rfl
  | pricipalEngineThread n =>
    cases l with
    | send m p =>
      exact sendMesg_dest (A := fun l => spent (.pricipalEngineThread n) l = none)
        (fun _ => rfl) rfl p
    | lockGs i | unlockGs i p => obtain rfl | rfl := gyro_cases i <;> rfl
    | head | mode =>
      simp only [code, pricipalEngineThread, Op.dest]
      split <;> rfl
    | state i =>
      simp only [code, pricipalEngineThread, Op.dest]
      split
      · rfl
      · split <;> rfl
    | _ => rfl
  | _ => rfl

/-- The fuel goes down by what the location spends. -/
theorem gasoline_glob (t : Tid) (l : Loc t) (g : Shared) (hg : 0 < g.gasoline) :
    ((code t l).glob g).gasoline + (spends t l).elim 0 Spend.cost = g.gasoline := by
  by_cases hn : spends t l = none
  · have hw := code_writes t l g
    rw [hn, Option.elim_none, add_zero]
    generalize (code t l).glob g = g' at hw
    cases hw with
    | burn | correct => cases hn
    | descend => rw [descend_eq]
    | _ => rfl
  · cases t with
    | gyroscopeThread i n =>
      cases l with
      | burn => exact Int.sub_add_cancel g.gasoline 1
      | _ => exact absurd rfl hn
    | pricipalEngineThread n =>
      cases l with
      | burn p => exact burn_cost p hg
      | _ => exact absurd rfl hn
    | _ => exact absurd rfl hn

/-- The tank as a balance under `sem_gas`. -/
def tank : Account sistema discipline .gas Spend where
  balance g := g.gasoline
  cost := Spend.cost
  Good g := 0 < g.gasoline
  spends := spends
  spent := spent
  dest := spent_dest
  awake t l h := by
    cases t with
    | gyroscopeThread i n =>
      cases l with
      | burn | unlockGas => cases h
      | _ => exact ⟨rfl, rfl⟩
    | pricipalEngineThread n =>
      cases l with
      | burn p | unlockGas p => cases h
      | _ => exact ⟨rfl, rfl⟩
    | _ => exact ⟨rfl, rfl⟩
  int t l l' h := by
    cases t with
    | main => rfl
    | _ => cases h
  held t l h := by
    cases t with
    | gyroscopeThread i n =>
      cases l with
      | burn | unlockGas => exact List.mem_cons_self
      | _ => exact absurd h (by simp [spends, spent])
    | pricipalEngineThread n =>
      cases l with
      | burn p | unlockGas p => exact List.mem_cons_self
      | _ => exact absurd h (by simp [spends, spent])
    | _ => exact absurd h (by simp [spends, spent])
  apart t l h := by
    cases t with
    | gyroscopeThread i n =>
      cases l with
      | burn => rfl
      | _ => exact absurd rfl h
    | pricipalEngineThread n =>
      cases l with
      | burn p => rfl
      | _ => exact absurd rfl h
    | _ => exact absurd rfl h
  glob := gasoline_glob
  env e g := by cases e <;> rfl

/-- A payment of this kind is completed: `sem_gas` is posted. -/
def completes (k : Spend) (a : Label) : Bool := tank.completes a = some k

theorem total_eq (tr : List Label) : tank.total tr =
    tr.countP (completes .correction) + 5 * tr.countP (completes (.tick .acelerando)) +
      tr.countP (completes (.tick .desacelerando)) + tr.countP (completes (.tick .normal)) := by
  induction tr using List.reverseRecOn with
  | nil => rfl
  | append_singleton tr a ih =>
    rw [tank.total_snoc, ih]
    simp only [List.countP_append, List.countP_singleton]
    cases hk : tank.completes a with
    | none => simp [completes, hk]
    | some k =>
      have hcost : tank.cost = Spend.cost := rfl
      rcases k with _ | _ | _ | _ <;> simp [completes, hk, hcost, Spend.cost] <;> omega

/-- The fuel left in the tank after these payments, if half a unit is taken for a tick
with a correction; their sum may be rounded up or down. -/
def InBalance (nivel : Int) (tr : List Label) (gasoline : Int) : Prop :=
  let rest := nivel - tr.countP (completes .correction) -
    5 * tr.countP (completes (.tick .acelerando)) - tr.countP (completes (.tick .normal))
  let d := tr.countP (completes (.tick .desacelerando))
  gasoline = rest - (d / 2 : ℕ) ∨ gasoline = rest - ((d + 1) / 2 : ℕ)

instance (nivel : Int) (tr : List Label) (gasoline : Int) :
    Decidable (InBalance nivel tr gasoline) := inferInstanceAs (Decidable (_ ∨ _))

theorem tank_law (h : sistema.Run (fun s _ => 0 < s.glob.gasoline) (init inp) tr s) :
    tank.Law inp.nivel s tr := by
  refine tank.law_run h (tracks_init inp) rfl (copy_not_shared rfl) (mutex_init inp rfl) ?_
  intro t
  cases t <;> rfl

/-- The fuel is accounted for as long as at most one tick was made with a correction,
whenever no payment is on its way. -/
theorem fuel_accounted (h : sistema.Run (fun s _ => 0 < s.glob.gasoline) (init inp) tr s) :
    InBalance inp.nivel tr s.glob.gasoline ↔
      tr.countP (completes (.tick .desacelerando)) ≤ 1 ∧ tank.Settled s := by
  have hlaw := tank_law h
  unfold InBalance
  by_cases hs : tank.Settled s
  · have hb : s.glob.gasoline + tank.total tr = inp.nivel := hlaw.settled hs
    rw [total_eq] at hb
    simp only [hs, and_true]
    omega
  · obtain ⟨t, ht⟩ := not_forall.mp hs
    obtain ⟨k, hk⟩ := Option.ne_none_iff_exists'.mp ht
    have hb : s.glob.gasoline + k.cost + tank.total tr = inp.nivel := hlaw.pending t k hk
    have hpos : 0 < k.cost := by
      rcases k with _ | _ | _ | _ <;> decide
    rw [total_eq] at hb
    simp only [hs, and_false, iff_false]
    omega

/-- The first correction of a gyroscope, up to its `sleep`. -/
def firstCorrection : Schedule :=
  burst (.gyroscopeThread 0 0) 2 ++ burst (.signalGyro 0) 8 ++ [.cont (.gyroscopeThread 0 0)] ++
    burst (.gyroscopeThread 0 0) 12

theorem fuel_accounted_once : ∃ tr s,
    sistema.Run (fun s _ => 0 < s.glob.gasoline) (init ⟨10, 100, fun _ => 1, 0⟩) tr s ∧
    tr.countP (completes .correction) = 1 ∧ tr.countP (completes (.tick .desacelerando)) = 1 ∧
    InBalance 100 tr s.glob.gasoline := by
  have hrun : ∃ tr s,
      sistema.Run (fun s _ => 0 < s.glob.gasoline) (init ⟨10, 100, fun _ => 1, 0⟩) tr s ∧
      tr.countP (completes .correction) = 1 ∧
      tr.countP (completes (.tick .desacelerando)) = 1 ∧ s.sem .gas = 1 := by
    refine run_of_check (boot ++ firstCorrection ++ burst engine 17) ?_
    decide +kernel
  obtain ⟨tr, s, h, hc, hd, hfree⟩ := hrun
  have hset : tank.Settled s :=
    tank.settled_of_free (held_eq h) (mutex h rfl) (by rw [hfree]; decide)
  exact ⟨tr, s, h, hc, hd, (fuel_accounted h).mpr ⟨hd.le, hset⟩⟩

/-- Two rounds with a correction under way cost two units, not one. -/
theorem half_rounded_up : ∃ inp tr s, sistema.Run (fun s _ => 0 < s.glob.gasoline) (init inp) tr s ∧
    0 < s.glob.gasoline ∧ tank.Settled s ∧ ¬ InBalance inp.nivel tr s.glob.gasoline := by
  have hrun : ∃ tr s,
      sistema.Run (fun s _ => 0 < s.glob.gasoline) (init ⟨10, 100, fun _ => 1, 0⟩) tr s ∧
      s.sem .gas = 1 ∧ 0 < s.glob.gasoline ∧ ¬ InBalance 100 tr s.glob.gasoline := by
    refine run_of_check (boot ++ firstCorrection ++ burst (.signalGyro 0) 9 ++
      burst (.signalGyro 1) 17 ++ burst .signalRestartLanding 17 ++
      burst .signalExploteRocket 14 ++ landingReport ++ manualReport ++ burst engine 26 ++
      burst .main 12 ++ burst engine 27) ?_
    decide +kernel
  obtain ⟨tr, s, h, hfree, hpos, hnot⟩ := hrun
  have hset : tank.Settled s :=
    tank.settled_of_free (held_eq h) (mutex h rfl) (by rw [hfree]; decide)
  exact ⟨_, tr, s, h, hpos, hset, hnot⟩

end Sistema
