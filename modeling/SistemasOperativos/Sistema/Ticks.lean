import SistemasOperativos.Sistema.Sends

/-!
# Height, fuel and the ticks of the engine

Only the engine and `go_up_30m` write `distance`, one metre down and six up. With a
single engine its ticks are counted by the tokens that it takes.
-/
namespace Sistema

open Threads Threads.Program

variable {s s' s₀ : State} {a : Label} {t : Tid} {ok : Bool} {tr : List Label}
variable {C : State → Label → Prop}

/-! ## Height and fuel -/

/-- An engine executes one of the locations `x`. -/
def atEngine (x : EnginePc → Bool) : Label → Bool
  | .exec (.pricipalEngineThread _) l _ => x l
  | _ => false

def EnginePc.descends : EnginePc → Bool
  | .descend => true
  | _ => false

def EnginePc.burns : EnginePc → Bool
  | .burn _ => true
  | _ => false

/-- The engine lowers the rocket. -/
def descends : Label → Bool := atEngine EnginePc.descends

/-- `distance += RATE_GO_UP`. -/
def ascends : Label → Bool
  | .exec .goUp30m (.test time) _ => time < 5
  | _ => false

/-- No action ever passes the first test of the engine. -/
theorem descend_eq (g : Shared) :
    descend g = { g with distance := g.distance - 1, ditBlock := g.distance - 1 } := by
  unfold descend
  rw [if_pos]
  cases g.currentAction <;> simp

/-- Elsewhere the height stays. -/
theorem distance_other {l : Loc t} (hd : descends (.exec t l ok) = false)
    (ha : ascends (.exec t l ok) = false) (g : Shared) :
    ((code t l).glob g).distance = g.distance := by
  have hw := code_writes t l g
  generalize (code t l).glob g = g' at hw
  cases hw with
  | descend => cases hd
  | climb h => exact absurd ha (by simpa [ascends] using h)
  | _ => rfl

theorem descends_inv {l : Loc t} (h : descends (.exec t l ok) = true) (g : Shared) :
    ((code t l).glob g).distance = g.distance - 1 := by
  cases t with
  | pricipalEngineThread n =>
    cases l with
    | descend =>
      simp only [code, pricipalEngineThread, Op.glob, descend_eq]
    | _ => cases h
  | _ => cases h

theorem ascends_inv {l : Loc t} (h : ascends (.exec t l ok) = true) (g : Shared) :
    ((code t l).glob g).distance = g.distance + rateGoUp := by
  cases t with
  | goUp30m =>
    cases l with
    | test time =>
      have ht : time < 5 := by simpa [ascends] using h
      simp [code, goUp30m, Op.glob, ht]
    | _ => cases h
  | _ => cases h

theorem not_both (h : descends a = true) : ascends a = false := by
  cases a with
  | exec t l ok =>
    cases t with
    | pricipalEngineThread n => rfl
    | _ => cases h
  | _ => rfl

theorem distance_step (hs : sistema.Step s a s') :
    s'.glob.distance + (if descends a then 1 else 0) =
      s.glob.distance + (if ascends a then rateGoUp else 0) := by
  cases hs with
  | @exec t ok _ _ _ =>
    rw [effect_glob]
    have ho : sistema.op s t = code t (s.loc t) := rfl
    rw [ho]
    cases hd : descends (.exec t (s.loc t) ok) with
    | true =>
      rw [descends_inv hd, not_both hd]
      simp
    | false =>
      cases ha : ascends (.exec t (s.loc t) ok) with
      | true =>
        rw [ascends_inv ha]
        simp
      | false =>
        rw [distance_other hd ha]
        rfl
  | env e => cases e <;> rfl
  | _ => rfl

/-- The height after a run, from the ticks and the climbs in it. -/
theorem distance_run (h : sistema.Run C s₀ tr s) : s.glob.distance + tr.countP descends =
    s₀.glob.distance + rateGoUp * tr.countP ascends := by
  induction h with
  | nil => simp
  | @snoc tr s s' a _ hs _ ih =>
    have hstep := distance_step hs
    rw [List.countP_append, List.countP_append, List.countP_singleton, List.countP_singleton]
    simp only [rateGoUp] at ih hstep ⊢
    cases hd : descends a <;> cases ha : ascends a <;> simp [hd, ha] at hstep ⊢ <;> omega

theorem burnHalf_le (g : Int) : burnHalf g ≤ g := by
  unfold burnHalf
  by_cases hg : 0 ≤ 2 * g - 1
  · rw [Int.tdiv_eq_ediv_of_nonneg hg]
    omega
  · have hneg : 2 * g - 1 = -(1 - 2 * g) := by omega
    rw [hneg, Int.neg_tdiv, Int.tdiv_eq_ediv_of_nonneg (by omega)]
    omega

theorem burn_le (p : Potencia) (g : Int) : p.burn g ≤ g := by
  cases p with
  | desacelerando => exact burnHalf_le g
  | acelerando | normal => exact Int.sub_le_self g (by decide)

/-- Fuel never comes back. -/
theorem gasoline_step (hs : sistema.Step s a s') : s'.glob.gasoline ≤ s.glob.gasoline := by
  obtain ⟨t, l, ok, -, -, -, hw⟩ | ⟨w, -, hw⟩ | hw := step_writes hs
  · generalize s'.glob = g' at hw
    cases hw with
    | burn => exact burn_le _ _
    | correct => exact Int.sub_le_self _ (by decide)
    | descend => rw [descend_eq]
    | _ => exact le_rfl
  · rw [hw]
    cases w <;> exact le_rfl
  · rw [hw]

/-! ## Ticks and tokens -/

/-- The locations `x` are passed once between two waits, and `y` says that they have
been. -/
structure OncePerRound (x y : EnginePc → Bool) : Prop where
  head : y .head = false
  late : ∀ l : EnginePc, l.phase.early = false → y l = true
  awake : ∀ l, (pricipalEngineThread l).interruptible = true → x l = false
  dest : ∀ l g ok, (y ((pricipalEngineThread l).dest l g ok)).toNat +
    (if l.phase = .atWait then 1 else 0) = (y l).toNat + (x l).toNat

/-- The engine has lowered the rocket since its last token. -/
def EnginePc.descended : EnginePc → Bool
  | .head | .testcancel | .sleep | .lockDist | .lockAction | .descend | .finished => false
  | _ => true

/-- The engine has burnt fuel since its last token. -/
def EnginePc.burnt : EnginePc → Bool
  | .unlockGas _ | .unlockGs _ _ | .unlockAction _ | .unlockDist _ | .motor _ | .space _ _ |
      .format _ _ _ => true
  | .send _ _ | .waitMsg => true
  | _ => false

theorem send_once {y : EnginePc → Bool} (hy : ∀ m q, y (.send m q) = true)
    (hk : y .waitMsg = true) (m : Msg) (p : SendPc) (g : Shared) (ok : Bool) :
    (y ((pricipalEngineThread (.send m p)).dest (.send m p) g ok)).toNat +
      (if (EnginePc.send m p).phase = .atWait then 1 else 0) = (y (.send m p)).toNat + 0 := by
  have h : y ((pricipalEngineThread (.send m p)).dest (.send m p) g ok) = true :=
    sendMesg_dest (A := fun k => y k = true) (hy m) hk p
  have hp : (EnginePc.send m p).phase ≠ .atWait := sendPc_phase_ne p
  rw [h, hy, if_neg hp]

theorem descends_once : OncePerRound EnginePc.descends EnginePc.descended where
  head := rfl
  late l h := by
    cases l with
    | send | waitMsg => rfl
    | _ => cases h
  awake l h := by
    cases l with
    | descend => cases h
    | _ => rfl
  dest l g ok := by
    cases l with
    | send m p => exact send_once (fun _ _ => rfl) rfl m p g ok
    | lockGs i | unlockGs i p => obtain rfl | rfl := gyro_cases i <;> rfl
    | head | mode =>
      simp only [pricipalEngineThread, Op.dest]
      split <;> rfl
    | state i =>
      simp only [pricipalEngineThread, Op.dest]
      split
      · rfl
      · split <;> rfl
    | _ => rfl

theorem burns_once : OncePerRound EnginePc.burns EnginePc.burnt where
  head := rfl
  late l h := by
    cases l with
    | send | waitMsg => rfl
    | _ => cases h
  awake l h := by
    cases l with
    | burn => cases h
    | _ => rfl
  dest l g ok := by
    cases l with
    | send m p => exact send_once (fun _ _ => rfl) rfl m p g ok
    | lockGs i | unlockGs i p => obtain rfl | rfl := gyro_cases i <;> rfl
    | head | mode =>
      simp only [pricipalEngineThread, Op.dest]
      split <;> rfl
    | state i =>
      simp only [pricipalEngineThread, Op.dest]
      split
      · rfl
      · split <;> rfl
    | _ => rfl

/-- The only engine of a calm run. -/
abbrev engine : Tid := .pricipalEngineThread 0

theorem running_engine (hi : EngineInv s) (h1 : s.glob.engines ≤ 1) {n : ℕ}
    (hr : s.Running (.pricipalEngineThread n)) : n = 0 := by
  by_contra hn
  cases (hi.unborn n (by omega)).1.symm.trans hr.2

theorem ticks_step {x y : EnginePc → Bool} (hxy : OncePerRound x y) (hs : sistema.Step s a s')
    (hi : EngineInv s) (h1 : s.glob.engines ≤ 1) :
    (y (s'.loc engine)).toNat + (if event a = some (.take 6) then 1 else 0) =
      (y (s.loc engine)).toNat + (atEngine x a).toNat := by
  cases hs with
  | @exec t ok hr _ _ =>
    by_cases ht : t = engine
    · subst ht
      rw [effect_loc_self]
      have hd := hxy.dest (s.loc engine) s.glob ok
      have hiff : event (.exec engine (s.loc engine) ok) = some (.take 6) ↔
          (s.loc engine).phase = .atWait := event_take.trans (and_iff_left rfl)
      simp only [hiff]
      exact hd
    · have hne : event (.exec t (s.loc t) ok) ≠ some (.take 6) := by
        intro he
        refine ht ((reporter_of_running hi h1 hr (event_take.mp he).2).trans ?_)
        rw [reporter_six, Nat.sub_eq_zero_of_le h1]
      have hx : atEngine x (.exec t (s.loc t) ok) = false := by
        cases t with
        | pricipalEngineThread n => exact absurd (congrArg _ (running_engine hi h1 hr)) ht
        | _ => rfl
      rw [effect_loc_of_ne (Ne.symm ht), if_neg hne, hx]
      rfl
  | die =>
    rw [die_loc]
    rfl
  | @cont t _ _ =>
    by_cases ht : t = engine
    · subst ht
      rw [wake_loc_self]
      split
      · rename_i hint
        have hd := hxy.dest (s.loc engine) s.glob true
        have hx := hxy.awake _ hint
        have hw : (s.loc engine).phase ≠ .atWait :=
          (interruptible_phase (t := engine) (i := 6) hint rfl s.glob).2.1
        rw [hx, if_neg hw] at hd
        exact hd
      · rfl
    · rw [wake_loc_of_ne (Ne.symm ht)]
      rfl
  | @int t l _ _ hl =>
    cases t with
    | main =>
      rw [handle_loc_of_ne (by nofun)]
      rfl
    | _ => cases hl
  | env => rfl

variable {inp : Input}

/-- The ticks of a calm run are the tokens of the engine and the tick of the round in
progress. -/
theorem ticks_run {x y : EnginePc → Bool} (hxy : OncePerRound x y)
    (h : sistema.Run C (init inp) tr s) (hC : ∀ s a, C s a → Calm s a) :
    tr.countP (atEngine x) =
      (Barrier.ledger (events tr)).took 6 + (y (s.loc engine)).toNat := by
  induction h with
  | nil =>
    have : y ((init inp).loc engine) = false := hxy.head
    rw [this]
    rfl
  | @snoc tr s s' a hrun hs _ ih =>
    have hstep := ticks_step hxy hs (engineInv hrun) (single_engine hrun hC)
    rw [List.countP_append, List.countP_singleton, events_snoc, Barrier.ledger_record]
    by_cases he : event a = some (.take 6)
    · rw [if_pos he] at hstep
      rw [he, Barrier.Ledger.record_take]
      cases ha : atEngine x a <;> simp [ha] at hstep ⊢ <;> omega
    · rw [if_neg he] at hstep
      rw [Barrier.Ledger.record_took_of_ne he]
      cases ha : atEngine x a <;> simp [ha] at hstep ⊢ <;> omega

theorem calm_barrier (h : sistema.Run C (init inp) tr s) (hC : ∀ s a, C s a → Calm s a) :
    BarrierInv s (Barrier.ledger (events tr)) :=
  (barrier_run (calm_steady h hC) fun _ _ hc => hc.1).2

/-- In a calm run the engine ticks once in each round, and is at most one tick ahead. -/
theorem ticks_bounds {x y : EnginePc → Bool} (hxy : OncePerRound x y)
    (h : sistema.Run C (init inp) tr s) (hC : ∀ s a, C s a → Calm s a) :
    (Barrier.ledger (events tr)).releases ≤ tr.countP (atEngine x) ∧
      tr.countP (atEngine x) ≤ (Barrier.ledger (events tr)).releases + 1 := by
  have hb := calm_barrier h hC
  have ht := ticks_run hxy h hC
  have hrel := hb.ok.releases_le 6
  have hcount := hb.ok.count_le 6
  have htook := hb.ok.took_le 6
  have hposted := hb.ok.posted_le 6
  have hy := (y (s.loc engine)).toNat_le
  refine ⟨?_, by omega⟩
  have hphase : phaseAt s 6 = (s.loc engine).phase := by
    rw [phaseAt_six, Nat.sub_eq_zero_of_le (single_engine h hC)]
  cases he : (phaseAt s 6).early with
  | true =>
    have := hb.early 6 he
    omega
  | false =>
    have hlate := hxy.late (s.loc engine) (hphase ▸ he)
    rw [hlate] at ht
    simp only [Bool.toNat_true] at ht
    omega

end Sistema
