import SistemasOperativos.Sistema.Locks

/-! Creation and cancellation of the engine's incarnations. -/
namespace Sistema

open Threads Threads.Program

/-- The location of `main` under the handler. -/
def MainPc.base : MainPc → MainPc
  | .handler saved _ => saved.base
  | l => l

/-- `main` has not created the alarm handler's thread. -/
def MainPc.early : MainPc → Bool
  | .createGyros _ | .clearPe | .createPe | .storePe _ | .createRest | .storeRest _ => true
  | .createGoUp | .storeGoUp _ | .createExplo | .storeExplo _ | .createLand | .storeLand _ => true
  | .createManual => true
  | _ => false

/-- The handler has cancelled the engine and not created the next one yet. -/
def ManualPc.replacing : ManualPc → Bool
  | .manage _ .off | .manage _ .clear | .manage _ .create => true
  | _ => false

/-- What `array_threads[2]` is while the handler is at a location. -/
def ManualPc.engineSlot (g : Shared) : ManualPc → Prop
  | .manage _ .create => g.arrayThreads 2 = none
  | .manage _ (.store t) => t = .pricipalEngineThread (g.engines - 1)
  | _ => g.arrayThreads 2 = some (.pricipalEngineThread (g.engines - 1))

/-- The engine's creation by `main`, then by the handler. -/
def EngineSlot (g : Shared) (lm : MainPc) (lh : ManualPc) : Prop :=
  match lm with
  | .createGyros _ | .clearPe | .createPe => g.engines = 0
  | .storePe t => g.engines = 1 ∧ t = .pricipalEngineThread 0
  | _ => 1 ≤ g.engines ∧ lh.engineSlot g

structure EngineInv (s : State) : Prop where
  waiting : (s.loc .main).base.early = true →
    s.life .sigHandlerManual = .unborn ∧ s.loc .sigHandlerManual = .head
  slot : EngineSlot s.glob (s.loc .main).base (s.loc .sigHandlerManual)
  unborn : ∀ n, s.glob.engines ≤ n →
    s.life (.pricipalEngineThread n) = .unborn ∧ s.loc (.pricipalEngineThread n) = .head
  stale : ∀ n, n + 1 < s.glob.engines → s.cancelled (.pricipalEngineThread n) = true
  replaced : (s.loc .sigHandlerManual).replacing = true →
    s.cancelled (.pricipalEngineThread (s.glob.engines - 1)) = true

/-- Only `main` and the handler count engines or store them. -/
theorem glob_engines {t : Tid} (hm : t ≠ .main) (hh : t ≠ .sigHandlerManual) (l : Loc t)
    (g : Shared) : ((code t l).glob g).engines = g.engines ∧
      ((code t l).glob g).arrayThreads 2 = g.arrayThreads 2 := by
  have h := code_writes t l g
  generalize (code t l).glob g = g' at h
  cases h with
  | storeGyro =>
    rename_i i _ _
    obtain rfl | rfl := gyro_cases i <;> exact ⟨rfl, rfl⟩
  | descend =>
    unfold descend
    split <;> exact ⟨rfl, rfl⟩
  | reset | clearPe | createPe | storePe | storeGoUp => exact absurd rfl hm
  | manageOff | manageClear | manageCreate | manageStore | manageOn => exact absurd rfl hh
  | _ => exact ⟨rfl, rfl⟩

theorem createSignalsGyros_creates {L : Type} {all : Bool} {pc : CreatePc → L} {k : L}
    {p : CreatePc} {g : Shared} {u : Tid}
    (h : (createSignalsGyros all pc k p).creates g = some u) : u.ofGyro = true := by
  cases p <;> cases h <;> rfl

/-- Only `main` and the handler create other threads than those of the gyroscopes. -/
theorem creates_other {t u : Tid} (hm : t ≠ .main) (hh : t ≠ .sigHandlerManual) {l : Loc t}
    {g : Shared} (h : (code t l).creates g = some u) : u.ofGyro = true := by
  have hc := code_calls t l
  generalize code t l = o at h hc
  cases hc with
  | plain hp => cases (hp.creates g).symm.trans h
  | createSignal | createThread =>
    cases h
    rfl
  | createPe | createOther => exact absurd rfl hm
  | manageCreate => exact absurd rfl hh
  | _ => cases h

variable {s s' : State} {a : Label} {t : Tid} {ok : Bool}

theorem engineInv_init (inp : Input) : EngineInv (init inp) where
  waiting _ := ⟨rfl, rfl⟩
  slot := rfl
  unborn _ _ := ⟨rfl, rfl⟩
  stale _ h := absurd h (Nat.not_lt_zero _)
  replaced h := by cases h

/-- Steps that create no engine and leave the handler where it is. -/
theorem EngineInv.frame (h : EngineInv s) (hg : s'.glob.engines = s.glob.engines)
    (hw : (s'.loc .main).base.early = true → (s.loc .main).base.early = true ∧
      s'.life .sigHandlerManual = s.life .sigHandlerManual)
    (hslot : EngineSlot s'.glob (s'.loc .main).base (s'.loc .sigHandlerManual))
    (hh : s'.loc .sigHandlerManual = s.loc .sigHandlerManual)
    (hle : ∀ n, s.life (.pricipalEngineThread n) = .unborn →
      s'.life (.pricipalEngineThread n) = .unborn ∧
        s'.loc (.pricipalEngineThread n) = s.loc (.pricipalEngineThread n))
    (hc : ∀ u, s.cancelled u = true → s'.cancelled u = true) : EngineInv s' where
  waiting he := by
    obtain ⟨he', hl⟩ := hw he
    obtain ⟨h1, h2⟩ := h.waiting he'
    exact ⟨hl.trans h1, hh.trans h2⟩
  slot := hslot
  unborn n hn := by
    obtain ⟨h1, h2⟩ := h.unborn n (hg ▸ hn)
    exact ⟨(hle n h1).1, (hle n h1).2.trans h2⟩
  stale n hn := hc _ (h.stale n (hg ▸ hn))
  replaced hr := by
    rw [hg]
    exact hc _ (h.replaced (hh ▸ hr))

theorem EngineSlot.congr {g g' : Shared} {lm : MainPc} {lh : ManualPc} (h : EngineSlot g lm lh)
    (he : g'.engines = g.engines) (ha : g'.arrayThreads 2 = g.arrayThreads 2) :
    EngineSlot g' lm lh := by
  unfold EngineSlot ManualPc.engineSlot at h ⊢
  rw [he, ha]
  exact h

theorem effect_cancelled_mono {u : Tid} (h : s.cancelled u = true) :
    (sistema.effect s t ok).cancelled u = true := by
  simp [effect_cancelled, h]

theorem engineInv_other (hm : t ≠ .main) (hh : t ≠ .sigHandlerManual) (hr : s.Running t)
    (h : EngineInv s) : EngineInv (sistema.effect s t ok) := by
  have hg := glob_engines hm hh (s.loc t) s.glob
  have hlm : (sistema.effect s t ok).loc .main = s.loc .main := effect_loc_of_ne (Ne.symm hm)
  have hlh : (sistema.effect s t ok).loc .sigHandlerManual = s.loc .sigHandlerManual :=
    effect_loc_of_ne (Ne.symm hh)
  have hlife : ∀ u : Tid, u ≠ t → u.ofGyro = false → (sistema.effect s t ok).life u = s.life u := by
    intro u hu hg
    rw [effect_life_of_ne hu, if_neg]
    intro hc
    rw [creates_other hm hh hc] at hg
    cases hg
  refine h.frame hg.1 ?_ ?_ hlh ?_ fun u => effect_cancelled_mono
  · intro he
    exact ⟨hlm ▸ he, hlife _ (Ne.symm hh) rfl⟩
  · rw [hlm, hlh]
    exact h.slot.congr hg.1 hg.2
  · intro n hl
    have hne : .pricipalEngineThread n ≠ t := by
      rintro rfl
      cases hl.symm.trans hr.2
    exact ⟨(hlife _ hne rfl).trans hl, effect_loc_of_ne hne⟩

theorem engine_ne_main (n : ℕ) : Tid.pricipalEngineThread n ≠ .main := nofun

theorem engineInv_main_frame (h : EngineInv s) {l : MainPc} (hl : s.loc .main = l)
    (hg : ((main l).glob s.glob).engines = s.glob.engines)
    (hw : ((main l).dest l s.glob ok).base.early = true →
      l.base.early = true ∧ (main l).creates s.glob ≠ some .sigHandlerManual)
    (hslot : EngineSlot s.glob l.base (s.loc .sigHandlerManual) →
      EngineSlot ((main l).glob s.glob) ((main l).dest l s.glob ok).base (s.loc .sigHandlerManual))
    (hce : ∀ n, (main l).creates s.glob ≠ some (.pricipalEngineThread n)) :
    EngineInv (sistema.effect s .main ok) := by
  have hop : sistema.op s .main = main l := congrArg (sistema.code .main) hl
  have hh : (sistema.effect s .main ok).loc .sigHandlerManual = s.loc .sigHandlerManual :=
    effect_loc_of_ne nofun
  have hm : (sistema.effect s .main ok).loc .main = (main l).dest l s.glob ok := by
    rw [effect_loc_self, hop, hl]
  have hgl : (sistema.effect s .main ok).glob = (main l).glob s.glob := by
    rw [effect_glob, hop]
  have hlife : ∀ u : Tid, u ≠ .main → (main l).creates s.glob ≠ some u →
      (sistema.effect s .main ok).life u = s.life u := by
    intro u hu hc
    rw [effect_life_of_ne hu, hop, if_neg hc]
  refine h.frame (hgl ▸ hg) ?_ ?_ hh ?_ fun u => effect_cancelled_mono
  · intro he
    rw [hm] at he
    exact ⟨hl ▸ (hw he).1, hlife .sigHandlerManual nofun (hw he).2⟩
  · rw [hgl, hm, hh]
    exact hslot (hl ▸ h.slot)
  · intro n hn
    exact ⟨(hlife (.pricipalEngineThread n) nofun (hce n)).trans hn,
      effect_loc_of_ne (engine_ne_main n)⟩

/-- The steps of `main` that create nobody. -/
theorem engineInv_main_still (h : EngineInv s) {l : MainPc} (hl : s.loc .main = l)
    (hc : (main l).creates s.glob = none)
    (hg : ((main l).glob s.glob).engines = s.glob.engines)
    (hw : ((main l).dest l s.glob ok).base.early = true → l.base.early = true)
    (hslot : EngineSlot s.glob l.base (s.loc .sigHandlerManual) →
      EngineSlot ((main l).glob s.glob) ((main l).dest l s.glob ok).base (s.loc .sigHandlerManual)) :
    EngineInv (sistema.effect s .main ok) := by
  have hne : ∀ u, (main l).creates s.glob ≠ some u := by
    intro u hu
    rw [hc] at hu
    cases hu
  exact engineInv_main_frame h hl hg (fun he => ⟨hw he, hne _⟩) hslot fun n => hne _

/-- `main` creates the first engine. -/
theorem engineInv_main_createPe (h : EngineInv s) (hl : s.loc .main = .createPe) :
    EngineInv (sistema.effect s .main ok) := by
  have hop : sistema.op s .main = main .createPe := congrArg (sistema.code .main) hl
  have hh : (sistema.effect s .main ok).loc .sigHandlerManual = s.loc .sigHandlerManual :=
    effect_loc_of_ne nofun
  have hm : (sistema.effect s .main ok).loc .main =
      .storePe (.pricipalEngineThread s.glob.engines) := by
    rw [effect_loc_self, hop]
    rfl
  have hgl : (sistema.effect s .main ok).glob.engines = s.glob.engines + 1 := by
    rw [effect_glob, hop]
    rfl
  have h0 : s.glob.engines = 0 := by
    have := h.slot
    rwa [hl] at this
  have hlife : ∀ u : Tid, u ≠ .main → u ≠ .pricipalEngineThread s.glob.engines →
      (sistema.effect s .main ok).life u = s.life u := by
    intro u hu hne
    rw [effect_life_of_ne hu, hop, if_neg]
    intro hc
    exact hne (Option.some.inj hc).symm
  obtain ⟨hw1, hw2⟩ := h.waiting (by rw [hl]; rfl)
  refine ⟨?_, ?_, ?_, ?_, ?_⟩
  · intro _
    exact ⟨(hlife .sigHandlerManual nofun nofun).trans hw1, hh.trans hw2⟩
  · rw [hm]
    exact ⟨by rw [hgl, h0], by rw [h0]⟩
  · intro n hn
    rw [hgl] at hn
    obtain ⟨h1, h2⟩ := h.unborn n (by omega)
    refine ⟨(hlife (.pricipalEngineThread n) nofun ?_).trans h1,
      (effect_loc_of_ne (engine_ne_main n)).trans h2⟩
    intro he
    cases he
    omega
  · intro n hn
    omega
  · intro hr
    rw [hh, hw2] at hr
    cases hr

theorem engineInv_main (h : EngineInv s) : EngineInv (sistema.effect s .main ok) := by
  cases hl : s.loc .main with
  | createPe => exact engineInv_main_createPe h hl
  | createGyros p =>
    have hne : ∀ u : Tid, u.ofGyro = false → (main (.createGyros p)).creates s.glob ≠ some u := by
      intro u hu hc
      rw [createSignalsGyros_creates hc] at hu
      cases hu
    refine engineInv_main_frame h hl ?_ (fun _ => ⟨rfl, hne _ rfl⟩) ?_ fun n => hne _ rfl
    · cases p <;> rfl
    · intro hs
      cases p with
      | storeThread i u => obtain rfl | rfl := gyro_cases i <;> exact hs
      | _ => exact hs
  | handler saved p =>
    have hb : ∀ q, (MainPc.handler saved q).base = saved.base := fun q => rfl
    cases p with
    | exit => exact engineInv_main_still h hl rfl rfl (fun he => he) (fun hs => hs)
    | _ =>
      refine engineInv_main_still h hl rfl rfl (fun he => ?_) (fun hs => ?_)
      · simp only [main, terminteProgram, Op.dest] at he
        split at he <;> exact he
      · simp only [main, terminteProgram, Op.dest, Op.glob]
        split <;> exact hs
  | storePe u =>
    have hw := (h.waiting (by rw [hl]; rfl)).2
    refine engineInv_main_still h hl rfl rfl (fun _ => rfl) ?_
    rintro ⟨h1, rfl⟩
    rw [hw]
    refine ⟨h1.ge, ?_⟩
    simp [ManualPc.engineSlot, h1, main, Op.glob, storeThread, put]
  | storeGoUp u => exact engineInv_main_still h hl rfl rfl (fun _ => rfl) (fun hs => hs)
  | head | test | post =>
    refine engineInv_main_still h hl rfl rfl (fun he => ?_) (fun hs => ?_)
    · simp only [main, Op.dest] at he
      split at he <;> cases he
    · simp only [main, Op.dest, Op.glob]
      split <;> exact hs
  | createManual =>
    refine engineInv_main_frame h hl rfl (fun he => ?_) (fun hs => hs) fun n hc => ?_
    · cases he
    · cases hc
  | storeManual u | lockRead | reset | unlockRead | exit =>
    refine engineInv_main_still h hl rfl rfl (fun he => ?_) (fun hs => hs)
    cases he
  | _ =>
    refine engineInv_main_frame h hl rfl (fun _ => ⟨rfl, fun hc => ?_⟩) (fun hs => hs) fun n hc => ?_
    · cases hc
    · cases hc

/-- The handler is inside `manage_principal_engine`. -/
def ManualPc.managing : ManualPc → Bool
  | .manage _ _ => true
  | _ => false

/-- The array has the engine in it, outside of the replacement. -/
def ManualPc.settled : ManualPc → Bool
  | .manage _ .create | .manage _ (.store _) => false
  | _ => true

theorem ManualPc.engineSlot_settled {l : ManualPc} (h : l.settled = true) (g : Shared) :
    l.engineSlot g ↔ g.arrayThreads 2 = some (.pricipalEngineThread (g.engines - 1)) := by
  cases l with
  | manage a p =>
    cases p with
    | create | store => cases h
    | _ => exact Iff.rfl
  | _ => exact Iff.rfl

theorem EngineSlot.settle {g : Shared} {lm : MainPc} {lh lh' : ManualPc} (h : EngineSlot g lm lh)
    (hl : lh.settled = true) (hl' : lh'.settled = true) : EngineSlot g lm lh' := by
  unfold EngineSlot at h ⊢
  simpa only [ManualPc.engineSlot_settled hl, ManualPc.engineSlot_settled hl'] using h

theorem creates_none {l : ManualPc} {g : Shared} (h : (sigHandlerManual l).creates g = none) :
    ∀ u, (sigHandlerManual l).creates g = some u → u.ofGyro = true := by
  intro u hu
  rw [h] at hu
  cases hu

/-- Outside of `manage_principal_engine` the handler leaves the engine alone. -/
theorem manual_frame {l : ManualPc} (hl : l.managing = false) (g : Shared) (ok : Bool) :
    ((sigHandlerManual l).dest l g ok).settled = true ∧
      ((sigHandlerManual l).dest l g ok).replacing = false ∧
      ((sigHandlerManual l).glob g).engines = g.engines ∧
      ((sigHandlerManual l).glob g).arrayThreads 2 = g.arrayThreads 2 ∧
      ∀ u, (sigHandlerManual l).creates g = some u → u.ofGyro = true := by
  let A : ManualPc → Prop := fun l => l.settled = true ∧ l.replacing = false
  rw [← and_assoc]
  cases l with
  | manage => cases hl
  | send p =>
    refine ⟨sendMesg_dest (A := A) (fun _ => ⟨rfl, rfl⟩) ⟨rfl, rfl⟩ p, ?_, ?_, ?_⟩ <;>
      cases p <;> first | rfl | exact creates_none rfl
  | alarm a p =>
    refine ⟨sendMesg_dest (A := A) (fun _ => ⟨rfl, rfl⟩) (by split <;> exact ⟨rfl, rfl⟩) p, ?_, ?_, ?_⟩ <;>
      cases p <;> first | rfl | exact creates_none rfl
  | create a p =>
    refine ⟨?_, ?_, ?_, fun u => createSignalsGyros_creates⟩ <;> cases p with
    | storeThread i u => obtain rfl | rfl := gyro_cases i <;> first | rfl | exact ⟨rfl, rfl⟩
    | _ => first | rfl | exact ⟨rfl, rfl⟩
  | cancelGyro a i =>
    refine ⟨?_, rfl, rfl, creates_none rfl⟩
    obtain rfl | rfl := gyro_cases i <;> exact ⟨rfl, rfl⟩
  | testCode a =>
    refine ⟨?_, rfl, rfl, creates_none rfl⟩
    simp only [sigHandlerManual, Op.dest]
    split <;> cases a <;> exact ⟨rfl, rfl⟩
  | head | test =>
    refine ⟨?_, rfl, rfl, creates_none rfl⟩
    simp only [sigHandlerManual, Op.dest]
    split <;> exact ⟨rfl, rfl⟩
  | _ => exact ⟨⟨rfl, rfl⟩, rfl, rfl, creates_none rfl⟩

theorem engineSlot_late {g : Shared} {lm : MainPc} {lh : ManualPc} (h : lm.early = false) :
    EngineSlot g lm lh ↔ 1 ≤ g.engines ∧ lh.engineSlot g := by
  cases lm <;> first | exact Iff.rfl | cases h

theorem engine_ne_manual (n : ℕ) : Tid.pricipalEngineThread n ≠ .sigHandlerManual := nofun

/-- The handler runs only after `main` has created it. -/
theorem EngineInv.late (h : EngineInv s) (hr : s.Running .sigHandlerManual) :
    (s.loc .main).base.early = false := by
  by_contra he
  have := (h.waiting (by simpa using he)).1
  cases this.symm.trans hr.2

theorem engineInv_manual_frame (hr : s.Running .sigHandlerManual) (h : EngineInv s) {l : ManualPc}
    (hl : s.loc .sigHandlerManual = l)
    (hg : ((sigHandlerManual l).glob s.glob).engines = s.glob.engines)
    (hce : ∀ u, (sigHandlerManual l).creates s.glob = some u → u.ofGyro = true)
    (hslot : l.engineSlot s.glob →
      ((sigHandlerManual l).dest l s.glob ok).engineSlot ((sigHandlerManual l).glob s.glob))
    (hrep : ((sigHandlerManual l).dest l s.glob ok).replacing = true → l.replacing = true ∨
      (l.engineSlot s.glob → (sigHandlerManual l).cancels s.glob =
        some (.pricipalEngineThread (s.glob.engines - 1)))) :
    EngineInv (sistema.effect s .sigHandlerManual ok) := by
  have hop : sistema.op s .sigHandlerManual = sigHandlerManual l :=
    congrArg (sistema.code .sigHandlerManual) hl
  have hm : (sistema.effect s .sigHandlerManual ok).loc .main = s.loc .main :=
    effect_loc_of_ne nofun
  have hh : (sistema.effect s .sigHandlerManual ok).loc .sigHandlerManual =
      (sigHandlerManual l).dest l s.glob ok := by
    rw [effect_loc_self, hop, hl]
  have hgl : (sistema.effect s .sigHandlerManual ok).glob = (sigHandlerManual l).glob s.glob := by
    rw [effect_glob, hop]
  have hslot' := (engineSlot_late (h.late hr)).mp h.slot
  rw [hl] at hslot'
  refine ⟨?_, ?_, ?_, ?_, ?_⟩
  · intro he
    rw [hm, h.late hr] at he
    cases he
  · rw [hm, engineSlot_late (h.late hr), hh, hgl, hg]
    exact ⟨hslot'.1, hslot hslot'.2⟩
  · intro n hn
    rw [hgl, hg] at hn
    obtain ⟨h1, h2⟩ := h.unborn n hn
    refine ⟨?_, (effect_loc_of_ne (engine_ne_manual n)).trans h2⟩
    have hne : (sigHandlerManual l).creates s.glob ≠ some (.pricipalEngineThread n) := by
      intro hc
      cases hce _ hc
    rw [effect_life_of_ne (engine_ne_manual n), hop, if_neg hne, h1]
  · intro n hn
    rw [hgl, hg] at hn
    exact effect_cancelled_mono (h.stale n hn)
  · intro hr'
    rw [hh] at hr'
    rw [hgl, hg]
    obtain hr' | hc := hrep hr'
    · exact effect_cancelled_mono (h.replaced (hl ▸ hr'))
    · simp [effect_cancelled, hop, hc hslot'.2]

/-- The handler creates the next engine. -/
theorem engineInv_manual_create (hr : s.Running .sigHandlerManual) (h : EngineInv s) {a : Alarm}
    (hl : s.loc .sigHandlerManual = .manage a .create) :
    EngineInv (sistema.effect s .sigHandlerManual ok) := by
  have hop : sistema.op s .sigHandlerManual = sigHandlerManual (.manage a .create) :=
    congrArg (sistema.code .sigHandlerManual) hl
  have hm : (sistema.effect s .sigHandlerManual ok).loc .main = s.loc .main :=
    effect_loc_of_ne nofun
  have hh : (sistema.effect s .sigHandlerManual ok).loc .sigHandlerManual =
      .manage a (.store (.pricipalEngineThread s.glob.engines)) := by
    rw [effect_loc_self, hop]
    rfl
  have hgl : (sistema.effect s .sigHandlerManual ok).glob.engines = s.glob.engines + 1 := by
    rw [effect_glob, hop]
    rfl
  refine ⟨?_, ?_, ?_, ?_, ?_⟩
  · intro he
    rw [hm, h.late hr] at he
    cases he
  · rw [hm, engineSlot_late (h.late hr), hh, hgl]
    refine ⟨by omega, ?_⟩
    simp [ManualPc.engineSlot, hop, sigHandlerManual, managePrincipalEngine, freshEngine, Op.glob]
  · intro n hn
    rw [hgl] at hn
    obtain ⟨h1, h2⟩ := h.unborn n (by omega)
    refine ⟨?_, (effect_loc_of_ne (engine_ne_manual n)).trans h2⟩
    rw [effect_life_of_ne (engine_ne_manual n), hop, if_neg, h1]
    intro hc
    cases hc
    omega
  · intro n hn
    rw [hgl] at hn
    refine effect_cancelled_mono ?_
    by_cases hlt : n + 1 < s.glob.engines
    · exact h.stale n hlt
    · obtain rfl : n = s.glob.engines - 1 := by omega
      exact h.replaced (by rw [hl]; rfl)
  · intro hr'
    rw [hh] at hr'
    cases hr'

theorem engineInv_manual (hr : s.Running .sigHandlerManual) (h : EngineInv s) :
    EngineInv (sistema.effect s .sigHandlerManual ok) := by
  by_cases hm : (s.loc .sigHandlerManual).managing = false
  · obtain ⟨hd, hrep, hg, ha, hc⟩ := manual_frame hm s.glob ok
    refine engineInv_manual_frame hr h rfl hg hc ?_ ?_
    · intro hs
      rw [ManualPc.engineSlot_settled hd, hg, ha]
      refine (ManualPc.engineSlot_settled ?_ _).mp hs
      cases hl : s.loc .sigHandlerManual <;> first | rfl | simp [hl, ManualPc.managing] at hm
    · intro hr'
      rw [hrep] at hr'
      cases hr'
  cases hl : s.loc .sigHandlerManual with
  | manage a p =>
    cases p with
    | create => exact engineInv_manual_create hr h hl
    | cancel =>
      exact engineInv_manual_frame hr h hl rfl (creates_none rfl) (fun hs => hs) fun _ =>
        .inr fun hs => hs
    | off =>
      exact engineInv_manual_frame hr h hl rfl (creates_none rfl) (fun hs => hs) fun _ => .inl rfl
    | clear =>
      refine engineInv_manual_frame hr h hl rfl (creates_none rfl) (fun _ => ?_) fun _ => .inl rfl
      simp [ManualPc.engineSlot, sigHandlerManual, managePrincipalEngine, Op.glob, Op.dest, put]
    | store t =>
      refine engineInv_manual_frame hr h hl rfl (creates_none rfl) ?_ fun hr' => ?_
      · rintro rfl
        simp [ManualPc.engineSlot, sigHandlerManual, managePrincipalEngine, Op.glob, Op.dest, put,
          storeThread]
      · cases hr'
    | on =>
      refine engineInv_manual_frame hr h hl rfl (creates_none rfl) (fun hs => ?_) fun hr' => ?_
      · cases a <;> exact hs
      · cases a <;> cases hr'
  | _ => simp [hl, ManualPc.managing] at hm

theorem engineInv_die (hr : s.Running t) (h : EngineInv s) : EngineInv (die s t) := by
  have hlife : ∀ u : Tid, s.life u = .unborn → (die s t).life u = .unborn := by
    intro u hu
    rw [die_life_of_ne, hu]
    rintro rfl
    cases hu.symm.trans hr.2
  refine ⟨?_, ?_, ?_, ?_, ?_⟩
  · intro he
    rw [die_loc] at he
    exact ⟨hlife _ (h.waiting he).1, die_loc.trans (h.waiting he).2⟩
  · simpa using h.slot
  · intro n hn
    exact ⟨hlife _ (h.unborn n hn).1, die_loc.trans (h.unborn n hn).2⟩
  · intro n hn
    simpa using h.stale n hn
  · intro hr'
    rw [die_loc] at hr'
    simpa using h.replaced hr'

theorem manual_interruptible {l : ManualPc} (h : (sigHandlerManual l).interruptible = true) :
    l.managing = false := by
  cases l with
  | manage a p => cases p <;> cases h
  | _ => rfl

theorem main_not_interruptible (l : MainPc) : (main l).interruptible = false := by
  cases l with
  | createGyros p => cases p <;> rfl
  | handler saved p => cases p <;> rfl
  | _ => rfl

theorem engineInv_wake (hr : s.Running t) (h : EngineInv s) : EngineInv (sistema.wake s t) := by
  have hm : (sistema.wake s t).loc .main = s.loc .main := by
    by_cases ht : t = .main
    · subst ht
      rw [wake_loc_self, if_neg]
      simp [Program.op, sistema, code, main_not_interruptible]
    · exact wake_loc_of_ne (Ne.symm ht)
  have hh : (sistema.wake s t).loc .sigHandlerManual = s.loc .sigHandlerManual ∨
      (s.loc .sigHandlerManual).settled = true ∧
        ((sistema.wake s t).loc .sigHandlerManual).settled = true ∧
        ((sistema.wake s t).loc .sigHandlerManual).replacing = false := by
    by_cases ht : t = .sigHandlerManual
    · subst ht
      rw [wake_loc_self]
      split
      · rename_i hi
        have hm := manual_interruptible hi
        refine .inr ⟨?_, (manual_frame hm _ _).1, (manual_frame hm _ _).2.1⟩
        cases hl : s.loc .sigHandlerManual <;> first | rfl | simp [hl, ManualPc.managing] at hm
      · exact .inl rfl
    · exact .inl (wake_loc_of_ne (Ne.symm ht))
  refine ⟨?_, ?_, ?_, ?_, ?_⟩
  · intro he
    rw [hm] at he
    obtain ⟨h1, h2⟩ := h.waiting he
    refine ⟨wake_life.trans h1, (wake_loc_of_ne ?_).trans h2⟩
    rintro rfl
    cases h1.symm.trans hr.2
  · rw [hm]
    obtain hh | ⟨h1, h2, _⟩ := hh
    · rw [hh]
      exact h.slot
    · exact h.slot.settle h1 h2
  · intro n hn
    obtain ⟨h1, h2⟩ := h.unborn n hn
    refine ⟨wake_life.trans h1, (wake_loc_of_ne ?_).trans h2⟩
    rintro rfl
    cases h1.symm.trans hr.2
  · intro n hn
    simpa using h.stale n hn
  · intro hr'
    obtain hh | ⟨_, _, h2⟩ := hh
    · rw [hh] at hr'
      simpa using h.replaced hr'
    · rw [h2] at hr'
      cases hr'

theorem engineInv_step (hs : sistema.Step s a s') (h : EngineInv s) : EngineInv s' := by
  cases hs with
  | @exec t ok hr _ _ =>
    by_cases hm : t = .main
    · subst hm
      exact engineInv_main h
    by_cases hh : t = .sigHandlerManual
    · subst hh
      exact engineInv_manual hr h
    · exact engineInv_other hm hh hr h
  | die hr => exact engineInv_die hr h
  | cont hr => exact engineInv_wake hr h
  | @int t l hr _ hl =>
    cases t with
    | main =>
      have hb : l.base = (s.loc .main).base := by
        cases hl' : s.loc .main <;> rw [hl'] at hl <;> cases hl <;> rfl
      have hh : (handle s .main l).loc .sigHandlerManual = s.loc .sigHandlerManual :=
        handle_loc_of_ne nofun
      refine h.frame rfl ?_ ?_ hh ?_ fun u hu => handle_cancelled.trans hu
      · intro he
        rw [handle_loc_self, hb] at he
        exact ⟨he, handle_life⟩
      · rw [handle_loc_self, hb, hh]
        exact h.slot
      · intro n hn
        exact ⟨handle_life.trans hn, handle_loc_of_ne (engine_ne_main n)⟩
    | _ => cases hl
  | env e hr =>
    cases e <;> exact h.frame rfl (fun he => ⟨he, rfl⟩) h.slot rfl (fun n hn => ⟨hn, rfl⟩) fun _ => id

variable {C : State → Label → Prop} {inp : Input} {tr : List Label}

/-- In every run the array holds the last engine but while the handler replaces
it, and every engine before the last one is cancelled. -/
theorem engineInv (h : sistema.Run C (init inp) tr s) : EngineInv s :=
  h.invariant (engineInv_init inp) fun _ _ _ hi hs _ => engineInv_step hs hi

/-! ## What the replaced engines still do -/

/-- The number of an engine. -/
def Tid.engine : Tid → Option ℕ
  | .pricipalEngineThread n => some n
  | _ => none

/-- `pthread_cancel` in `manage_principal_engine`. -/
def cancelsEngine : Label → Bool
  | .exec .sigHandlerManual (.manage _ .cancel) _ => true
  | _ => false

/-- The engine of the array is at a location of `A` whenever the handler cancels it. -/
def CancelsAt (A : EnginePc → Prop) (s : State) (a : Label) : Prop :=
  cancelsEngine a = true →
    ∀ n ∈ (s.glob.arrayThreads 2).bind Tid.engine, A (s.loc (.pricipalEngineThread n))

instance (A : EnginePc → Prop) [DecidablePred A] (s : State) (a : Label) :
    Decidable (CancelsAt A s a) :=
  inferInstanceAs (Decidable (_ → ∀ n ∈ (s.glob.arrayThreads 2).bind Tid.engine, A _))

/-- Engines stay in `A` once they are replaced. -/
structure Replaced (A : EnginePc → Prop) (s : State) : Prop where
  stale : ∀ n, n + 1 < s.glob.engines → A (s.loc (.pricipalEngineThread n))
  current : (s.loc .sigHandlerManual).replacing = true →
    A (s.loc (.pricipalEngineThread (s.glob.engines - 1)))

/-- After `main` only the handler creates engines. -/
theorem engines_step (hs : sistema.Step s a s') (h : EngineInv s) :
    s'.glob.engines = s.glob.engines ∨ s'.glob.engines = s.glob.engines + 1 ∧
      (s.glob.engines = 0 ∨ ∃ c ok, a = .exec .sigHandlerManual (.manage c .create) ok) := by
  obtain ⟨t, l, ok, rfl, -, hl, hw⟩ | ⟨w, -, hw⟩ | hw := step_writes hs
  · generalize s'.glob = g' at hw
    cases hw with
    | createPe =>
      have h0 := h.slot
      rw [hl] at h0
      exact .inr ⟨rfl, .inl h0⟩
    | @manageCreate c => exact .inr ⟨rfl, .inr ⟨c, ok, rfl⟩⟩
    | descend =>
      left
      unfold descend
      split <;> rfl
    | _ => exact .inl rfl
  · rw [hw]
    cases w <;> exact .inl rfl
  · exact .inl (congrArg Shared.engines hw)

/-- The replacement starts with the cancellation. -/
theorem replacing_step (hs : sistema.Step s a s')
    (h : (s'.loc .sigHandlerManual).replacing = true) :
    (s.loc .sigHandlerManual).replacing = true ∨
      ∃ c ok, a = .exec .sigHandlerManual (.manage c .cancel) ok := by
  have hop : sistema.op s .sigHandlerManual = sigHandlerManual (s.loc .sigHandlerManual) := rfl
  refine step_slice hs .sigHandlerManual
    (I := fun l _ => ManualPc.replacing l = true → (s.loc .sigHandlerManual).replacing = true ∨
      ∃ c ok, a = .exec .sigHandlerManual (.manage c .cancel) ok) .inl ?_ ?_ ?_ ?_ ?_ h
  · rintro ok rfl _ _ h
    rw [hop] at h
    cases hl : s.loc .sigHandlerManual with
    | manage c p =>
      rw [hl] at h
      cases p with
      | cancel => exact .inr ⟨c, ok, rfl⟩
      | off | clear => exact .inl rfl
      | create | store => cases h
      | on => cases c <;> cases h
    | _ =>
      rw [(manual_frame (by rw [hl]; rfl) _ _).2.1] at h
      cases h
  · intro _ _ _ _ _
    exact .inl
  · intro _ hi h
    rw [hop, (manual_frame (manual_interruptible hi) _ _).2.1] at h
    cases h
  · intro l _ hl
    cases hl
  · intro _ _
    exact .inl

section Replaced
variable {A : EnginePc → Prop}

theorem replaced_init (inp : Input) : Replaced A (init inp) where
  stale _ h := absurd h (Nat.not_lt_zero _)
  current h := by cases h

theorem cancelled_step (hA : ∀ l g ok, A l → (pricipalEngineThread l).cancelPoint = false ∨
      (pricipalEngineThread l).interruptible = true → A ((pricipalEngineThread l).dest l g ok))
    (hs : sistema.Step s a s') {n : ℕ} (hc : s.cancelled (.pricipalEngineThread n) = true)
    (h : A (s.loc (.pricipalEngineThread n))) : A (s'.loc (.pricipalEngineThread n)) := by
  obtain he | ⟨ok, he, hp⟩ | he := step_loc_of_cancelled hs hc
  · exact he ▸ h
  · exact he ▸ hA _ _ _ h hp
  · cases he

theorem replaced_step (hA : ∀ l g ok, A l → (pricipalEngineThread l).cancelPoint = false ∨
      (pricipalEngineThread l).interruptible = true → A ((pricipalEngineThread l).dest l g ok))
    (hs : sistema.Step s a s') (hi : EngineInv s) (hc : CancelsAt A s a) (h : Replaced A s) :
    Replaced A s' := by
  refine ⟨fun n hn => ?_, fun hr => ?_⟩
  · obtain he | ⟨he, he'⟩ := engines_step hs hi
    · rw [he] at hn
      exact cancelled_step hA hs (hi.stale n hn) (h.stale n hn)
    · by_cases hlt : n + 1 < s.glob.engines
      · exact cancelled_step hA hs (hi.stale n hlt) (h.stale n hlt)
      · obtain h0 | ⟨c, ok, rfl⟩ := he'
        · omega
        · have hr : (s.loc .sigHandlerManual).replacing = true := by
            rw [hs.exec_inv.1]
            rfl
          obtain rfl : n = s.glob.engines - 1 := by omega
          exact cancelled_step hA hs (hi.replaced hr) (h.current hr)
  · have hlate : 1 ≤ s.glob.engines ∧ (s.loc .sigHandlerManual).engineSlot s.glob := by
      refine (engineSlot_late ?_).mp hi.slot
      obtain hr' | ⟨c, ok, rfl⟩ := replacing_step hs hr
      · by_contra he
        rw [(hi.waiting (by simpa using he)).2] at hr'
        cases hr'
      · exact hi.late hs.exec_inv.2.1
    have heq : s'.glob.engines = s.glob.engines := by
      obtain he | ⟨_, h0 | ⟨c, ok, rfl⟩⟩ := engines_step hs hi
      · exact he
      · omega
      · obtain ⟨hl, _, _, _, rfl⟩ := hs.exec_inv
        rw [effect_loc_self, Program.op, hl] at hr
        cases hr
    rw [heq]
    obtain hr' | ⟨c, ok, rfl⟩ := replacing_step hs hr
    · exact cancelled_step hA hs (hi.replaced hr') (h.current hr')
    · obtain ⟨hl, _, _, _, rfl⟩ := hs.exec_inv
      have harr : s.glob.arrayThreads 2 = some (.pricipalEngineThread (s.glob.engines - 1)) := by
        have := hlate.2
        rwa [hl] at this
      rw [effect_loc_of_ne (engine_ne_manual _)]
      exact hc rfl _ (by rw [harr]; rfl)

/-- Locations that a cancelled engine cannot leave hold every replaced one. -/
theorem replaced_run {C : State → Label → Prop} {inp : Input} {tr : List Label}
    (hA : ∀ l g ok, A l → (pricipalEngineThread l).cancelPoint = false ∨
      (pricipalEngineThread l).interruptible = true → A ((pricipalEngineThread l).dest l g ok))
    (hC : ∀ s a, C s a → CancelsAt A s a) (h : sistema.Run C (init inp) tr s) : Replaced A s := by
  refine (h.invariant (I := fun s => EngineInv s ∧ Replaced A s)
    ⟨engineInv_init inp, replaced_init inp⟩ ?_).2
  intro s a s' ⟨hi, hr⟩ hs hc
  exact ⟨engineInv_step hs hi, replaced_step hA hs hi (hC s a hc) hr⟩

end Replaced

end Sistema
