import SistemasOperativos.Simulador.Code
import SistemasOperativos.Sistema.Calls
import SistemasOperativos.Threads.Blind

/-!
# The controller and the simulator

The two programs on the five blocks. The controller keeps its height and its fuel to itself:
it copies `distance` to the first block and never reads that block again, so that the descent
of the simulator, which goes on there, does not reach it.
-/
namespace Joint

open Threads Threads.Program Sistema Simulador

/-! ## What the controller does not see -/

/-- The memories differ in `*dit_block` alone. -/
def Shown (g g' : Shared) : Prop := ∃ v, g' = { g with ditBlock := v }

/-- The memories differ in the blocks alone. -/
def Beyond (g g' : Shared) : Prop :=
  ∃ d gyros a, g' = { g with ditBlock := d, gyros := gyros, alarma := a }

theorem Shown.symm {g g' : Shared} : Shown g g' → Shown g' g := by
  rintro ⟨v, rfl⟩
  exact ⟨g.ditBlock, rfl⟩

theorem Shown.trans {g g' g'' : Shared} : Shown g g' → Shown g' g'' → Shown g g'' := by
  rintro ⟨v, rfl⟩ ⟨v', rfl⟩
  exact ⟨v', rfl⟩

theorem Shown.apply {g g' : Shared} (w : Write) : Shown g g' → Shown (w.apply g) (w.apply g') := by
  rintro ⟨v, rfl⟩
  cases w <;> exact ⟨v, rfl⟩

theorem Shown.beyond {g g' : Shared} : Shown g g' → Beyond g g' := by
  rintro ⟨v, rfl⟩
  exact ⟨v, g.gyros, g.alarma, rfl⟩

section Controller
variable {K : Type}

/-- An operation that computes the same whatever is in the block. -/
theorem respects_of_eq {o : Sistema.Instr K} (h : ∀ g v,
    (∀ l ok, o.dest l { g with ditBlock := v } ok = o.dest l g ok) ∧
    (∃ v', o.glob { g with ditBlock := v } = { o.glob g with ditBlock := v' }) ∧
    o.creates { g with ditBlock := v } = o.creates g ∧
    o.cancels { g with ditBlock := v } = o.cancels g ∧
    ∀ sig, o.signals sig { g with ditBlock := v } = o.signals sig g) : o.Respects Shown where
  dest := by
    rintro g _ ⟨v, rfl⟩ l ok
    exact ((h g v).1 l ok).symm
  glob := by
    rintro g _ ⟨v, rfl⟩
    exact (h g v).2.1
  creates := by
    rintro g _ ⟨v, rfl⟩
    exact (h g v).2.2.1.symm
  cancels := by
    rintro g _ ⟨v, rfl⟩
    exact (h g v).2.2.2.1.symm
  signals := by
    rintro g _ ⟨v, rfl⟩ sig
    exact ((h g v).2.2.2.2 sig).symm

theorem sendMesg_shown {m : Msg} {pc : SendPc → K} {k : K} (p : SendPc) :
    (sendMesg m pc k p).Respects Shown := by
  cases p <;> exact respects_of_eq fun g v => ⟨fun _ _ => rfl, ⟨v, rfl⟩, rfl, rfl, fun _ => rfl⟩

theorem changeAction_shown {e : Event} {pc : ChangePc → K} {k : K} (p : ChangePc) :
    (changeAction e pc k p).Respects Shown := by
  cases p <;> exact respects_of_eq fun g v => ⟨fun _ _ => rfl, ⟨v, rfl⟩, rfl, rfl, fun _ => rfl⟩

theorem createSignalsGyros_shown {all : Bool} {pc : CreatePc → K} {k : K} (p : CreatePc) :
    (createSignalsGyros all pc k p).Respects Shown := by
  cases p <;> exact respects_of_eq fun g v => ⟨fun _ _ => rfl, ⟨v, rfl⟩, rfl, rfl, fun _ => rfl⟩

theorem managePrincipalEngine_shown {pc : ManagePc → K} {k : K} (p : ManagePc) :
    (managePrincipalEngine pc k p).Respects Shown := by
  cases p <;> exact respects_of_eq fun g v => ⟨fun _ _ => rfl, ⟨v, rfl⟩, rfl, rfl, fun _ => rfl⟩

theorem terminteProgram_shown {pc : TerminatePc → K} (p : TerminatePc) :
    (terminteProgram pc p).Respects Shown := by
  cases p <;> exact respects_of_eq fun g v => ⟨fun _ _ => rfl, ⟨v, rfl⟩, rfl, rfl, fun _ => rfl⟩

end Controller

/-- No operation of the controller depends on the block. -/
theorem code_shown (t : Sistema.Tid) (l : Sistema.Loc t) : (Sistema.code t l).Respects Shown := by
  cases t with
  | main =>
    cases l with
    | createGyros p => exact createSignalsGyros_shown p
    | handler saved p => exact terminteProgram_shown p
    | _ => exact respects_of_eq fun g v => ⟨fun _ _ => rfl, ⟨v, rfl⟩, rfl, rfl, fun _ => rfl⟩
  | signalGyro i =>
    cases l with
    | send m p => exact sendMesg_shown p
    | _ => exact respects_of_eq fun g v => ⟨fun _ _ => rfl, ⟨v, rfl⟩, rfl, rfl, fun _ => rfl⟩
  | gyroscopeThread i n =>
    cases l <;> exact respects_of_eq fun g v => ⟨fun _ _ => rfl, ⟨v, rfl⟩, rfl, rfl, fun _ => rfl⟩
  | pricipalEngineThread n =>
    cases l with
    | send m p => exact sendMesg_shown p
    | descend =>
      refine respects_of_eq fun g v => ⟨fun _ _ => rfl, ?_, rfl, rfl, fun _ => rfl⟩
      show ∃ v', descend { g with ditBlock := v } = { descend g with ditBlock := v' }
      unfold descend
      split
      · exact ⟨_, rfl⟩
      · exact ⟨v, rfl⟩
    | _ => exact respects_of_eq fun g v => ⟨fun _ _ => rfl, ⟨v, rfl⟩, rfl, rfl, fun _ => rfl⟩
  | signalRestartLanding =>
    cases l with
    | send m p => exact sendMesg_shown p
    | change p => exact changeAction_shown p
    | _ => exact respects_of_eq fun g v => ⟨fun _ _ => rfl, ⟨v, rfl⟩, rfl, rfl, fun _ => rfl⟩
  | goUp30m =>
    cases l with
    | create p => exact createSignalsGyros_shown p
    | change p => exact changeAction_shown p
    | test time =>
      by_cases h : time < 5
      · refine respects_of_eq fun g v => ⟨fun _ _ => ?_, ⟨v, ?_⟩, rfl, rfl, fun _ => rfl⟩ <;>
          simp [Sistema.code, goUp30m, Op.dest, Op.glob, h]
      · refine respects_of_eq fun g v => ⟨fun _ _ => ?_, ⟨v, ?_⟩, rfl, rfl, fun _ => rfl⟩ <;>
          simp [Sistema.code, goUp30m, Op.dest, Op.glob, h]
    | _ => exact respects_of_eq fun g v => ⟨fun _ _ => rfl, ⟨v, rfl⟩, rfl, rfl, fun _ => rfl⟩
  | signalExploteRocket =>
    cases l with
    | send m p | abort p => exact sendMesg_shown p
    | _ => exact respects_of_eq fun g v => ⟨fun _ _ => rfl, ⟨v, rfl⟩, rfl, rfl, fun _ => rfl⟩
  | signalLandingCheck =>
    cases l with
    | send m p | report d p => exact sendMesg_shown p
    | change d p => exact changeAction_shown p
    | _ => exact respects_of_eq fun g v => ⟨fun _ _ => rfl, ⟨v, rfl⟩, rfl, rfl, fun _ => rfl⟩
  | sigHandlerManual =>
    cases l with
    | send p | alarm a p => exact sendMesg_shown p
    | create a p => exact createSignalsGyros_shown p
    | manage a p => exact managePrincipalEngine_shown p
    | _ => exact respects_of_eq fun g v => ⟨fun _ _ => rfl, ⟨v, rfl⟩, rfl, rfl, fun _ => rfl⟩

/-! ## The two programs together -/

/-- `param[i + 2]`. -/
def giro (i : Gyro) : Block := if i = 0 then .giro1 else .giro2

/-- The five blocks as the controller finds them when it starts. -/
def input (b : Blocks) : Input where
  distancia := b .distancia
  nivel := b .nivel
  giros := fun i => b (giro i)
  alarma := b .alarma

/-- The blocks after a step of the controller. -/
def toBlocks (g : Shared) (b : Blocks) : Blocks
  | .distancia => g.ditBlock
  | .nivel => b .nivel
  | .giro1 => g.gyros 0
  | .giro2 => g.gyros 1
  | .alarma => g.alarma

/-- The memory of the controller after a step of the simulator. -/
def fromBlocks (b : Blocks) (g : Shared) : Shared :=
  { g with
    ditBlock := b .distancia
    gyros := fun i => b (giro i)
    alarma := b .alarma }

/-- Each program has its copy of the blocks. -/
structure State where
  ctl : Sistema.State
  sim : Simulador.State

abbrev Label := Sistema.Label ⊕ Simulador.Label

variable {u : Session} {y : Simulador.State} {tr : List Label} {s : State}

/-- The controller starts at any time after the simulator, and each step of either program
is seen by the other at once. -/
inductive Run (u : Session) (y : Simulador.State) : List Label → State → Prop
  | start (h : (simulador u).Reachable (Simulador.init u) y) :
      Run u y [] ⟨Sistema.init (input y.glob), y⟩
  | controller {tr : List Label} {s : State} {a : Sistema.Label} {c : Sistema.State}
      (hr : Run u y tr s) (hs : sistema.Step s.ctl a c) (ha : ∀ e, a ≠ .env e) :
      Run u y (tr ++ [.inl a]) ⟨c, { s.sim with glob := toBlocks c.glob s.sim.glob }⟩
  | simulator {tr : List Label} {s : State} {a : Simulador.Label} {z : Simulador.State}
      (hr : Run u y tr s) (hs : (simulador u).Step s.sim a z) :
      Run u y (tr ++ [.inr a]) ⟨{ s.ctl with glob := fromBlocks z.glob s.ctl.glob }, z⟩

/-- Both copies are the same. -/
structure Synced (b : Blocks) (g : Shared) : Prop where
  ditBlock : g.ditBlock = b .distancia
  gyros : g.gyros = fun i => b (giro i)
  alarma : g.alarma = b .alarma

theorem synced_toBlocks (g : Shared) (b : Blocks) : Synced (toBlocks g b) g := by
  refine ⟨rfl, ?_, rfl⟩
  funext i
  match i with
  | 0 | 1 => rfl

theorem synced (h : Run u y tr s) : Synced s.sim.glob s.ctl.glob := by
  cases h with
  | start => exact ⟨rfl, rfl, rfl⟩
  | controller => exact synced_toBlocks _ _
  | simulator => exact ⟨rfl, rfl, rfl⟩

/-! ## A step of the simulator -/

/-- What a step of the simulator stores. -/
def stores : Simulador.Label → Option (Block × ℤ)
  | .exec .main (.scanf k stdin) _ => (Text.scanD stdin).1.map (target k, ·)
  | .exec .main (.handler .alarm) _ => some (.alarma, 101)
  | .exec .descender (.storeDistancia v) _ => some (.distancia, v)
  | .exec .descender (.storeNivel v) _ => some (.nivel, v)
  | .exec .descender .alarm _ => some (.alarma, 101)
  | .exec .descender (.handler .alarm) _ => some (.alarma, 101)
  | _ => none

/-- The stores that the controller can see. -/
def asWrite : Block × ℤ → Option Write
  | (.giro1, v) => some (.gyro 0 v)
  | (.giro2, v) => some (.gyro 1 v)
  | (.alarma, v) => some (.alarma v)
  | _ => none

def view : Label → Option Sistema.Label
  | .inl a => some a
  | .inr a => ((stores a).bind asWrite).map .env

theorem simulador_stores {x z : Simulador.State} {a : Simulador.Label}
    (hs : (simulador u).Step x a z) :
    z.glob = (stores a).elim x.glob fun w => put w.1 w.2 x.glob := by
  cases hs with
  | @exec t ok _ _ _ =>
    rw [effect_glob]
    show (Simulador.code t (x.loc t)).glob x.glob = _
    cases t with
    | main =>
      cases hl : x.loc .main with
      | printf stdin => rfl
      | scanf k stdin =>
        simp only [Simulador.code, Simulador.main, Op.glob, stores]
        split <;> rename_i h <;> simp [h]
      | handler p => cases p <;> rfl
    | descender =>
      cases hl : x.loc .descender with
      | handler p => cases p <;> rfl
      | _ => rfl
  | die | cont | int => rfl
  | env e => exact e.elim

/-- What it stores is a write that the controller can see, or changes nothing that it can
see. -/
theorem fromBlocks_put {b : Blocks} {g : Shared} (h : Synced b g) (w : Block × ℤ) :
    Shown ((asWrite w).elim g fun e => e.apply g) (fromBlocks (Simulador.put w.1 w.2 b) g) := by
  obtain ⟨k, v⟩ := w
  refine ⟨Simulador.put k v b .distancia, ?_⟩
  have hg : ∀ i, b (giro i) = g.gyros i := fun i => (congrFun h.gyros i).symm
  have hput : (fun i => Simulador.put k v b (giro i)) =
      ((asWrite (k, v)).elim g fun e => e.apply g).gyros := by
    funext i
    match i with
    | 0 => cases k <;> simp [asWrite, Write.apply, giro, Simulador.put, Sistema.put, ← hg]
    | 1 => cases k <;> simp [asWrite, Write.apply, giro, Simulador.put, Sistema.put, ← hg]
  unfold fromBlocks
  rw [hput]
  cases k <;> simp [asWrite, Write.apply, Simulador.put, h.alarma]

/-! ## The controller alone -/

/-- The steps of the controller itself. -/
def own : Sistema.Label → Bool
  | .env _ => false
  | _ => true

/-- A run of the controller alone that does what it does in a joint run. -/
structure Alone (y : Simulador.State) (tr : List Label) (s : State) (tr' : List Sistema.Label)
    (c : Sistema.State) : Prop where
  run : sistema.Run Any (Sistema.init (input y.glob)) tr' c
  steps : tr'.filter own = tr.filterMap Sum.getLeft?
  trace : s.ctl.ended = false → tr' = tr.filterMap view
  shown : s.ctl.ended = false → Shown s.ctl.glob c.glob
  alike : s.ctl.Alike Beyond c

theorem Alone.controller {tr' : List Sistema.Label} {a : Sistema.Label} {c k : Sistema.State}
    (h : Alone y tr s tr' c) (hs : sistema.Step s.ctl a k) (ha : own a = true) {b : Blocks} :
    ∃ c', Alone y (tr ++ [.inl a]) ⟨k, { s.sim with glob := b }⟩ (tr' ++ [a]) c' := by
  have he : s.ctl.ended = false := hs.not_ended
  obtain ⟨c', hc, hk⟩ := alike_step code_shown (fun w => Shown.apply w)
    ⟨h.alike.thr, h.alike.sem, h.shown he, h.alike.ended⟩ hs
  refine ⟨c', .snoc h.run hc trivial, ?_, fun _ => ?_, fun _ => hk.glob, ?_⟩
  · simp [h.steps, ha]
  · simp [h.trace he, view]
  · exact ⟨hk.thr, hk.sem, hk.glob.beyond, hk.ended⟩

theorem Alone.simulator {tr' : List Sistema.Label} {a : Simulador.Label} {c : Sistema.State}
    {z : Simulador.State} (h : Alone y tr s tr' c) (hsync : Synced s.sim.glob s.ctl.glob)
    (hs : (simulador u).Step s.sim a z) : ∃ tr'' c', Alone y (tr ++ [.inr a])
      ⟨{ s.ctl with glob := fromBlocks z.glob s.ctl.glob }, z⟩ tr'' c' := by
  have hsteps : (tr ++ [Sum.inr a]).filterMap Sum.getLeft? = tr.filterMap Sum.getLeft? := by simp
  cases he : s.ctl.ended with
  | true =>
    -- the writes that come after its end are not in the run of the controller
    obtain ⟨d, gyros, a, hg⟩ := h.alike.glob
    refine ⟨tr', c, h.run, hsteps ▸ h.steps, ?_, ?_, ?_⟩
    · intro hf
      rw [he] at hf
      cases hf
    · intro hf
      rw [he] at hf
      cases hf
    · exact ⟨h.alike.thr, h.alike.sem, ⟨d, gyros, a, by rw [hg]; rfl⟩, h.alike.ended⟩
  | false =>
    have hz : Shown (((stores a).bind asWrite).elim s.ctl.glob fun e => e.apply s.ctl.glob)
        (fromBlocks z.glob s.ctl.glob) := by
      rw [simulador_stores hs]
      cases stores a with
      | none => exact ⟨s.sim.glob .distancia, by
          simp [fromBlocks, ← hsync.gyros, ← hsync.alarma]⟩
      | some w => exact fromBlocks_put hsync w
    cases hw : (stores a).bind asWrite with
    | none =>
      rw [hw] at hz
      have hc := hz.symm.trans (h.shown he)
      refine ⟨tr', c, h.run, hsteps ▸ h.steps, fun _ => ?_, fun _ => hc, ?_⟩
      · simp [h.trace he, view, hw]
      · exact ⟨h.alike.thr, h.alike.sem, hc.beyond, h.alike.ended⟩
    | some e =>
      rw [hw] at hz
      have hc := hz.symm.trans ((h.shown he).apply e)
      refine ⟨tr' ++ [.env e], sistema.disturb c e, ?_, ?_, fun _ => ?_, fun _ => hc, ?_⟩
      · exact .snoc h.run (.env e (h.alike.ended ▸ he)) trivial
      · simp [h.steps, own]
      · simp [h.trace he, view, hw]
      · exact ⟨h.alike.thr, h.alike.sem, hc.beyond, h.alike.ended⟩

/-- Whatever the simulator does, the controller does what it does alone while somebody
writes to the gyroscopes and to the alarm block what the simulator writes there: its start
values, what the user types and the 101 at the end of the descent. The height and the level
of fuel that the simulator keeps never reach it. -/
theorem controller_alone (h : Run u y tr s) : ∃ tr' c, Alone y tr s tr' c := by
  induction h with
  | start => exact ⟨[], _, .nil, rfl, fun _ => rfl, fun _ => ⟨_, rfl⟩, ⟨rfl, rfl, ⟨_, _, _, rfl⟩, rfl⟩⟩
  | @controller tr s a c hr hs ha ih =>
    obtain ⟨tr', c', h⟩ := ih
    have ha : own a = true := by
      cases a with
      | env e => exact absurd rfl (ha e)
      | _ => rfl
    exact ⟨_, h.controller hs ha⟩
  | simulator hr hs ih =>
    obtain ⟨tr', c', h⟩ := ih
    exact h.simulator (synced hr) hs

/-- The simulator counts down to 8, and the controller is at 9 as before. -/
theorem height_not_shared : ∃ y tr s, Run ⟨9, 9, [], fun _ => false⟩ y tr s ∧
    s.ctl.glob.ditBlock = 8 ∧ s.ctl.glob.distance = 9 ∧ ∃ tr' c, Alone y tr s tr' c := by
  have h₀ : Run ⟨9, 9, [], fun _ => false⟩ _ [] _ := .start ⟨[], .nil⟩
  have h₁ := h₀.simulator (.exec (t := Simulador.Tid.descender) true ⟨rfl, rfl⟩ (fun _ => rfl) trivial)
  have h₂ := h₁.controller (.exec (t := Sistema.Tid.main) true ⟨rfl, rfl⟩ (fun _ => rfl) trivial) nofun
  have h₃ := h₂.simulator (.exec (t := Simulador.Tid.descender) true ⟨rfl, rfl⟩ (fun _ => rfl) trivial)
  have h₄ := h₃.simulator (.exec (t := Simulador.Tid.descender) true ⟨rfl, rfl⟩ (fun _ => rfl) trivial)
  exact ⟨_, _, _, h₄, rfl, rfl, controller_alone h₄⟩

end Joint
