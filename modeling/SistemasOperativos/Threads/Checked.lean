import SistemasOperativos.Threads.Cells

/-!
# Programs that may fail

A program over cells that stops where the value of an integer expression is not in the
range of its type.
-/
namespace Threads.Cells

variable {ι V α β : Type}

abbrev Checked (ι V α : Type) := OptionT (Prog ι V) α

namespace Checked

def get (i : ι) : Checked ι V V := OptionT.lift (Prog.get i)

def set (i : ι) (v : V) : Checked ι V Unit := OptionT.lift (Prog.set i v)

/-- The value of an expression, if it is in range. -/
def int (ok : ℤ → Bool) (n : ℤ) : Checked ι V ℤ := if ok n then pure n else failure

/-! ## Accesses -/

section Confined
variable {A B : ι → Prop} {Q : α → Prop} {R : β → Prop} {x : Checked ι V α}

/-- Every access is to a cell of `A`, and a result satisfies `Q`. -/
def Confined (A : ι → Prop) (Q : α → Prop) (x : Checked ι V α) : Prop :=
  x.run.Confined A fun o => ∀ a ∈ o, Q a

theorem confined_pure {a : α} (h : Q a) : Confined A Q (pure a : Checked ι V α) := by
  rintro b ⟨⟩
  exact h

theorem confined_get {i : ι} (h : A i) : Confined A (fun _ => True) (get i : Checked ι V V) :=
  ⟨h, fun _ _ _ => trivial⟩

theorem confined_set {i : ι} {v : V} (h : A i) : Confined A (fun _ => True) (set i v) :=
  ⟨h, fun _ _ => trivial⟩

theorem confined_int (ok : ℤ → Bool) {n : ℤ} {Q : ℤ → Prop} (h : Q n) :
    Confined A Q (int ok n : Checked ι V ℤ) := by
  unfold int
  split
  · exact confined_pure h
  · exact fun b hb => by cases hb

theorem confined_bind {f : α → Checked ι V β} (h : Confined A Q x)
    (hf : ∀ a, Q a → Confined A R (f a)) : Confined A R (x >>= f) := by
  refine Prog.Confined.bind (f := fun o => match o with
    | some a => (f a).run
    | none => pure none) h fun o ho => ?_
  cases o with
  | none => exact fun b hb => by cases hb
  | some a => exact hf a (ho a rfl)

theorem confined_mono (h : Confined A Q x) (hAB : ∀ i, A i → B i) : Confined B Q x :=
  Prog.Confined.mono h hAB

end Confined

/-! ## Runs -/

variable [DecidableEq ι] {m m' m'' : ι → V} {a : α} {b : β} {x : Checked ι V α}

/-- Alone on `m`, the program has the result `a` and leaves `m'`. -/
def Does (x : Checked ι V α) (m : ι → V) (a : α) (m' : ι → V) : Prop := x.run.run m = (some a, m')

def Fails (x : Checked ι V α) (m : ι → V) : Prop := (x.run.run m).1 = none

theorem does_pure (a : α) (m : ι → V) : Does (pure a) m a m := rfl

theorem does_get (i : ι) (m : ι → V) : Does (get i) m (m i) m := rfl

theorem does_set (i : ι) (v : V) (m : ι → V) : Does (set i v) m () (Function.update m i v) := rfl

theorem does_int {ok : ℤ → Bool} {n : ℤ} (h : ok n = true) (m : ι → V) : Does (int ok n) m n m := by
  unfold int
  rw [if_pos h]
  rfl

theorem fails_int {ok : ℤ → Bool} {n : ℤ} (h : ok n = false) (m : ι → V) : Fails (int ok n) m := by
  unfold int
  rw [if_neg (by rw [h]; exact Bool.false_ne_true)]
  rfl

theorem run_bind (x : Checked ι V α) (f : α → Checked ι V β) (m : ι → V) :
    (x >>= f).run.run m = match x.run.run m with
      | (some a, m') => (f a).run.run m'
      | (none, m') => (none, m') := by
  refine (Prog.run_bind x.run _ m).trans ?_
  obtain ⟨o, m'⟩ := x.run.run m
  cases o <;> rfl

theorem Does.bind {f : α → Checked ι V β} (h : Does x m a m') (hf : Does (f a) m' b m'') :
    Does (x >>= f) m b m'' := by
  rw [Does, run_bind, h]
  exact hf

theorem Fails.bind {f : α → Checked ι V β} (h : Fails x m) : Fails (x >>= f) m := by
  have hx : x.run.run m = (none, (x.run.run m).2) := Prod.ext h rfl
  rw [Fails, run_bind, hx]

theorem Does.bind_fails {f : α → Checked ι V β} (h : Does x m a m') (hf : Fails (f a) m') :
    Fails (x >>= f) m := by
  rw [Fails, run_bind, h]
  exact hf

theorem Does.not_fails (h : Does x m a m') : ¬ Fails x m := by
  rw [Fails, h]
  exact Option.some_ne_none a

end Checked
end Threads.Cells
