import Mathlib.Algebra.BigOperators.Group.Finset.Basic
import Mathlib.Algebra.Order.BigOperators.Group.Finset
import Mathlib.Data.Fintype.BigOperators
import Mathlib.Logic.Function.Basic

/-!
# Workers over shared cells

Programs that read and write single cells of a memory, alone and interleaved. Workers
on disjoint cells end as if each of them had run alone.
-/
namespace Threads.Cells

inductive Prog (ι V α : Type)
  | ret (a : α)
  | read (i : ι) (k : V → Prog ι V α)
  | write (i : ι) (v : V) (k : Prog ι V α)

namespace Prog
variable {ι V α β : Type}

def bind : Prog ι V α → (α → Prog ι V β) → Prog ι V β
  | ret a, f => f a
  | read i k, f => read i fun v => (k v).bind f
  | write i v k, f => write i v (k.bind f)

instance : Monad (Prog ι V) where
  pure := ret
  bind := bind

def get (i : ι) : Prog ι V V := read i ret
def set (i : ι) (v : V) : Prog ι V Unit := write i v (ret ())

/-- Every access is to a cell of `A`, and the result satisfies `Q`, whatever is read. -/
def Confined (A : ι → Prop) (Q : α → Prop) : Prog ι V α → Prop
  | ret a => Q a
  | read i k => A i ∧ ∀ v, (k v).Confined A Q
  | write i _ k => A i ∧ k.Confined A Q

section Confined
variable {A B : ι → Prop} {Q : α → Prop} {R : β → Prop} {p : Prog ι V α}

theorem Confined.pure {a : α} (h : Q a) : (Pure.pure a : Prog ι V α).Confined A Q := h

theorem Confined.get {i : ι} (h : A i) : (Prog.get i : Prog ι V V).Confined A fun _ => True :=
  ⟨h, fun _ => trivial⟩

theorem Confined.set {i : ι} {v : V} (h : A i) : (Prog.set i v).Confined A fun _ => True :=
  ⟨h, trivial⟩

theorem Confined.bind {f : α → Prog ι V β} (h : p.Confined A Q)
    (hf : ∀ a, Q a → (f a).Confined A R) : (p >>= f).Confined A R := by
  induction p with
  | ret a => exact hf a h
  | read i k ih => exact ⟨h.1, fun v => ih v (h.2 v)⟩
  | write i v k ih => exact ⟨h.1, ih h.2⟩

theorem Confined.mono (h : p.Confined A Q) (hAB : ∀ i, A i → B i) : p.Confined B Q := by
  induction p with
  | ret a => exact h
  | read i k ih => exact ⟨hAB i h.1, fun v => ih v (h.2 v)⟩
  | write i v k ih => exact ⟨hAB i h.1, ih h.2⟩

end Confined

variable [DecidableEq ι]

/-- The program alone: its result, and the memory it leaves. -/
def run : Prog ι V α → (ι → V) → α × (ι → V)
  | ret a, m => (a, m)
  | read i k, m => (k (m i)).run m
  | write i v k, m => k.run (Function.update m i v)

/-- How many accesses it makes alone. -/
def cost : Prog ι V α → (ι → V) → ℕ
  | ret _, _ => 0
  | read i k, m => (k (m i)).cost m + 1
  | write i v k, m => k.cost (Function.update m i v) + 1

/-- The cells that it writes alone, in the order of the writes. -/
def writes : Prog ι V α → (ι → V) → List ι
  | ret _, _ => []
  | read i k, m => (k (m i)).writes m
  | write i v k, m => i :: k.writes (Function.update m i v)

@[simp] theorem run_pure (a : α) (m : ι → V) : (Pure.pure a : Prog ι V α).run m = (a, m) := rfl

@[simp] theorem run_get (i : ι) (m : ι → V) : (get i).run m = (m i, m) := rfl

@[simp] theorem run_set (i : ι) (v : V) (m : ι → V) :
    (set i v).run m = ((), Function.update m i v) := rfl

@[simp] theorem run_bind (p : Prog ι V α) (f : α → Prog ι V β) (m : ι → V) :
    (p >>= f).run m = (f (p.run m).1).run (p.run m).2 := by
  induction p generalizing m with
  | ret a => rfl
  | read i k ih => exact ih (m i) m
  | write i v k ih => exact ih (Function.update m i v)

@[simp] theorem writes_bind (p : Prog ι V α) (f : α → Prog ι V β) (m : ι → V) :
    (p >>= f).writes m = p.writes m ++ (f (p.run m).1).writes (p.run m).2 := by
  induction p generalizing m with
  | ret a => rfl
  | read i k ih => exact ih (m i) m
  | write i v k ih => exact congrArg (i :: ·) (ih (Function.update m i v))

section Run
variable {A : ι → Prop} {Q : α → Prop} {p : Prog ι V α} {m m' : ι → V}

/-- The program sees nothing of the other cells. -/
theorem run_congr (h : p.Confined A Q) (hm : ∀ i, A i → m i = m' i) :
    (p.run m).1 = (p.run m').1 ∧ (∀ i, A i → (p.run m).2 i = (p.run m').2 i) ∧
      p.cost m = p.cost m' := by
  induction p generalizing m m' with
  | ret a => exact ⟨rfl, hm, rfl⟩
  | read j k ih =>
    obtain ⟨h1, h2, h3⟩ := ih (m j) (h.2 (m j)) hm
    simp only [run, cost, ← hm j h.1]
    exact ⟨h1, h2, congrArg (· + 1) h3⟩
  | write j v k ih =>
    have hu : ∀ i, A i → Function.update m j v i = Function.update m' j v i := by
      intro i hi
      by_cases hij : i = j
      · subst hij
        simp
      · rw [Function.update_of_ne hij, Function.update_of_ne hij, hm i hi]
    obtain ⟨h1, h2, h3⟩ := ih h.2 hu
    exact ⟨h1, h2, congrArg (· + 1) h3⟩

end Run
end Prog

/-! ## Interleavings -/

variable {τ ι V α : Type} [DecidableEq τ] [DecidableEq ι]

/-- What is left of each worker, and the memory. -/
structure Pool (τ ι V α : Type) where
  code : τ → Prog ι V α
  mem : ι → V

/-- One access of one worker. -/
inductive Step (x : Pool τ ι V α) (t : τ) : Pool τ ι V α → Prop
  | read {i : ι} {k : V → Prog ι V α} (h : x.code t = .read i k) :
      Step x t ⟨Function.update x.code t (k (x.mem i)), x.mem⟩
  | write {i : ι} {v : V} {k : Prog ι V α} (h : x.code t = .write i v k) :
      Step x t ⟨Function.update x.code t k, Function.update x.mem i v⟩

/-- An interleaving, with the worker of each access. -/
inductive Run (x₀ : Pool τ ι V α) : List τ → Pool τ ι V α → Prop
  | nil : Run x₀ [] x₀
  | snoc {tr : List τ} {x y : Pool τ ι V α} {t : τ} (h : Run x₀ tr x) (hs : Step x t y) :
      Run x₀ (tr ++ [t]) y

/-- Every worker has ended. -/
def Pool.Joined (x : Pool τ ι V α) : Prop := ∀ t, ∃ a, x.code t = .ret a

variable {x x₀ y : Pool τ ι V α} {t u : τ} {tr : List τ} {A : τ → ι → Prop} {Q : α → Prop}

/-- A worker that has not ended takes its next access. -/
theorem step_of_not_joined (h : ¬ x.Joined) : ∃ t y, Step x t y := by
  simp only [Pool.Joined, not_forall, not_exists] at h
  obtain ⟨t, ht⟩ := h
  cases hc : x.code t with
  | ret a => exact absurd hc (ht a)
  | read i k => exact ⟨t, _, .read hc⟩
  | write i v k => exact ⟨t, _, .write hc⟩

/-- The workers of `x` will end as those of `x₀` would alone, after the accesses of `tr`. -/
structure Follows (A : τ → ι → Prop) (Q : α → Prop) (x₀ : Pool τ ι V α) (tr : List τ)
    (x : Pool τ ι V α) : Prop where
  confined : ∀ t, (x.code t).Confined (A t) Q
  cells : ∀ t i, A t i → ((x.code t).run x.mem).2 i = ((x₀.code t).run x₀.mem).2 i
  others : ∀ i, (∀ t, ¬ A t i) → x.mem i = x₀.mem i
  cost : ∀ t, tr.count t + (x.code t).cost x.mem = (x₀.code t).cost x₀.mem

/-- What one access does to the worker itself and to the memory. -/
theorem step_spec (hs : Step x t y) (h : (x.code t).Confined (A t) Q) :
    (y.code t).Confined (A t) Q ∧ (y.code t).run y.mem = (x.code t).run x.mem ∧
      (y.code t).cost y.mem + 1 = (x.code t).cost x.mem ∧
      (∀ u, u ≠ t → y.code u = x.code u) ∧ ∀ i, ¬ A t i → y.mem i = x.mem i := by
  cases hs with
  | read hc =>
    rw [hc] at h ⊢
    simp only [Function.update_self]
    exact ⟨h.2 _, rfl, rfl, fun u hu => Function.update_of_ne hu _ _, fun _ _ => trivial⟩
  | @write i v k hc =>
    rw [hc] at h ⊢
    simp only [Function.update_self]
    refine ⟨h.2, rfl, rfl, fun u hu => Function.update_of_ne hu _ _, fun j hj => ?_⟩
    have hne : j ≠ i := by
      rintro rfl
      exact hj h.1
    exact Function.update_of_ne hne _ _

theorem Follows.step (hd : ∀ t u, t ≠ u → ∀ i, A t i → ¬ A u i) (h : Follows A Q x₀ tr x)
    (hs : Step x t y) : Follows A Q x₀ (tr ++ [t]) y := by
  obtain ⟨hconf, hrun, hcost, hcode, hmem⟩ := step_spec hs (h.confined t)
  have hother : ∀ u, u ≠ t → (∀ i, A u i → (y.mem i) = x.mem i) :=
    fun u hu i hi => hmem i (hd u t hu i hi)
  refine ⟨fun u => ?_, fun u i hi => ?_, fun i hi => ?_, fun u => ?_⟩
  · by_cases hu : u = t
    · exact hu ▸ hconf
    · exact hcode u hu ▸ h.confined u
  · by_cases hu : u = t
    · subst hu
      rw [hrun]
      exact h.cells u i hi
    · rw [hcode u hu, (Prog.run_congr (h.confined u) (hother u hu)).2.1 i hi]
      exact h.cells u i hi
  · rw [hmem i (hi t)]
    exact h.others i hi
  · have hcu := h.cost u
    rw [List.count_append]
    by_cases hu : u = t
    · subst hu
      rw [List.count_singleton_self]
      omega
    · have hnone : [t].count u = 0 := List.count_eq_zero_of_not_mem (by simpa using hu)
      rw [hcode u hu, (Prog.run_congr (h.confined u) (hother u hu)).2.2, hnone]
      exact hcu

/-- Workers on disjoint cells do not notice each other. -/
theorem Run.follows (hA : ∀ t, (x₀.code t).Confined (A t) Q)
    (hd : ∀ t u, t ≠ u → ∀ i, A t i → ¬ A u i) (h : Run x₀ tr x) : Follows A Q x₀ tr x := by
  induction h with
  | nil => exact ⟨hA, fun _ _ _ => rfl, fun _ _ => rfl, fun _ => by simp⟩
  | snoc _ hs ih => exact ih.step hd hs

/-- When all have ended, each has left its cells as it would have left them alone. -/
theorem Follows.joined (h : Follows A Q x₀ tr x) (hj : x.Joined) (t : τ) {i : ι} (hi : A t i) :
    x.mem i = ((x₀.code t).run x₀.mem).2 i := by
  obtain ⟨a, ha⟩ := hj t
  have := h.cells t i hi
  rwa [ha] at this

variable [Fintype τ]

/-- An interleaving is at most as long as all the workers together. -/
theorem Follows.length (h : Follows A Q x₀ tr x) :
    tr.length + ∑ t, (x.code t).cost x.mem = ∑ t, (x₀.code t).cost x₀.mem := by
  have hlen : tr.length = ∑ t, tr.count t := by
    rw [← Multiset.coe_card, ← Multiset.sum_count_eq_card (s := Finset.univ) fun _ _ => Finset.mem_univ _]
    simp
  rw [hlen, ← Finset.sum_add_distrib]
  exact Finset.sum_congr rfl fun t _ => h.cost t

/-- Every interleaving of such workers can be finished. -/
theorem exists_joined (hA : ∀ t, (x₀.code t).Confined (A t) Q)
    (hd : ∀ t u, t ≠ u → ∀ i, A t i → ¬ A u i) (h : Run x₀ tr x) :
    ∃ tr' y, Run x₀ (tr ++ tr') y ∧ y.Joined := by
  generalize hn : ∑ t, (x.code t).cost x.mem = n
  induction n generalizing tr x with
  | zero =>
    refine ⟨[], x, by rwa [List.append_nil], ?_⟩
    by_contra hj
    obtain ⟨t, y, hs⟩ := step_of_not_joined hj
    have hcost := (step_spec hs ((h.follows hA hd).confined t)).2.2.1
    have hle := Finset.single_le_sum (f := fun t => (x.code t).cost x.mem)
      (fun _ _ => Nat.zero_le _) (Finset.mem_univ t)
    omega
  | succ n ih =>
    by_cases hj : x.Joined
    · exact ⟨[], x, by rwa [List.append_nil], hj⟩
    · obtain ⟨t, y, hs⟩ := step_of_not_joined hj
      have h1 := (h.follows hA hd).length
      have h2 := ((h.snoc hs).follows hA hd).length
      rw [List.length_append, List.length_singleton] at h2
      obtain ⟨tr', z, hr, hz⟩ := ih (h.snoc hs) (by omega)
      exact ⟨t :: tr', z, by simpa using hr, hz⟩

end Threads.Cells
