import Mathlib.Algebra.BigOperators.Group.Finset.Basic
import Mathlib.Algebra.Order.BigOperators.Group.Finset
import Mathlib.Data.Fintype.BigOperators

/-!
# Counting barriers

A party counts itself and then takes a token. A release happens when every party
has counted once since the release before it, and posts one token to each.
-/
namespace Threads.Barrier

inductive Event (ι : Type)
  | count (i : ι)
  | take (i : ι)
  | post (i : ι)
  | release
  deriving DecidableEq, Repr

/-- How often each event has happened. -/
structure Ledger (ι : Type) where
  count : ι → ℕ
  took : ι → ℕ
  posted : ι → ℕ
  releases : ℕ

variable {ι : Type} [DecidableEq ι]

def Ledger.apply (b : Ledger ι) : Event ι → Ledger ι
  | .count i => { b with count := Function.update b.count i (b.count i + 1) }
  | .take i => { b with took := Function.update b.took i (b.took i + 1) }
  | .post i => { b with posted := Function.update b.posted i (b.posted i + 1) }
  | .release => { b with releases := b.releases + 1 }

/-- The ledger after a step, which may be no event of the barrier. -/
def Ledger.record (b : Ledger ι) (e : Option (Event ι)) : Ledger ι := e.elim b b.apply

/-- The rule that each event obeys. -/
def Ledger.Enabled (b : Ledger ι) : Event ι → Prop
  | .count i => b.count i = b.took i
  | .take i => b.took i < b.posted i
  | .post i => b.posted i < b.releases
  | .release => ∀ i, b.releases < b.count i

def ledger (es : List (Event ι)) : Ledger ι :=
  es.foldl Ledger.apply ⟨fun _ => 0, fun _ => 0, fun _ => 0, 0⟩

@[simp] theorem ledger_snoc (es : List (Event ι)) (e : Event ι) :
    ledger (es ++ [e]) = (ledger es).apply e := by
  simp [ledger]

theorem ledger_record (es : List (Event ι)) (e : Option (Event ι)) :
    ledger (es ++ e.toList) = (ledger es).record e := by
  cases e with
  | none => simp [Ledger.record]
  | some e => simp [Ledger.record]

/-- Sequences of events in which each one obeys its rule. -/
inductive Legal : List (Event ι) → Prop
  | nil : Legal []
  | snoc {es : List (Event ι)} {e : Event ι} (h : Legal es) (he : (ledger es).Enabled e) :
      Legal (es ++ [e])

/-- No party is more than one count ahead of the releases, and none behind. -/
structure Ledger.Ok (b : Ledger ι) : Prop where
  took_le : ∀ i, b.took i ≤ b.posted i
  posted_le : ∀ i, b.posted i ≤ b.releases
  releases_le : ∀ i, b.releases ≤ b.count i
  count_le : ∀ i, b.count i ≤ b.took i + 1

theorem Ledger.Ok.apply {b : Ledger ι} {e : Event ι} (h : b.Ok) (he : b.Enabled e) :
    (b.apply e).Ok := by
  obtain ⟨h1, h2, h3, h4⟩ := h
  cases e with
  | count i =>
    refine ⟨h1, h2, fun j => ?_, fun j => ?_⟩ <;> by_cases hj : j = i
    · subst hj
      simpa [Ledger.apply] using (h3 j).trans (Nat.le_succ _)
    · simpa [Ledger.apply, hj] using h3 j
    · subst hj
      have : b.count j = b.took j := he
      simp [Ledger.apply, this]
    · simpa [Ledger.apply, hj] using h4 j
  | take i =>
    refine ⟨fun j => ?_, h2, h3, fun j => ?_⟩ <;> by_cases hj : j = i
    · subst hj
      have : b.took j < b.posted j := he
      simpa [Ledger.apply] using Nat.succ_le_of_lt this
    · simpa [Ledger.apply, hj] using h1 j
    · subst hj
      simpa [Ledger.apply] using (h4 j).trans (Nat.le_succ _)
    · simpa [Ledger.apply, hj] using h4 j
  | post i =>
    refine ⟨fun j => ?_, fun j => ?_, h3, h4⟩ <;> by_cases hj : j = i
    · subst hj
      simpa [Ledger.apply] using (h1 j).trans (Nat.le_succ _)
    · simpa [Ledger.apply, hj] using h1 j
    · subst hj
      have : b.posted j < b.releases := he
      simpa [Ledger.apply] using Nat.succ_le_of_lt this
    · simpa [Ledger.apply, hj] using h2 j
  | release => exact ⟨h1, fun j => (h2 j).trans (Nat.le_succ _), he, h4⟩

theorem Legal.ok {es : List (Event ι)} (h : Legal es) : (ledger es).Ok := by
  induction h with
  | nil => constructor <;> simp [ledger]
  | snoc _ he ih =>
    rw [ledger_snoc]
    exact ih.apply he

theorem Legal.record {es : List (Event ι)} {e : Option (Event ι)} (h : Legal es)
    (he : ∀ e' ∈ e, (ledger es).Enabled e') : Legal (es ++ e.toList) := by
  cases e with
  | none => simpa using h
  | some e => exact h.snoc (he e rfl)

namespace Ledger
variable {b : Ledger ι} {i j : ι} {e : Option (Event ι)}

theorem record_count_of_ne (h : e ≠ some (.count i)) : (b.record e).count i = b.count i := by
  obtain _ | e := e
  · rfl
  cases e with
  | count j =>
    have hj : i ≠ j := by
      rintro rfl
      exact h rfl
    simp [record, apply, hj]
  | _ => rfl

theorem record_took_of_ne (h : e ≠ some (.take i)) : (b.record e).took i = b.took i := by
  obtain _ | e := e
  · rfl
  cases e with
  | take j =>
    have hj : i ≠ j := by
      rintro rfl
      exact h rfl
    simp [record, apply, hj]
  | _ => rfl

theorem record_posted_of_ne (h : e ≠ some (.post i)) : (b.record e).posted i = b.posted i := by
  obtain _ | e := e
  · rfl
  cases e with
  | post j =>
    have hj : i ≠ j := by
      rintro rfl
      exact h rfl
    simp [record, apply, hj]
  | _ => rfl

theorem record_releases_of_ne (h : e ≠ some .release) : (b.record e).releases = b.releases := by
  obtain _ | e := e
  · rfl
  cases e with
  | release => exact absurd rfl h
  | _ => rfl

theorem record_take : (b.record (some (.take i))).took i = b.took i + 1 := by
  simp [record, apply]

theorem record_count : (b.record (some (.count i))).count i = b.count i + 1 := by
  simp [record, apply]

theorem record_post : (b.record (some (.post i))).posted i = b.posted i + 1 := by
  simp [record, apply]

end Ledger

namespace Ledger.Ok
omit [DecidableEq ι]
variable {b : Ledger ι} (h : b.Ok)
include h

theorem count_le_releases (i : ι) : b.count i ≤ b.releases + 1 := by
  have := h.took_le i
  have := h.posted_le i
  have := h.count_le i
  omega

/-- A token is there only for a party that has counted. -/
theorem count_of_token {i : ι} (ht : b.took i < b.posted i) : b.count i = b.took i + 1 := by
  have := h.posted_le i
  have := h.releases_le i
  have := h.count_le i
  omega

variable [Fintype ι]

theorem sum_le : ∑ i, b.count i ≤ Fintype.card ι * (b.releases + 1) := by
  calc ∑ i, b.count i ≤ ∑ _ : ι, (b.releases + 1) :=
        Finset.sum_le_sum fun i _ => h.count_le_releases i
    _ = Fintype.card ι * (b.releases + 1) := by simp

/-- Only when every party has counted is the sum full. -/
theorem counted_of_full (hf : Fintype.card ι * (b.releases + 1) ≤ ∑ i, b.count i) (i : ι) :
    b.count i = b.releases + 1 := by
  by_contra hne
  have hlt : b.count i < b.releases + 1 := lt_of_le_of_ne (h.count_le_releases i) hne
  have : ∑ i, b.count i < ∑ _ : ι, (b.releases + 1) :=
    Finset.sum_lt_sum (fun j _ => h.count_le_releases j) ⟨i, Finset.mem_univ i, hlt⟩
  simp at this
  omega

end Ledger.Ok

/-- The counts of one party since the last release. -/
def since (i : ι) (es : List (Event ι)) : ℕ :=
  es.foldl (fun n e => match e with
    | .count j => if j = i then n + 1 else n
    | .release => 0
    | _ => n) 0

/-- A party counts once between two releases. -/
theorem Legal.since {es : List (Event ι)} (h : Legal es) (i : ι) :
    since i es + (ledger es).releases = (ledger es).count i := by
  induction h with
  | nil => rfl
  | @snoc es e hl he ih =>
    rw [ledger_snoc]
    cases e with
    | count j =>
      by_cases hj : j = i
      · subst hj
        simp only [Barrier.since, List.foldl_append, List.foldl_cons, List.foldl_nil, if_true,
          Ledger.apply, Function.update_self] at ih ⊢
        omega
      · simpa [Barrier.since, Ledger.apply, hj, Ne.symm hj] using ih
    | release =>
      have h1 := (ledger es).count i
      have h2 := hl.ok.count_le_releases i
      have h3 : (ledger es).releases < (ledger es).count i := he i
      simp only [Barrier.since, List.foldl_append, List.foldl_cons, List.foldl_nil, Ledger.apply]
      omega
    | take j => simpa [Barrier.since, Ledger.apply] using ih
    | post j => simpa [Barrier.since, Ledger.apply] using ih

theorem sum_count {b : Ledger ι} [Fintype ι] (i : ι) :
    ∑ j, (b.apply (.count i)).count j = ∑ j, b.count j + 1 := by
  simp only [Ledger.apply]
  rw [Finset.sum_update_of_mem (Finset.mem_univ i), Finset.sdiff_singleton_eq_erase,
    ← Finset.sum_erase_add _ _ (Finset.mem_univ i)]
  omega

end Threads.Barrier
