import Mathlib.Algebra.Order.Ring.Int
import SistemasOperativos.Threads.Locks

set_option linter.unusedSectionVars false

/-! A balance that threads lower under one lock, and what has been spent from it. -/
namespace Threads

variable {S G M E T K : Type} {L : T → Type} [DecidableEq S] [DecidableEq T]

/-- Each thread lowers the balance at the locations `spends`, and from there to the post
of the lock `x` it stands at `spent`. Where `Good` holds the price is `cost`. -/
structure Account (P : Program S G M E T L) (D : Discipline P) (x : S) (K : Type) where
  balance : G → ℤ
  cost : K → ℤ
  Good : G → Prop
  spends : (t : T) → L t → Option K
  spent : (t : T) → L t → Option K
  dest : ∀ t l g ok, spent t ((P.code t l).dest l g ok) = spends t l
  awake : ∀ t l, (P.code t l).interruptible = true → spends t l = none ∧ spent t l = none
  int : ∀ t l l', P.onInt t l = some l' → spent t l' = spent t l
  held : ∀ t l, spends t l ≠ none ∨ spent t l ≠ none → x ∈ D.holds t l
  apart : ∀ t l, spends t l ≠ none → spent t l = none
  glob : ∀ t l g, Good g →
    balance ((P.code t l).glob g) + (spends t l).elim 0 cost = balance g
  env : ∀ e g, balance (P.env e g) = balance g

namespace Account
open Program

variable {P : Program S G M E T L} {D : Discipline P} {x : S} (A : Account P D x K)
variable {s s' s₀ : State S G T L} {t u : T} {a : Label E T L} {tr : List (Label E T L)}

/-- What a step completes: the post that follows a payment. -/
def completes : Label E T L → Option K
  | .exec t l _ => A.spent t l
  | _ => none

def total (tr : List (Label E T L)) : ℤ := (tr.map fun a => (A.completes a).elim 0 A.cost).sum

theorem total_snoc (tr : List (Label E T L)) (a : Label E T L) :
    A.total (tr ++ [a]) = A.total tr + (A.completes a).elim 0 A.cost := by
  simp [total]

/-- Nobody is between a payment and its post. -/
def Settled (s : State S G T L) : Prop := ∀ t, A.spent t (s.loc t) = none

/-- The balance with what has been spent from it: an unfinished payment is on its way. -/
structure Law (b : ℤ) (s : State S G T L) (tr : List (Label E T L)) : Prop where
  settled : A.Settled s → A.balance s.glob + A.total tr = b
  pending : ∀ t k, A.spent t (s.loc t) = some k → A.balance s.glob + A.cost k + A.total tr = b

variable {A} in
theorem Law.frame {b : ℤ} {tr' : List (Label E T L)} (h : A.Law b s tr)
    (hsame : ∀ u, A.spent u (s'.loc u) = A.spent u (s.loc u))
    (hbal : A.balance s'.glob = A.balance s.glob) (htot : A.total tr' = A.total tr) :
    A.Law b s' tr' := by
  constructor
  · intro hs
    rw [hbal, htot]
    exact h.settled fun u => (hsame u).symm.trans (hs u)
  · intro u k hk
    rw [hbal, htot]
    exact h.pending u k ((hsame u).symm.trans hk)

/-- While one thread is at a payment no other is. -/
theorem alone (hh : ∀ t, s.held t = D.holds t (s.loc t)) (hm : Mutex s x)
    (ht : A.spends t (s.loc t) ≠ none ∨ A.spent t (s.loc t) ≠ none) (hu : u ≠ t) :
    A.spent u (s.loc u) = none := by
  by_contra hn
  have htx : x ∈ s.held t := hh t ▸ A.held t _ ht
  have hux : x ∈ s.held u := hh u ▸ A.held u _ (.inr hn)
  exact hu (hm.unique hux htx)

theorem law_exec (hh : ∀ t, s.held t = D.holds t (s.loc t)) (hm : Mutex s x) (hg : A.Good s.glob)
    {b : ℤ} (h : A.Law b s tr) (ok : Bool) :
    A.Law b (P.effect s t ok) (tr ++ [.exec t (s.loc t) ok]) := by
  have hself : A.spent t ((P.effect s t ok).loc t) = A.spends t (s.loc t) := by
    rw [effect_loc_self]
    exact A.dest t _ _ _
  have hother : ∀ u, u ≠ t → A.spent u ((P.effect s t ok).loc u) = A.spent u (s.loc u) :=
    fun u hu => by rw [effect_loc_of_ne hu]
  have hbal : A.balance (P.effect s t ok).glob + (A.spends t (s.loc t)).elim 0 A.cost =
      A.balance s.glob := A.glob t _ _ hg
  have htot : A.total (tr ++ [.exec t (s.loc t) ok]) =
      A.total tr + (A.spent t (s.loc t)).elim 0 A.cost := A.total_snoc _ _
  cases hpay : A.spends t (s.loc t) with
  | some k =>
    -- the payment itself: it is on its way now, and nothing else is
    have hne : A.spends t (s.loc t) ≠ none := by simp [hpay]
    have hnone := A.apart t _ hne
    have hset : A.Settled s := by
      intro u
      by_cases hu : u = t
      · exact hu ▸ hnone
      · exact A.alone hh hm (.inl hne) hu
    have hb := h.settled hset
    rw [hpay] at hbal hself
    rw [hnone] at htot
    simp only [Option.elim_some] at hbal
    simp only [Option.elim_none] at htot
    constructor
    · intro hs
      cases hself.symm.trans (hs t)
    · intro u k' hk
      by_cases hu : u = t
      · subst hu
        cases hself.symm.trans hk
        omega
      · rw [hother u hu, hset u] at hk
        cases hk
  | none =>
    rw [hpay] at hbal hself
    simp only [Option.elim_none, add_zero] at hbal
    cases hdone : A.spent t (s.loc t) with
    | some k =>
      -- its post: everything is settled afterwards
      have hb := h.pending t k hdone
      have hset : A.Settled (P.effect s t ok) := by
        intro u
        by_cases hu : u = t
        · exact hu ▸ hself
        · rw [hother u hu]
          exact A.alone hh hm (.inr (by simp [hdone])) hu
      rw [hdone] at htot
      simp only [Option.elim_some] at htot
      constructor
      · intro _
        omega
      · intro u k' hk
        cases (hset u).symm.trans hk
    | none =>
      have hsame : ∀ u, A.spent u ((P.effect s t ok).loc u) = A.spent u (s.loc u) := by
        intro u
        by_cases hu : u = t
        · rw [hu, hself, hdone]
        · exact hother u hu
      rw [hdone] at htot
      simp only [Option.elim_none, add_zero] at htot
      exact h.frame hsame hbal htot

theorem law_step (hs : P.Step s a s') (hh : ∀ t, s.held t = D.holds t (s.loc t))
    (hm : Mutex s x) (hg : A.Good s.glob) {b : ℤ} (h : A.Law b s tr) :
    A.Law b s' (tr ++ [a]) := by
  have hquiet : A.completes a = none → A.total (tr ++ [a]) = A.total tr := by
    intro hn
    rw [total_snoc, hn]
    exact add_zero _
  cases hs with
  | @exec t ok _ _ _ => exact A.law_exec hh hm hg h ok
  | die => exact h.frame (fun u => by rw [die_loc]) rfl (hquiet rfl)
  | @cont t _ _ =>
    refine h.frame (fun u => ?_) rfl (hquiet rfl)
    by_cases hu : u = t
    · subst hu
      rw [wake_loc_self]
      split
      · rename_i hi
        obtain ⟨hpay, hdone⟩ := A.awake u _ hi
        exact (A.dest u _ _ _).trans (hpay.trans hdone.symm)
      · rfl
    · rw [wake_loc_of_ne hu]
  | @int t l _ _ hl =>
    refine h.frame (fun u => ?_) rfl (hquiet rfl)
    by_cases hu : u = t
    · subst hu
      rw [handle_loc_self]
      exact A.int u _ _ hl
    · rw [handle_loc_of_ne hu]
  | env e => exact h.frame (fun _ => rfl) (A.env e _) (hquiet rfl)

/-- Nothing is lost: in every run of good states the balance, what is completed and what
is on its way make up the balance of the beginning. -/
theorem law_run (h : P.Run (fun s _ => A.Good s.glob) s₀ tr s) (ht : Tracks D s₀)
    (hl : P.lock x = true) (hcopy : ∀ t l y k, P.code t l ≠ .copy x y k) (hm : Mutex s₀ x)
    (hstart : A.Settled s₀) : A.Law (A.balance s₀.glob) s tr := by
  induction h with
  | nil =>
    refine ⟨fun _ => by simp [total], fun t k hk => ?_⟩
    cases (hstart t).symm.trans hk
  | snoc hr hs hc ih =>
    exact A.law_step hs (tracks_run D hr ht) (mutex_run D hr ht hl hcopy hm) hc ih

/-- With the lock free everything is settled. -/
theorem settled_of_free (hh : ∀ t, s.held t = D.holds t (s.loc t)) (hm : Mutex s x)
    (hfree : s.sem x ≠ 0) : A.Settled s := by
  intro t
  by_contra hn
  have htx : x ∈ s.held t := hh t ▸ A.held t _ (.inr hn)
  obtain ⟨-, hnone⟩ | ⟨h0, -⟩ := hm
  · exact hnone t htx
  · exact hfree h0

end Account
end Threads
