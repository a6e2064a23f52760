import Mathlib.Data.Fintype.Sum
import SistemasOperativos.Buffer.Protocol
import SistemasOperativos.Threads.Work

/-! However the threads of `buffer.c` are scheduled, items are made and used up all the time. -/
namespace Buffer

open Threads Threads.Program

variable {producers consumers : ℕ} {s : State producers consumers}
variable {tr : List (Label producers consumers)}

instance : Fintype (Tid producers consumers) :=
  Fintype.ofEquiv (Fin producers ⊕ Fin consumers)
    { toFun := Sum.elim .producer .consumer
      invFun := fun
        | .producer p => .inl p
        | .consumer c => .inr c
      left_inv := by rintro (p | c) <;> rfl
      right_inv := by rintro (p | c) <;> rfl }

theorem card_tid : Fintype.card (Tid producers consumers) = producers + consumers := by
  rw [Fintype.ofEquiv_card, Fintype.card_sum, Fintype.card_fin, Fintype.card_fin]

def handles (a : Label producers consumers) : Bool := produces a || consumes a

theorem countP_handles (tr : List (Label producers consumers)) :
    tr.countP handles = tr.countP produces + tr.countP consumes := by
  induction tr with
  | nil => rfl
  | cons a tr ih =>
    have hapart : produces a = true → consumes a = false := by
      unfold produces consumes
      split
      · intro _
        rfl
      · intro h
        cases h
    simp only [List.countP_cons, ih, handles]
    by_cases hp : produces a = true
    · simp [hp, hapart hp]
      omega
    · by_cases hc : consumes a = true
      · simp [hp, hc]
        omega
      · simp [hp, hc]

/-- Two more steps lead from an item to the next round. -/
def ProducerPc.debt : ProducerPc → ℤ
  | .waitEmpty => 0
  | .waitMutex => 1
  | .produce => 2
  | .postFilled => -2
  | .postMutex => -1

def ConsumerPc.debt : ConsumerPc → ℤ
  | .waitFilled => 0
  | .waitMutex => 1
  | .consume => 2
  | .postEmpty => -2
  | .postMutex => -1

theorem ProducerPc.debt_le (l : ProducerPc) : l.debt ≤ 2 := by
  cases l <;> decide

theorem ConsumerPc.debt_le (l : ConsumerPc) : l.debt ≤ 2 := by
  cases l <;> decide

def working : Working (buffer producers consumers) handles where
  cost := 5
  bound := 2
  debt
    | .producer _ => ProducerPc.debt
    | .consumer _ => ConsumerPc.debt
  exec t l g ok := by cases t <;> cases l <;> exact Int.le_of_eq rfl
  le t l := by
    cases t with
    | producer p => exact ProducerPc.debt_le l
    | consumer c => exact ConsumerPc.debt_le l
  start t := by cases t <;> rfl

/-- In every run there are at least as many items as a tenth of its steps, but for the capacity
and two steps for each thread. This is so for the items made and for the items used up. -/
theorem never_stops (h : (buffer producers consumers).Run Any (init producers consumers) tr s) :
    tr.length ≤ 10 * tr.countP produces + 2 * (producers + consumers) ∧
    tr.length ≤ 10 * tr.countP consumes + 5 * max + 2 * (producers + consumers) := by
  have hi := inv_run h
  have hlen := (working.run (fun _ _ => rfl) (fun _ l => code_plain l) inv_init.alive
    (fun t => by cases t <;> rfl) h).2
  have hitems := hi.items
  have hroom := hi.room
  rw [countP_handles, card_tid] at hlen
  simp only [working] at hlen
  constructor <;> omega

/-- A producer and a consumer that take turns. -/
theorem never_stops_turns : ∃ (tr : List (Label 1 1)) (s : State 1 1),
    (buffer 1 1).Run Any (init 1 1) tr s ∧ tr.length = 20 ∧ tr.countP produces = 2 ∧
    tr.length ≤ 10 * tr.countP produces + 2 * (1 + 1) := by
  have hrun : ∃ tr s, (buffer 1 1).Run Any (init 1 1) tr s ∧ tr.length = 20 ∧
      tr.countP produces = 2 := by
    refine run_of_check (burst (.producer 0) 5 ++ burst (.consumer 0) 5 ++ burst (.producer 0) 5 ++
      burst (.consumer 0) 5) ?_
    decide +kernel
  obtain ⟨tr, s, h, hlen, hp⟩ := hrun
  exact ⟨tr, s, h, hlen, hp, (never_stops h).1⟩

end Buffer
