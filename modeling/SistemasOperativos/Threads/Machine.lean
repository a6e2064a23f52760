import Mathlib.Data.Nat.Notation
import Mathlib.Logic.Function.Basic

/-!
# Threads over counting semaphores

A program gives each thread one atomic operation at each of its locations. The
operations are those of POSIX threads: semaphores, deferred cancellation,
signals, thread creation and datagrams. Shared memory is an arbitrary type.
-/
namespace Threads

/-- `cont` wakes a sleeping thread, `int` runs a handler. -/
inductive Signal
  | cont
  | int
  deriving DecidableEq, Repr

/-- One atomic operation, with the location at which its thread goes on.
`S` are the semaphores, `G` the shared memory, `M` the datagrams, `T` the
thread names and `L` the locations of the executing thread. -/
inductive Op (S G M T L : Type)
  | wait (x : S) (k : L)
  | post (x : S) (k : L)
  /-- Assignment of one semaphore object to another, by value. -/
  | copy (dst src : S) (k : L)
  /-- One access of shared memory; a branch picks the location from the value read. -/
  | mem (f : G → G × L)
  | testcancel (k : L)
  | sleep (k : L)
  | pause (k : L)
  /-- The Boolean is the scheduler's: whether the call returns a positive count. -/
  | sendto (m : M) (k : Bool → L)
  | create (f : G → G × T) (k : T → L)
  | cancel (target : G → Option T) (k : L)
  | kill (sig : Signal) (target : G → Option T) (k : L)
  | exit
  | ret

namespace Op
variable {S G M T L : Type}

/-- Where the thread goes on; a thread that ends stays where it is. -/
def dest : Op S G M T L → L → G → Bool → L
  | wait _ k, _, _, _ | post _ k, _, _, _ | copy _ _ k, _, _, _ => k
  | testcancel k, _, _, _ | sleep k, _, _, _ | pause k, _, _, _ => k
  | cancel _ k, _, _, _ | kill _ _ k, _, _, _ => k
  | mem f, _, g, _ => (f g).2
  | sendto _ k, _, _, ok => k ok
  | create f k, _, g, _ => k (f g).2
  | exit, l, _, _ | ret, l, _, _ => l

def glob : Op S G M T L → G → G
  | mem f, g => (f g).1
  | create f _, g => (f g).1
  | _, g => g

def sems [DecidableEq S] : Op S G M T L → (S → ℕ) → S → ℕ
  | wait x _, σ, y => if y = x then σ x - 1 else σ y
  | post x _, σ, y => if y = x then σ x + 1 else σ y
  | copy d x _, σ, y => if y = d then σ x else σ y
  | _, σ, y => σ y

/-- The locks its thread is left with: those waited for and not yet posted. -/
def held [DecidableEq S] (lock : S → Bool) : Op S G M T L → List S → List S
  | wait x _, h => if lock x then x :: h else h
  | post x _, h => h.erase x
  | _, h => h

def creates : Op S G M T L → G → Option T
  | create f _, g => some (f g).2
  | _, _ => none

def cancels : Op S G M T L → G → Option T
  | cancel target _, g => target g
  | _, _ => none

def signals (sig : Signal) : Op S G M T L → G → Option T
  | kill sig' target _, g => if sig' = sig then target g else none
  | _, _ => none

def sent : Op S G M T L → Bool → Option M
  | sendto m _, ok => if ok then some m else none
  | _, _ => none

def isSendto : Op S G M T L → Bool
  | sendto .. => true
  | _ => false

def isRet : Op S G M T L → Bool
  | ret => true
  | _ => false

def isExit : Op S G M T L → Bool
  | exit => true
  | _ => false

/-- The operation can complete now. A signal ends `pause`, not a step of its own. -/
def Enabled (σ : S → ℕ) : Op S G M T L → Prop
  | wait x _ => 0 < σ x
  | pause _ => False
  | _ => True

instance (σ : S → ℕ) : (o : Op S G M T L) → Decidable (o.Enabled σ)
  | wait x _ => inferInstanceAs (Decidable (0 < σ x))
  | pause _ => isFalse not_false
  | post .. | copy .. | mem _ | testcancel _ | sleep _ | sendto .. => isTrue trivial
  | create .. | cancel .. | kill .. | exit | ret => isTrue trivial

/-- A pending cancellation takes effect here, whether or not the call would block. -/
def cancelPoint : Op S G M T L → Bool
  | wait .. | testcancel _ | sleep _ | pause _ | sendto .. => true
  | _ => false

/-- A handled signal ends the sleeping calls. -/
def interruptible : Op S G M T L → Bool
  | sleep _ | pause _ => true
  | _ => false

end Op

/-- Each thread has locations of its own type. `lock x` holds of the semaphores
whose holder is tracked; `onInt` is the handler's location, if it is not masked. -/
structure Program (S G M E T : Type) (L : T → Type) where
  code : (t : T) → L t → Op S G M T (L t)
  start : (t : T) → L t
  onInt : (t : T) → L t → Option (L t)
  env : E → G → G
  lock : S → Bool

inductive Life
  | unborn
  | running
  | finished
  deriving DecidableEq, Repr

structure Thread (S L : Type) where
  loc : L
  life : Life
  held : List S
  cancelled : Bool
  cont : Bool
  int : Bool

/-- A thread before its creation. -/
def Thread.unborn {S L : Type} (start : L) : Thread S L := ⟨start, .unborn, [], false, false, false⟩

structure State (S G T : Type) (L : T → Type) where
  thr : (t : T) → Thread S (L t)
  sem : S → ℕ
  glob : G
  ended : Bool

/-- What happened in a step: `ok` is the result of a `sendto`. -/
inductive Label (E T : Type) (L : T → Type)
  | exec (t : T) (l : L t) (ok : Bool)
  | die (t : T) (l : L t)
  | cont (t : T)
  | int (t : T)
  | env (e : E)

variable {S G M E T : Type} {L : T → Type} [DecidableEq S] [DecidableEq T]

namespace State

def loc (s : State S G T L) (t : T) : L t := (s.thr t).loc
def life (s : State S G T L) (t : T) : Life := (s.thr t).life
def held (s : State S G T L) (t : T) : List S := (s.thr t).held
def cancelled (s : State S G T L) (t : T) : Bool := (s.thr t).cancelled

def setThr (s : State S G T L) (t : T) (x : Thread S (L t)) : State S G T L :=
  { s with thr := Function.update s.thr t x }

def Running (s : State S G T L) (t : T) : Prop := s.ended = false ∧ s.life t = .running

instance (s : State S G T L) (t : T) : Decidable (s.Running t) :=
  inferInstanceAs (Decidable (_ ∧ _))

end State

namespace Program
variable (P : Program S G M E T L)

/-- The operation a thread is at. -/
def op (s : State S G T L) (t : T) : Op S G M T (L t) := P.code t (s.loc t)

/-- The executing thread after its operation. -/
def advance (s : State S G T L) (t : T) (ok : Bool) : Thread S (L t) :=
  { s.thr t with
    loc := (P.op s t).dest (s.loc t) s.glob ok
    held := (P.op s t).held P.lock (s.held t)
    life := if (P.op s t).isRet then .finished else s.life t }

/-- Marks of creation, cancellation and signals on any thread. A thread that was
not created yet is at its start, so that creation only sets it running. -/
def mark {K : Type} (o : Op S G M T K) (g : G) (u : T) (x : Thread S (L u)) : Thread S (L u) :=
  { x with
    life := if o.creates g = some u then .running else x.life
    cancelled := x.cancelled || o.cancels g = some u
    cont := x.cont || o.signals .cont g = some u
    int := x.int || o.signals .int g = some u }

def effect (s : State S G T L) (t : T) (ok : Bool) : State S G T L :=
  let o := P.op s t
  let x := P.advance s t ok
  { thr := fun u => mark o s.glob u (Function.update s.thr t x u)
    sem := o.sems s.sem
    glob := o.glob s.glob
    ended := s.ended || o.isExit }

def die (s : State S G T L) (t : T) : State S G T L :=
  s.setThr t { s.thr t with life := .finished }

/-- Delivery of a `cont`: it is consumed, and ends a sleep or a pause. -/
def wake (s : State S G T L) (t : T) : State S G T L :=
  s.setThr t { s.thr t with
    cont := false
    loc := if (P.op s t).interruptible then (P.op s t).dest (s.loc t) s.glob true else s.loc t }

def handle (s : State S G T L) (t : T) (l : L t) : State S G T L :=
  s.setThr t { s.thr t with int := false, loc := l }

def disturb (s : State S G T L) (e : E) : State S G T L := { s with glob := P.env e s.glob }

/-- One step of any thread or of the environment. -/
inductive Step (s : State S G T L) : Label E T L → State S G T L → Prop
  | exec {t : T} (ok : Bool) (hr : s.Running t)
      (hc : (P.op s t).cancelPoint = true → s.cancelled t = false)
      (he : (P.op s t).Enabled s.sem) : Step s (.exec t (s.loc t) ok) (P.effect s t ok)
  | die {t : T} (hr : s.Running t) (hp : (P.op s t).cancelPoint = true)
      (hc : s.cancelled t = true) : Step s (.die t (s.loc t)) (die s t)
  | cont {t : T} (hr : s.Running t) (hs : (s.thr t).cont = true) : Step s (.cont t) (P.wake s t)
  | int {t : T} {l : L t} (hr : s.Running t) (hs : (s.thr t).int = true)
      (hl : P.onInt t (s.loc t) = some l) : Step s (.int t) (handle s t l)
  | env (e : E) (hr : s.ended = false) : Step s (.env e) (P.disturb s e)

/-- A run from `s₀` whose steps all satisfy `C`. -/
inductive Run (C : State S G T L → Label E T L → Prop) (s₀ : State S G T L) :
    List (Label E T L) → State S G T L → Prop
  | nil : Run C s₀ [] s₀
  | snoc {tr : List (Label E T L)} {s s' : State S G T L} {a : Label E T L}
      (hr : Run C s₀ tr s) (hs : P.Step s a s') (hc : C s a) : Run C s₀ (tr ++ [a]) s'

/-- Every interleaving. -/
def Any : State S G T L → Label E T L → Prop := fun _ _ => True

def Reachable (s₀ s : State S G T L) : Prop := ∃ tr, P.Run Any s₀ tr s

end Program

end Threads
