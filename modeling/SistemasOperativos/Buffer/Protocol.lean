import SistemasOperativos.Buffer.Code
import SistemasOperativos.Threads.Locks
import SistemasOperativos.Threads.Plain

/-!
# The bounded buffer

Every unit of the capacity is free, filled, or with a thread that has taken it from one
semaphore and not yet posted it to the other.
-/
namespace Buffer

open Threads Threads.Program

variable {producers consumers : ℕ} {s s' : State producers consumers}
variable {a : Label producers consumers} {t : Tid producers consumers} {ok : Bool}
variable {p : Fin producers} {c : Fin consumers} {tr : List (Label producers consumers)}

/-! ## Items -/

def produces : Label producers consumers → Bool
  | .exec (.producer _) .produce _ => true
  | _ => false

def consumes : Label producers consumers → Bool
  | .exec (.consumer _) .consume _ => true
  | _ => false

/-- Between `sem_wait(&empty)` and the item. -/
def ProducerPc.before : ProducerPc → Bool
  | .waitMutex | .produce => true
  | _ => false

/-- Between the item and `sem_post(&filled)`. -/
def ProducerPc.after : ProducerPc → Bool
  | .postFilled => true
  | _ => false

/-- Between `sem_wait(&empty)` and `sem_post(&filled)`. -/
def ProducerPc.carries : ProducerPc → Bool
  | .waitMutex | .produce | .postFilled => true
  | _ => false

/-- Between `sem_wait(&filled)` and the item. -/
def ConsumerPc.before : ConsumerPc → Bool
  | .waitMutex | .consume => true
  | _ => false

/-- Between the item and `sem_post(&empty)`. -/
def ConsumerPc.after : ConsumerPc → Bool
  | .postEmpty => true
  | _ => false

/-- Between `sem_wait(&filled)` and `sem_post(&empty)`. -/
def ConsumerPc.carries : ConsumerPc → Bool
  | .waitMutex | .consume | .postEmpty => true
  | _ => false

def atProducers (f : ProducerPc → Bool) (s : State producers consumers) : ℕ :=
  census fun p => f (s.loc (.producer p))

def atConsumers (f : ConsumerPc → Bool) (s : State producers consumers) : ℕ :=
  census fun c => f (s.loc (.consumer c))

/-! ## The mutex -/

def ProducerPc.holds : ProducerPc → List Sem
  | .produce | .postFilled | .postMutex => [.mutex]
  | _ => []

def ConsumerPc.holds : ConsumerPc → List Sem
  | .consume | .postEmpty | .postMutex => [.mutex]
  | _ => []

def holds : (t : Tid producers consumers) → Loc t → List Sem
  | .producer _ => ProducerPc.holds
  | .consumer _ => ConsumerPc.holds

def discipline : Discipline (buffer producers consumers) where
  holds := holds
  start t := by cases t <;> rfl
  step t l g ok := by cases t <;> cases l <;> rfl
  int t l l' h := by cases h
  posts t l x k h hx := by
    cases t <;> cases l <;> cases h <;> first | exact List.mem_cons_self | cases hx
  nodup t l := by
    cases t <;> cases l <;> first | exact List.nodup_nil | exact List.nodup_singleton _

theorem code_plain (l : Loc t) : (code t l).Plain := by
  cases t <;> cases l <;> trivial

theorem code_no_copy (x y : Sem) (k : Loc t) (l : Loc t) : code t l ≠ .copy x y k := by
  cases t <;> cases l <;> nofun

/-! ## The laws -/

structure Inv (tr : List (Label producers consumers)) (s : State producers consumers) : Prop where
  alive : Alive s
  tracks : Tracks discipline s
  mutex : Mutex s .mutex
  /-- What was produced was consumed, or is on its way to a consumer. -/
  items : tr.countP produces = tr.countP consumes + s.sem .filled +
    atProducers ProducerPc.after s + atConsumers ConsumerPc.before s
  /-- The capacity is free, or was taken by an item. -/
  room : s.sem .empty + atProducers ProducerPc.before s + atConsumers ConsumerPc.after s +
    tr.countP produces = max + tr.countP consumes

theorem inv_init : Inv [] (init producers consumers) where
  alive := { cancelled := fun _ => rfl, cont := fun _ => rfl, ended := rfl, life := fun _ => rfl }
  tracks t := by cases t <;> rfl
  mutex := .inl ⟨rfl, fun _ => List.not_mem_nil⟩
  items := by
    simp [atProducers, atConsumers, census, init, start, State.loc, Thread.unborn,
      ProducerPc.after, ConsumerPc.before]
  room := by
    simp [atProducers, atConsumers, census, init, start, State.loc, Thread.unborn,
      ProducerPc.before, ConsumerPc.after]

theorem producers_effect (f : ProducerPc → Bool) (ok : Bool) :
    atProducers f ((buffer producers consumers).effect s (.producer p) ok) +
        (f (s.loc (.producer p))).toNat =
      atProducers f s + (f ((code (.producer p : Tid producers consumers)
        (s.loc (.producer p))).dest (s.loc (.producer p)) s.glob ok)).toNat :=
  census_effect (P := buffer producers consumers) (e := Tid.producer) (f := fun _ => f)
    (fun _ _ h => Tid.producer.inj h) p

theorem consumers_effect (f : ConsumerPc → Bool) (ok : Bool) :
    atConsumers f ((buffer producers consumers).effect s (.consumer c) ok) +
        (f (s.loc (.consumer c))).toNat =
      atConsumers f s + (f ((code (.consumer c : Tid producers consumers)
        (s.loc (.consumer c))).dest (s.loc (.consumer c)) s.glob ok)).toNat :=
  census_effect (P := buffer producers consumers) (e := Tid.consumer) (f := fun _ => f)
    (fun _ _ h => Tid.consumer.inj h) c

theorem producers_other (f : ProducerPc → Bool) :
    atProducers f ((buffer producers consumers).effect s (.consumer c) ok) = atProducers f s :=
  census_effect_other (P := buffer producers consumers) (e := Tid.producer) (f := fun _ => f)
    (by simp)

theorem consumers_other (f : ConsumerPc → Bool) :
    atConsumers f ((buffer producers consumers).effect s (.producer p) ok) = atConsumers f s :=
  census_effect_other (P := buffer producers consumers) (e := Tid.consumer) (f := fun _ => f)
    (by simp)

/-- What one operation of a producer does to the semaphores. -/
theorem producer_balance {σ : Sem → ℕ} {l : ProducerPc}
    (he : (code (.producer p : Tid producers consumers) l).Enabled σ) (g : Unit) (ok : Bool) :
    (code (.producer p : Tid producers consumers) l).sems σ .filled + (ProducerPc.after
        ((code (.producer p : Tid producers consumers) l).dest l g ok)).toNat =
      σ .filled + l.after.toNat +
        (produces (.exec (.producer p) l ok : Label producers consumers)).toNat ∧
    (code (.producer p : Tid producers consumers) l).sems σ .empty + (ProducerPc.before
        ((code (.producer p : Tid producers consumers) l).dest l g ok)).toNat +
        (produces (.exec (.producer p) l ok : Label producers consumers)).toNat =
      σ .empty + l.before.toNat := by
  cases l with
  | waitEmpty =>
    have hpos : 0 < σ .empty := he
    exact ⟨rfl, Nat.sub_add_cancel hpos⟩
  | _ => exact ⟨rfl, rfl⟩

theorem consumer_balance {σ : Sem → ℕ} {l : ConsumerPc}
    (he : (code (.consumer c : Tid producers consumers) l).Enabled σ) (g : Unit) (ok : Bool) :
    (code (.consumer c : Tid producers consumers) l).sems σ .empty + (ConsumerPc.after
        ((code (.consumer c : Tid producers consumers) l).dest l g ok)).toNat =
      σ .empty + l.after.toNat +
        (consumes (.exec (.consumer c) l ok : Label producers consumers)).toNat ∧
    (code (.consumer c : Tid producers consumers) l).sems σ .filled + (ConsumerPc.before
        ((code (.consumer c : Tid producers consumers) l).dest l g ok)).toNat +
        (consumes (.exec (.consumer c) l ok : Label producers consumers)).toNat =
      σ .filled + l.before.toNat := by
  cases l with
  | waitFilled =>
    have hpos : 0 < σ .filled := he
    exact ⟨rfl, Nat.sub_add_cancel hpos⟩
  | _ => exact ⟨rfl, rfl⟩

theorem produces_consumer {l : ConsumerPc} :
    produces (.exec (.consumer c) l ok : Label producers consumers) = false := rfl

theorem consumes_producer {l : ProducerPc} :
    consumes (.exec (.producer p) l ok : Label producers consumers) = false := rfl

theorem laws_exec (h : Inv tr s) (he : ((buffer producers consumers).op s t).Enabled s.sem)
    (ha : a = .exec t (s.loc t) ok) :
    (tr ++ [a]).countP produces = (tr ++ [a]).countP consumes +
        ((buffer producers consumers).effect s t ok).sem .filled +
        atProducers ProducerPc.after ((buffer producers consumers).effect s t ok) +
        atConsumers ConsumerPc.before ((buffer producers consumers).effect s t ok) ∧
    ((buffer producers consumers).effect s t ok).sem .empty +
        atProducers ProducerPc.before ((buffer producers consumers).effect s t ok) +
        atConsumers ConsumerPc.after ((buffer producers consumers).effect s t ok) +
        (tr ++ [a]).countP produces =
      max + (tr ++ [a]).countP consumes := by
  subst ha
  have hitems := h.items
  have hroom := h.room
  have hsem : ((buffer producers consumers).effect s t ok).sem = (code t (s.loc t)).sems s.sem := rfl
  rw [countP_snoc, countP_snoc, hsem]
  cases t with
  | producer p =>
    obtain ⟨h1, h2⟩ := producer_balance he s.glob ok
    have h3 := producers_effect (p := p) (s := s) ProducerPc.after ok
    have h4 := producers_effect (p := p) (s := s) ProducerPc.before ok
    rw [consumers_other, consumers_other, consumes_producer, Bool.toNat_false]
    omega
  | consumer c =>
    obtain ⟨h1, h2⟩ := consumer_balance he s.glob ok
    have h3 := consumers_effect (c := c) (s := s) ConsumerPc.after ok
    have h4 := consumers_effect (c := c) (s := s) ConsumerPc.before ok
    rw [producers_other, producers_other, produces_consumer, Bool.toNat_false]
    omega

theorem inv_step (hs : (buffer producers consumers).Step s a s') (h : Inv tr s) :
    Inv (tr ++ [a]) s' := by
  obtain ⟨t, ok, rfl, rfl, -, he⟩ := h.alive.step (fun _ _ => rfl) hs
  obtain ⟨hitems, hroom⟩ := laws_exec h he rfl
  exact {
    alive := h.alive.effect (code_plain _)
    tracks := tracks_step discipline hs h.tracks
    mutex := mutex_step discipline h.tracks hs rfl (fun t l y k => code_no_copy _ y k l) h.mutex
    items := hitems
    room := hroom }

theorem inv_run (h : (buffer producers consumers).Run Any (init producers consumers) tr s) :
    Inv tr s := by
  induction h with
  | nil => exact inv_init
  | snoc _ hs _ ih => exact inv_step hs ih

/-! ## Progress -/

theorem producer_blocked {σ : Sem → ℕ} {l : ProducerPc}
    (h : ¬ (code (.producer p : Tid producers consumers) l).Enabled σ) :
    l = .waitEmpty ∧ σ .empty = 0 ∨ l = .waitMutex ∧ σ .mutex = 0 := by
  cases l with
  | waitEmpty => exact .inl ⟨rfl, Nat.eq_zero_of_not_pos h⟩
  | waitMutex => exact .inr ⟨rfl, Nat.eq_zero_of_not_pos h⟩
  | _ => exact absurd trivial h

theorem consumer_blocked {σ : Sem → ℕ} {l : ConsumerPc}
    (h : ¬ (code (.consumer c : Tid producers consumers) l).Enabled σ) :
    l = .waitFilled ∧ σ .filled = 0 ∨ l = .waitMutex ∧ σ .mutex = 0 := by
  cases l with
  | waitFilled => exact .inl ⟨rfl, Nat.eq_zero_of_not_pos h⟩
  | waitMutex => exact .inr ⟨rfl, Nat.eq_zero_of_not_pos h⟩
  | _ => exact absurd trivial h

/-- Whoever has the mutex can go on. -/
theorem holder_enabled {l : Loc t} (ht : .mutex ∈ holds t l) (σ : Sem → ℕ) :
    (code t l).Enabled σ := by
  cases t with
  | producer p =>
    cases l with
    | waitEmpty | waitMutex => cases ht
    | _ => trivial
  | consumer c =>
    cases l with
    | waitFilled | waitMutex => cases ht
    | _ => trivial

theorem mutex_free (h : Inv tr s) (hb : ∀ t, ¬ (code t (s.loc t)).Enabled s.sem) :
    s.sem .mutex ≠ 0 := by
  intro h0
  obtain ⟨h1, -⟩ | ⟨-, t, ht, -⟩ := h.mutex
  · cases h0.symm.trans h1
  · rw [h.tracks t] at ht
    exact hb t (holder_enabled ht _)

/-- Stopped threads would leave the whole capacity unaccounted for. -/
theorem some_enabled (hp : 0 < producers) (hc : 0 < consumers) (h : Inv tr s) :
    ∃ t, (code t (s.loc t)).Enabled s.sem := by
  by_contra hstop
  have hb : ∀ t, ¬ (code t (s.loc t)).Enabled s.sem := fun t he => hstop ⟨t, he⟩
  have hmutex := mutex_free h hb
  have hprod : ∀ p, s.loc (.producer p) = .waitEmpty ∧ s.sem .empty = 0 := by
    intro p
    obtain hl | ⟨-, h0⟩ := producer_blocked (hb (.producer p))
    · exact hl
    · exact absurd h0 hmutex
  have hcons : ∀ c, s.loc (.consumer c) = .waitFilled ∧ s.sem .filled = 0 := by
    intro c
    obtain hl | ⟨-, h0⟩ := consumer_blocked (hb (.consumer c))
    · exact hl
    · exact absurd h0 hmutex
  have hempty := (hprod ⟨0, hp⟩).2
  have hfilled := (hcons ⟨0, hc⟩).2
  have h1 : atProducers ProducerPc.after s = 0 := census_none fun p => by rw [(hprod p).1]; rfl
  have h2 : atProducers ProducerPc.before s = 0 := census_none fun p => by rw [(hprod p).1]; rfl
  have h3 : atConsumers ConsumerPc.after s = 0 := census_none fun c => by rw [(hcons c).1]; rfl
  have h4 : atConsumers ConsumerPc.before s = 0 := census_none fun c => by rw [(hcons c).1]; rfl
  have hitems := h.items
  have hroom := h.room
  have hmax : max = 50 := rfl
  omega

theorem producers_carry (s : State producers consumers) : atProducers ProducerPc.carries s =
    atProducers ProducerPc.before s + atProducers ProducerPc.after s :=
  census_add fun p => by cases s.loc (.producer p) <;> rfl

theorem consumers_carry (s : State producers consumers) : atConsumers ConsumerPc.carries s =
    atConsumers ConsumerPc.before s + atConsumers ConsumerPc.after s :=
  census_add fun c => by cases s.loc (.consumer c) <;> rfl

/-- The items stay within the capacity, one thread at a time has the mutex, the units of
the capacity are conserved, and some thread can go on. -/
theorem bounded_buffer (hp : 0 < producers) (hc : 0 < consumers)
    (h : (buffer producers consumers).Run Any (init producers consumers) tr s) :
    (tr.countP consumes ≤ tr.countP produces ∧ tr.countP produces ≤ tr.countP consumes + max) ∧
    (∀ t u, .mutex ∈ holds t (s.loc t) → .mutex ∈ holds u (s.loc u) → t = u) ∧
    s.sem .empty + s.sem .filled + atProducers ProducerPc.carries s +
      atConsumers ConsumerPc.carries s = max ∧
    ∃ t s', (buffer producers consumers).Step s (.exec t (s.loc t) true) s' := by
  have hi := inv_run h
  have hitems := hi.items
  have hroom := hi.room
  refine ⟨by omega, fun t u ht hu => hi.mutex.unique ?_ ?_, ?_, ?_⟩
  · rw [hi.tracks]
    exact ht
  · rw [hi.tracks]
    exact hu
  · rw [producers_carry, consumers_carry]
    omega
  · obtain ⟨t, he⟩ := some_enabled hp hc hi
    exact ⟨t, _, hi.alive.exec (P := buffer producers consumers) he true⟩

/-- Two items are produced and one of them is consumed. -/
theorem bounded_buffer_two : ∃ (tr : List (Label 1 1)) (s : State 1 1),
    (buffer 1 1).Run Any (init 1 1) tr s ∧ tr.countP produces = 2 ∧ tr.countP consumes = 1 ∧
    (tr.countP consumes ≤ tr.countP produces ∧ tr.countP produces ≤ tr.countP consumes + max) ∧
    (∀ t u, .mutex ∈ holds t (s.loc t) → .mutex ∈ holds u (s.loc u) → t = u) ∧
    s.sem .empty + s.sem .filled + atProducers ProducerPc.carries s +
      atConsumers ConsumerPc.carries s = max ∧
    ∃ t s', (buffer 1 1).Step s (.exec t (s.loc t) true) s' := by
  have hrun : ∃ tr s, (buffer 1 1).Run Any (init 1 1) tr s ∧ tr.countP produces = 2 ∧
      tr.countP consumes = 1 := by
    refine run_of_check (burst (.producer 0) 10 ++ burst (.consumer 0) 3) ?_
    decide +kernel
  obtain ⟨tr, s, h, h1, h2⟩ := hrun
  exact ⟨tr, s, h, h1, h2, bounded_buffer (by decide) (by decide) h⟩

end Buffer
