import SistemasOperativos.Copy.Code
import Mathlib.Algebra.Group.Int.Defs
import Mathlib.Tactic.Common

/-!
# Integrity of the copies

No loop looks at how much its `write` has accepted. What is refused is lost, and nothing
else is.
-/
namespace Copy

open Text

variable {origen : List Byte} {closed : Prop} {s s' : Copying} {t t' : Transfer} {a : Call}
variable {i : Side} {tr : List Call} {ts : List (Side × Call)}

/-- All that was to be written is. -/
def Call.Complete : Call → Prop
  | .read _ => True
  | .write count result => result = count

instance : DecidablePred Call.Complete
  | .read _ => isTrue trivial
  | .write count result => inferInstanceAs (Decidable (result = count))

/-- What is read and was not written in this call. -/
def Call.lost : Call → ℕ
  | .read _ => 0
  | .write count result => (count - result).toNat

theorem lost_eq_zero (h : a.Allowed closed origen) : a.lost = 0 ↔ a.Complete := by
  cases a with
  | read r => simp [Call.lost, Call.Complete]
  | write count r =>
    obtain ⟨-, hle⟩ := h
    simp only [Call.lost, Call.Complete]
    omega

/-! ## One loop -/

/-- What the loop has read and not yet written. -/
def Pc.held : Pc → List Byte
  | .write _ buff => buff
  | _ => []

/-- `numByt` is the number of bytes in `buff`. -/
def Pc.Sound : Pc → Prop
  | .write numByt buff => numByt = buff.length
  | _ => True

def Copying.content (s : Copying) : List Byte := s.output ++ (s.loop.pc.held ++ s.input)

theorem next_read {numByt : ℤ} (h : s.next (.read numByt) = some s') : s.loop.pc = .read ∧
    s' = if numByt = 0 then { s with loop := { s.loop with pc := .ended } }
      else { s with
        input := s.input.drop numByt.toNat
        loop := ⟨.write numByt (s.input.take numByt.toNat), int (s.loop.total + numByt)⟩ } := by
  cases hpc : s.loop.pc with
  | read =>
    simp only [Copying.next, hpc] at h
    split at h
    · rename_i h0
      cases h
      exact ⟨rfl, (if_pos h0).symm⟩
    · rename_i h0
      cases h
      exact ⟨rfl, (if_neg h0).symm⟩
  | _ => simp [Copying.next, hpc] at h

theorem next_write {count result : ℤ} (h : s.next (.write count result) = some s') :
    ∃ buff, s.loop.pc = .write count buff ∧ s' = { s with
      loop := { s.loop with pc := .read }
      output := s.output ++ buff.take result.toNat } := by
  cases hpc : s.loop.pc with
  | write numByt buff =>
    simp only [Copying.next, hpc, Option.ite_none_right_eq_some, Option.some.injEq] at h
    obtain ⟨rfl, rfl⟩ := h
    exact ⟨buff, rfl, rfl⟩
  | _ => simp [Copying.next, hpc] at h

/-- What one call does to a loop. -/
structure Moved (closed : Prop) (a : Call) (s s' : Copying) : Prop where
  sound : s'.loop.pc.Sound
  content : a.Complete → s'.content = s.content
  length : s'.content.length + a.lost = s.content.length
  input : s'.input.length ≤ s.input.length
  total : s'.loop.total = int (s.loop.total + (s.input.length - s'.input.length))
  ended : s'.loop.pc = .ended → s'.input = [] ∧ closed

theorem next_moved (hs : s.loop.pc.Sound) (ht : s.loop.total = int s.loop.total)
    (ha : a.Allowed closed s.input) (h : s.next a = some s') : Moved closed a s s' := by
  cases a with
  | read numByt =>
    obtain ⟨hpc, rfl⟩ := next_read h
    obtain ⟨hnil, hclosed, h0⟩ | ⟨hpos, -, hle⟩ := ha
    · rw [if_pos h0]
      exact {
        sound := trivial
        content := fun _ => by simp [Copying.content, hpc, Pc.held]
        length := by simp [Copying.content, hpc, Pc.held, Call.lost]
        input := Nat.le_refl _
        total := by simpa using ht
        ended := fun _ => ⟨hnil, hclosed⟩ }
    · rw [if_neg (by omega)]
      have hcontent : s.input.take numByt.toNat ++ s.input.drop numByt.toNat = s.input :=
        List.take_append_drop _ _
      exact {
        sound := by
          simp only [Pc.Sound, List.length_take]
          omega
        content := fun _ => by simp [Copying.content, hpc, Pc.held, hcontent]
        length := by simp only [Copying.content, hpc, Pc.held, Call.lost, hcontent]; rfl
        input := by simp
        total := by
          simp only [List.length_drop]
          congr 2
          omega
        ended := fun hend => by cases hend }
  | write count result =>
    obtain ⟨buff, hpc, rfl⟩ := next_write h
    rw [hpc] at hs
    have hbuff : count = buff.length := hs
    obtain ⟨hpos, hle⟩ := ha
    exact {
      sound := trivial
      content := fun hc => by
        have hr : result = count := hc
        have hall : result.toNat = buff.length := by omega
        simp [Copying.content, hpc, Pc.held, hall]
      length := by
        simp only [Copying.content, hpc, Pc.held, Call.lost, List.length_append, List.length_take,
          List.length_nil]
        omega
      input := Nat.le_refl _
      total := by simpa using ht
      ended := fun hend => by cases hend }

/-- The only call after which a loop is at no call. -/
theorem next_of_ended (h : s.loop.pc = .ended) (a : Call) : s.next a = none := by
  cases a <;> simp [Copying.next, h]

theorem int_int_add (x y : ℤ) : int (int x + y) = int (x + y) := Int.bmod_add_bmod

theorem int_int (x : ℤ) : int (int x) = int x := Int.bmod_bmod

theorem int_eq_self {n : ℕ} : int n = n ↔ n < 2 ^ 31 := by
  constructor
  · intro h
    have hlt : int n < ((2 ^ 32 : ℕ) + 1) / 2 := Int.bmod_lt (by decide)
    omega
  · intro h
    exact Int.bmod_eq_of_le_mul_two (by omega) (by omega)

/-! ## `nicoe.c` -/

def lostIn (tr : List Call) : ℕ := (tr.map Call.lost).sum

theorem lostIn_snoc : lostIn (tr ++ [a]) = lostIn tr + a.lost := by
  simp [lostIn]

theorem lost_of_lostIn (h : lostIn tr = 0) (ha : a ∈ tr) : a.lost = 0 :=
  List.sum_eq_zero_iff_forall_eq_nat.mp h _ (List.mem_map_of_mem ha)

structure NicoeInv (origen : List Byte) (tr : List Call) (s : Copying) : Prop where
  sound : s.loop.pc.Sound
  total : s.loop.total = int (origen.length - s.input.length)
  content : (∀ a ∈ tr, a.Complete) → s.content = origen
  length : s.content.length + lostIn tr = origen.length
  calls : ∀ a ∈ tr, a.lost = 0 → a.Complete
  ended : s.loop.pc = .ended → s.input = []

theorem nicoe_inv (h : Nicoe origen tr s) : NicoeInv origen tr s := by
  induction h with
  | start =>
    exact {
      sound := trivial
      total := by
        rw [sub_self]
        rfl
      content := fun _ => rfl
      length := rfl
      calls := by simp
      ended := fun hend => by cases hend }
  | @call tr s s' a _ ha hs ih =>
    have hm := next_moved ih.sound (by rw [ih.total, int_int]) ha hs
    have hlen := hm.length
    have hold := ih.length
    exact {
      sound := hm.sound
      total := by
        rw [hm.total, ih.total, int_int_add]
        congr 1
        omega
      content := fun hall => by
        rw [hm.content (hall a (by simp)), ih.content fun b hb => hall b (by simp [hb])]
      length := by
        rw [lostIn_snoc]
        omega
      calls := by
        simp only [List.mem_append, List.mem_singleton, or_imp, forall_and, forall_eq]
        exact ⟨ih.calls, (lost_eq_zero ha).mp⟩
      ended := fun hend => (hm.ended hend).1 }

theorem nicoe_iff (h : Nicoe origen tr s) (hend : s.loop.pc = .ended) :
    (s.output = origen ∧ s.loop.total = s.output.length) ↔
      (∀ a ∈ tr, a.Complete) ∧ origen.length < 2 ^ 31 := by
  have hi := nicoe_inv h
  have hcontent : s.content = s.output := by
    simp [Copying.content, hend, Pc.held, hi.ended hend]
  have htotal : s.loop.total = int origen.length := by
    rw [hi.total, hi.ended hend, List.length_nil, Nat.cast_zero, sub_zero]
  have hlen := hi.length
  rw [hcontent] at hlen
  constructor
  · rintro ⟨hcopy, hprinted⟩
    rw [hcopy] at hlen hprinted
    have hnone : lostIn tr = 0 := by omega
    exact ⟨fun a ha => hi.calls a ha (lost_of_lostIn hnone ha),
      int_eq_self.mp (htotal.symm.trans hprinted)⟩
  · rintro ⟨hall, hsize⟩
    have hcopy : s.output = origen := hcontent.symm.trans (hi.content hall)
    rw [hcopy, htotal]
    exact ⟨rfl, int_eq_self.mpr hsize⟩

/-! ## The server and the client -/

namespace Transfer

/-- Every byte on its way, from the file of the client to that of the server. -/
def content (t : Transfer) : List Byte :=
  t.destino ++ (t.client.pc.held ++ (t.connection ++ (t.server.pc.held ++ t.origen)))

theorem content_server (t : Transfer) :
    t.content = t.destino ++ (t.client.pc.held ++ t.serverSide.content) := rfl

theorem content_client (t : Transfer) :
    t.content = t.clientSide.content ++ (t.server.pc.held ++ t.origen) := by
  simp [content, Copying.content, clientSide]

end Transfer

structure SckInv (origen : List Byte) (ts : List (Side × Call)) (t : Transfer) : Prop where
  server : t.server.pc.Sound
  client : t.client.pc.Sound
  serverTotal : t.server.total = int t.server.total
  clientTotal : t.client.total = int t.client.total
  content : (∀ x ∈ ts, x.2.Complete) → t.content = origen
  length : t.content.length + lostIn (ts.map Prod.snd) = origen.length
  calls : ∀ x ∈ ts, x.2.lost = 0 → x.2.Complete
  serverEnded : t.server.pc = .ended → t.origen = []
  clientEnded : t.client.pc = .ended → t.connection = [] ∧ t.server.pc = .ended

/-- What every call keeps of the invariant. -/
theorem sck_step (hi : SckInv origen ts t) (ha : t.Allowed i a) (hs : t.next i a = some t') :
    t'.server.pc.Sound ∧ t'.client.pc.Sound ∧ t'.server.total = int t'.server.total ∧
      t'.client.total = int t'.client.total ∧ (a.Complete → t'.content = t.content) ∧
      t'.content.length + a.lost = t.content.length ∧
      (t'.server.pc = .ended → t'.origen = []) ∧
      (t'.client.pc = .ended → t'.connection = [] ∧ t'.server.pc = .ended) := by
  cases i with
  | server =>
    obtain ⟨c, hc, rfl⟩ := Option.map_eq_some_iff.mp hs
    have hm := next_moved (s := t.serverSide) hi.server hi.serverTotal ha hc
    have htotal : c.loop.total = int c.loop.total := by
      rw [hm.total, int_int]
    refine ⟨hm.sound, hi.client, htotal, hi.clientTotal, fun hall => ?_, ?_,
      fun hend => (hm.ended hend).1, fun hend => ?_⟩
    · exact congrArg (fun b => t.destino ++ (t.client.pc.held ++ b)) (hm.content hall)
    · have hlen := hm.length
      rw [Transfer.content_server, Transfer.content_server]
      simp only [List.length_append] at hlen ⊢
      have hc' : ({ t with origen := c.input, server := c.loop, connection := c.output } :
          Transfer).serverSide = c := rfl
      rw [hc']
      omega
    · -- the server has ended before the client, and makes no call
      have hnone := next_of_ended (s := t.serverSide) (hi.clientEnded hend).2 a
      cases hnone.symm.trans hc
  | client =>
    obtain ⟨c, hc, rfl⟩ := Option.map_eq_some_iff.mp hs
    have hm := next_moved (s := t.clientSide) hi.client hi.clientTotal ha hc
    have htotal : c.loop.total = int c.loop.total := by
      rw [hm.total, int_int]
    have hc' : ({ t with connection := c.input, client := c.loop, destino := c.output } :
        Transfer).clientSide = c := rfl
    refine ⟨hi.server, hm.sound, hi.serverTotal, htotal, fun hall => ?_, ?_, hi.serverEnded,
      fun hend => hm.ended hend⟩
    · rw [Transfer.content_client, Transfer.content_client, hc', hm.content hall]
    · have hlen := hm.length
      rw [Transfer.content_client, Transfer.content_client, hc']
      simp only [List.length_append] at hlen ⊢
      omega

theorem sck_inv (h : Sck origen ts t) : SckInv origen ts t := by
  induction h with
  | start =>
    exact {
      server := trivial
      client := trivial
      serverTotal := rfl
      clientTotal := rfl
      content := fun _ => rfl
      length := rfl
      calls := by simp
      serverEnded := fun hend => by cases hend
      clientEnded := fun hend => by cases hend }
  | @call ts t t' i a _ ha hs ih =>
    obtain ⟨hserver, hclient, hst, hct, hcontent, hlen, hsend, hcend⟩ := sck_step ih ha hs
    have hold := ih.length
    have hlost : a.lost = 0 ↔ a.Complete := by
      cases i with
      | server => exact lost_eq_zero ha
      | client => exact lost_eq_zero ha
    exact {
      server := hserver
      client := hclient
      serverTotal := hst
      clientTotal := hct
      content := fun hall => by
        rw [hcontent (hall (i, a) (by simp)), ih.content fun x hx => hall x (by simp [hx])]
      length := by
        rw [List.map_append, List.map_singleton, lostIn_snoc]
        dsimp only
        omega
      calls := by
        simp only [List.mem_append, List.mem_singleton, or_imp, forall_and, forall_eq]
        exact ⟨ih.calls, hlost.mp⟩
      serverEnded := hsend
      clientEnded := hcend }

theorem sck_iff (h : Sck origen ts t) (hend : t.client.pc = .ended) :
    t.destino = origen ↔ ∀ x ∈ ts, x.2.Complete := by
  have hi := sck_inv h
  obtain ⟨hconn, hserver⟩ := hi.clientEnded hend
  have hcontent : t.content = t.destino := by
    simp [Transfer.content, hend, hserver, Pc.held, hconn, hi.serverEnded hserver]
  have hlen := hi.length
  rw [hcontent] at hlen
  constructor
  · intro hcopy x hx
    rw [hcopy] at hlen
    have hnone : lostIn (ts.map Prod.snd) = 0 := by omega
    exact hi.calls x hx (lost_of_lostIn hnone (List.mem_map_of_mem hx))
  · intro hall
    exact hcontent.symm.trans (hi.content hall)

/-- A copy is the file if and only if every write has accepted all it was given; for the
total, the file must also be shorter than the `int` range. -/
theorem copy_integrity (origen : List Byte) :
    (∀ ts t, Sck origen ts t → t.server.pc = .ended → t.client.pc = .ended →
      (t.destino = origen ↔ ∀ x ∈ ts, x.2.Complete)) ∧
    ∀ tr s, Nicoe origen tr s → s.loop.pc = .ended →
      ((s.output = origen ∧ s.loop.total = s.output.length) ↔
        (∀ a ∈ tr, a.Complete) ∧ origen.length < 2 ^ 31) :=
  ⟨fun _ _ h _ hend => sck_iff h hend, fun _ _ h hend => nicoe_iff h hend⟩

/-! ## Runs that are executed -/

instance [Decidable closed] (input : List Byte) : (a : Call) → Decidable (a.Allowed closed input)
  | .read _ => inferInstanceAs (Decidable (_ ∨ _))
  | .write _ _ => inferInstanceAs (Decidable (_ ∧ _))

instance (t : Transfer) : (i : Side) → (a : Call) → Decidable (t.Allowed i a)
  | .server, a => inferInstanceAs (Decidable (a.Allowed True t.origen))
  | .client, a => inferInstanceAs (Decidable (a.Allowed (t.server.pc = .ended) t.connection))

def Transfer.play : List (Side × Call) → Transfer → Option Transfer
  | [], t => some t
  | (i, a) :: ts, t => if t.Allowed i a then (t.next i a).bind (play ts) else none

theorem sck_of_play {ts' : List (Side × Call)} (h : Sck origen ts t)
    (hp : t.play ts' = some t') : Sck origen (ts ++ ts') t' := by
  induction ts' generalizing ts t with
  | nil =>
    cases hp
    rwa [List.append_nil]
  | cons x ts' ih =>
    simp only [Transfer.play, Option.ite_none_right_eq_some, Option.bind_eq_some_iff] at hp
    obtain ⟨ha, u, hu, hp⟩ := hp
    simpa using ih (.call h ha hu) hp

def Copying.play : List Call → Copying → Option Copying
  | [], s => some s
  | a :: tr, s => if a.Allowed True s.input then (s.next a).bind (play tr) else none

theorem nicoe_of_play {tr' : List Call} (h : Nicoe origen tr s) (hp : s.play tr' = some s') :
    Nicoe origen (tr ++ tr') s' := by
  induction tr' generalizing tr s with
  | nil =>
    cases hp
    rwa [List.append_nil]
  | cons a tr' ih =>
    simp only [Copying.play, Option.ite_none_right_eq_some, Option.bind_eq_some_iff] at hp
    obtain ⟨ha, u, hu, hp⟩ := hp
    simpa using ih (.call h ha hu) hp

/-- A file of five bytes that is sent in two parts and received in three. -/
def sent : List (Side × Call) :=
  [(.server, .read 3), (.server, .write 3 3), (.client, .read 2), (.server, .read 2),
    (.client, .write 2 2), (.server, .write 2 2), (.client, .read 1), (.server, .read 0),
    (.client, .write 1 1), (.client, .read 2), (.client, .write 2 2), (.client, .read 0)]

theorem copy_integrity_sent : ∃ t, Sck [1, 2, 3, 4, 5] sent t ∧ t.destino = [1, 2, 3, 4, 5] := by
  obtain ⟨t, ht⟩ : ∃ t, Transfer.play sent ⟨[1, 2, 3, 4, 5], .start, [], .start, []⟩ = some t :=
    ⟨_, rfl⟩
  have hrun : Sck [1, 2, 3, 4, 5] sent t := sck_of_play .start ht
  have hended : t.server.pc = .ended ∧ t.client.pc = .ended := by
    cases ht
    exact ⟨rfl, rfl⟩
  have hall : ∀ x ∈ sent, x.2.Complete := by
    decide
  exact ⟨t, hrun, ((copy_integrity [1, 2, 3, 4, 5]).1 sent t hrun hended.1 hended.2).mpr hall⟩

/-- One write of three accepts two bytes: the copy lacks the third byte, and the total that is
printed counts it. -/
theorem short_write :
    (∃ ts t, Sck [1, 2, 3, 4] ts t ∧ t.server.pc = .ended ∧ t.client.pc = .ended ∧
      t.destino = [1, 2, 4]) ∧
    ∃ tr s, Nicoe [1, 2, 3, 4] tr s ∧ s.loop.pc = .ended ∧ s.output = [1, 2, 4] ∧
      s.loop.total = 4 := by
  constructor
  · refine ⟨[(.server, .read 3), (.server, .write 3 2), (.server, .read 1), (.server, .write 1 1),
      (.server, .read 0), (.client, .read 3), (.client, .write 3 3), (.client, .read 0)], _,
      sck_of_play .start rfl, rfl, rfl, rfl⟩
  · exact ⟨[.read 3, .write 3 2, .read 1, .write 1 1, .read 0], _, nicoe_of_play .start rfl,
      rfl, rfl, rfl⟩

end Copy
