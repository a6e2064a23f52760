import Mathlib.Data.List.FinRange
import Mathlib.Data.Fintype.Card
import Mathlib.Data.List.Perm.Basic
import SistemasOperativos.Sistema.Sends
import SistemasOperativos.Sistema.Schedules

/-!
# The dashboard

`dashboard.c` counts the datagrams it prints, and knows nothing of the barrier.
-/
namespace Sistema

open Threads Threads.Program

/-! ## What is sent in a round -/

def sent : Label → Option Msg
  | .exec t l ok => (code t l).sent ok
  | _ => none

/-- A datagram with the slot of the thread that sends it. -/
def sentBy : Label → Option (Slot × Msg)
  | .exec t l ok => (slotOf t).bind fun i => ((code t l).sent ok).map (i, ·)
  | _ => none

/-- The datagrams between the releases of a run. -/
structure Rounds where
  past : List (List (Slot × Msg))
  current : List (Slot × Msg)

def Rounds.step (r : Rounds) (a : Label) : Rounds :=
  if event a = some .release then ⟨r.past ++ [r.current], []⟩
  else ⟨r.past, r.current ++ (sentBy a).toList⟩

def rounds (tr : List Label) : Rounds := tr.foldl Rounds.step ⟨[], []⟩

/-- The datagrams sent in the `k`-th round, the one in progress included. -/
def sentIn (tr : List Label) (k : ℕ) : Option (List (Slot × Msg)) :=
  ((rounds tr).past ++ [(rounds tr).current])[k]?

/-! ## The program -/

inductive Line
  | mensaje (m : Msg)
  | error
  | separador
  deriving DecidableEq, Repr

/-- `receiving` is at `recvfrom`, and not at the test of the counter. -/
structure Dashboard where
  msgRead : ℕ
  receiving : Bool
  out : List Line

/-- `recvfrom` and its branches. -/
def Dashboard.recvfrom (d : Dashboard) : Option Msg → Dashboard
  | some m => ⟨d.msgRead + 1, false, d.out ++ [.mensaje m]⟩
  | none => ⟨d.msgRead, false, d.out ++ [.error]⟩

def Dashboard.test (d : Dashboard) : Dashboard :=
  if d.msgRead = 7 then ⟨0, true, d.out ++ [.separador]⟩ else { d with receiving := true }

/-- The controller, the datagrams on their way in order, and the dashboard. -/
structure Link where
  ctl : State
  queue : List Msg
  dash : Dashboard

/-- The two programs interleaved, with the labels of the controller's steps. -/
inductive Link.Run (C : State → Label → Prop) (s₀ : State) : List Label → Link → Prop
  | start : Link.Run C s₀ [] ⟨s₀, [], ⟨0, true, []⟩⟩
  | controller {tr : List Label} {x : Link} {a : Label} {s' : State} (h : Link.Run C s₀ tr x)
      (hs : sistema.Step x.ctl a s') (hc : C x.ctl a) :
      Link.Run C s₀ (tr ++ [a]) { x with ctl := s', queue := x.queue ++ (sent a).toList }
  | receive {tr : List Label} {x : Link} {m : Msg} {q : List Msg} (h : Link.Run C s₀ tr x)
      (hr : x.dash.receiving = true) (hq : x.queue = m :: q) :
      Link.Run C s₀ tr { x with queue := q, dash := x.dash.recvfrom (some m) }
  | fail {tr : List Label} {x : Link} (h : Link.Run C s₀ tr x) (hr : x.dash.receiving = true) :
      Link.Run C s₀ tr { x with dash := x.dash.recvfrom none }
  | test {tr : List Label} {x : Link} (h : Link.Run C s₀ tr x) (hr : x.dash.receiving = false) :
      Link.Run C s₀ tr { x with dash := x.dash.test }

/-- The messages between separators, and those after the last one. -/
def collect (b : List (List Msg) × List Msg) : Line → List (List Msg) × List Msg
  | .mensaje m => (b.1, b.2 ++ [m])
  | .error => b
  | .separador => (b.1 ++ [b.2], [])

def blocks (out : List Line) : List (List Msg) × List Msg := out.foldl collect ([], [])

@[simp] theorem blocks_snoc (out : List Line) (l : Line) :
    blocks (out ++ [l]) = collect (blocks out) l := by
  simp [blocks]

@[simp] theorem rounds_snoc (tr : List Label) (a : Label) :
    rounds (tr ++ [a]) = (rounds tr).step a := by
  simp [rounds]

/-! ## Rounds of seven -/

/-- Two cuttings of one list into pieces of the same length. -/
theorem getElem?_of_flatten {α : Type} {n : ℕ} (hn : 0 < n) {bs rs : List (List α)} {c d : List α}
    (hb : ∀ b ∈ bs, b.length = n) (hr : ∀ r ∈ rs, r.length = n) (hd : d.length ≤ n)
    (h : bs.flatten ++ c = rs.flatten ++ d) {k : ℕ} {b : List α} (hk : bs[k]? = some b) :
    (rs ++ [d])[k]? = some b := by
  induction bs generalizing rs k with
  | nil => cases hk
  | cons x bs ih =>
    have hx := hb x List.mem_cons_self
    cases rs with
    | nil =>
      simp only [List.flatten_cons, List.flatten_nil, List.nil_append, List.append_assoc] at h
      have hlen := congrArg List.length h
      simp only [List.length_append] at hlen
      have hbs : bs = [] := by
        cases bs with
        | nil => rfl
        | cons y bs =>
          have hy := hb y (by simp)
          simp only [List.flatten_cons, List.length_append] at hlen
          omega
      subst hbs
      have hc : c = [] := List.length_eq_zero_iff.mp (by omega)
      subst hc
      cases k with
      | zero => simpa [← h] using hk
      | succ k => cases hk
    | cons r rs =>
      have hr' := hr r List.mem_cons_self
      simp only [List.flatten_cons, List.append_assoc] at h
      obtain ⟨rfl, h'⟩ := List.append_inj h (by omega)
      cases k with
      | zero => simpa using hk
      | succ k =>
        exact ih (fun b hb' => hb b (List.mem_cons_of_mem _ hb'))
          (fun r hr' => hr r (List.mem_cons_of_mem _ hr')) h' hk

theorem perm_of_count {l : List Slot} (h : ∀ i, l.count i = 1) : l.Perm (List.finRange 7) := by
  rw [List.perm_iff_count]
  intro i
  rw [h, List.count_eq_one_of_mem (List.nodup_finRange 7) (List.mem_finRange i)]

/-- Seven datagrams with no slot twice are one of each slot. -/
theorem perm_of_length {l : List Slot} (h : ∀ i, l.count i ≤ 1) (hl : l.length = 7) :
    l.Perm (List.finRange 7) := by
  have hn : l.Nodup := List.nodup_iff_count_le_one.mpr h
  have hall : l.toFinset = Finset.univ := by
    apply Finset.eq_univ_of_card
    rw [List.toFinset_card_of_nodup hn, hl]
    rfl
  refine perm_of_count fun i => List.count_eq_one_of_mem hn ?_
  rw [← List.mem_toFinset, hall]
  exact Finset.mem_univ i

/-! ## The controller's rounds -/

variable {s s' : State} {a : Label} {t : Tid} {i : Slot} {b : Barrier.Ledger Slot} {ok : Bool}

/-- The datagrams of a slot in a step. -/
def sentCount (i : Slot) (a : Label) : ℕ := ((sentBy a).toList.map Prod.fst).count i

theorem sentCount_exec (l : Loc t) : sentCount i (.exec t l ok) =
    if slotOf t = some i then ((code t l).sent ok).toList.length else 0 := by
  simp only [sentCount, sentBy]
  cases hs : slotOf t with
  | none => simp
  | some j =>
    cases (code t l).sent ok with
    | none => simp
    | some m => by_cases hj : j = i <;> simp [hj]

theorem sentBy_release (h : event a = some .release) : sentBy a = none := by
  cases a with
  | exec t l ok =>
    by_cases ht : t = .main
    · subst ht
      rfl
    · exact absurd h (event_ne_release ht)
  | _ => rfl

/-- Each message is sent before it is counted, and after the wait. -/
theorem ahead_step (hs : sistema.Step s a s') (hd : Delivers a) (hn : NoInt a)
    (hf : FirstTry s) (hi : EngineInv s) (h1 : s.glob.engines ≤ 1) (h1' : s'.glob.engines ≤ 1)
    (i : Slot) : (phaseAt s' i).ahead + (if event a = some (.count i) then 1 else 0) =
      (phaseAt s i).ahead + sentCount i a := by
  have hrep := reporter_single h1' h1 i
  have hslot := slotOf_reporter s.glob i
  unfold phaseAt
  rw [hrep]
  cases hs with
  | @exec t ok hr _ _ =>
    rw [sentCount_exec]
    by_cases ht : slotOf t = some i
    · have htr := reporter_of_running hi h1 hr ht
      rw [← htr, effect_loc_self, if_pos ht]
      have := ahead_dest (g := s.glob) (hf t) hd
      have hop : sistema.op s t = code t (s.loc t) := rfl
      simpa only [event_count, ht, and_true, hop] using this
    · have hne : reporter s.glob i ≠ t := by
        rintro rfl
        exact ht hslot
      rw [effect_loc_of_ne hne, if_neg ht, if_neg fun h => ht (event_count.mp h).2]
  | die =>
    rw [die_loc]
    rfl
  | @cont t _ _ =>
    by_cases ht : reporter s.glob i = t
    · subst ht
      rw [wake_loc_self]
      split
      · rename_i hint
        have hout := interruptible_outside hint (hf _)
        have := ahead_enters (inSend_none hout s.glob true).2
        exact (congrArg (· + 0) (this.trans (ahead_outside hout).symm))
      · rfl
    · rw [wake_loc_of_ne ht]
      rfl
  | int => exact hn.elim
  | env => rfl

/-- Past rounds hold one datagram of each slot, and the current one at most one. -/
structure RoundsInv (s : State) (b : Barrier.Ledger Slot) (r : Rounds) : Prop where
  length : r.past.length = b.releases
  past : ∀ x ∈ r.past, (x.map Prod.fst).Perm (List.finRange 7)
  current : ∀ i, (r.current.map Prod.fst).count i + b.releases = b.count i + (phaseAt s i).ahead

theorem ahead_early {p : Phase} (h : p.ahead ≠ 0) : p.early = true := by
  cases p <;> simp_all [Phase.ahead, Phase.early]

theorem ahead_le (p : Phase) : p.ahead ≤ 1 := by
  cases p <;> simp [Phase.ahead]

theorem RoundsInv.count_le {r : Rounds} (h : RoundsInv s b r) (hb : BarrierInv s b) (i : Slot) :
    (r.current.map Prod.fst).count i ≤ 1 := by
  have hc := h.current i
  have hle := hb.ok.count_le_releases i
  by_cases ha : (phaseAt s i).ahead = 0
  · omega
  · have he := hb.early i (ahead_early ha)
    have := ahead_le (phaseAt s i)
    have := hb.ok.took_le i
    have := hb.ok.posted_le i
    omega

/-- At a release every slot has sent and counted. -/
theorem RoundsInv.full {r : Rounds} (h : RoundsInv s b r) (hb : BarrierInv s b)
    (he : b.Enabled .release) (i : Slot) : (r.current.map Prod.fst).count i = 1 ∧
      (phaseAt s i).ahead = 0 ∧ b.count i = b.releases + 1 := by
  have hlt : b.releases < b.count i := he i
  have hle := hb.ok.count_le_releases i
  have ha : (phaseAt s i).ahead = 0 := by
    by_contra ha
    have he := hb.early i (ahead_early ha)
    have := hb.ok.took_le i
    have := hb.ok.posted_le i
    omega
  have hc := h.current i
  exact ⟨by omega, ha, by omega⟩

theorem roundsInv_step {r : Rounds} (hs : sistema.Step s a s') (hst : Steady s a)
    (hd : Delivers a) (hf : FirstTry s) (hi : EngineInv s)
    (hr : Replaced EnginePc.uncounted s) (h1 : s.glob.engines ≤ 1) (h1' : s'.glob.engines ≤ 1)
    (hb : BarrierInv s b) (h : RoundsInv s b r) : RoundsInv s' (b.record (event a)) (r.step a) := by
  have hahead := ahead_step hs hd hst.1 hf hi h1 h1'
  unfold Rounds.step
  by_cases he : event a = some .release
  · have hfull := h.full hb (enabled_step hs hst hi hr hb _ he)
    rw [if_pos he, he]
    refine ⟨?_, fun x hx => ?_, fun i => ?_⟩
    · simp [h.length, Barrier.Ledger.record, Barrier.Ledger.apply]
    · obtain hx | hx := List.mem_append.mp hx
      · exact h.past x hx
      · obtain rfl := List.mem_singleton.mp hx
        exact perm_of_count fun i => (hfull i).1
    · obtain ⟨_, h0, hc⟩ := hfull i
      have := hahead i
      have hsent : sentCount i a = 0 := by simp [sentCount, sentBy_release he]
      rw [he] at this
      simp only [Barrier.Ledger.record, Option.elim, Barrier.Ledger.apply, List.map_nil,
        List.count_nil]
      simp at this
      omega
  · rw [if_neg he]
    refine ⟨?_, h.past, fun i => ?_⟩
    · rw [Barrier.Ledger.record_releases_of_ne he]
      exact h.length
    · rw [Barrier.Ledger.record_releases_of_ne he, List.map_append, List.count_append]
      have hc := h.current i
      have ha := hahead i
      unfold sentCount at ha
      by_cases hcount : event a = some (.count i)
      · rw [if_pos hcount] at ha
        rw [hcount, Barrier.Ledger.record_count]
        omega
      · rw [if_neg hcount] at ha
        rw [Barrier.Ledger.record_count_of_ne hcount]
        omega

variable {inp : Input} {tr : List Label} {x : Link}

/-- Every `sendto` succeeds, and neither `terminte_program` nor a restart begins. -/
def Lossless (s : State) (a : Label) : Prop := Calm s a ∧ Delivers a

instance (s : State) (a : Label) : Decidable (Lossless s a) := inferInstanceAs (Decidable (_ ∧ _))

theorem phase_ahead_init (inp : Input) (i : Slot) : (phaseAt (init inp) i).ahead = 0 := by
  rw [phaseAt_init]
  rfl

theorem rounds_run (h : sistema.Run Lossless (init inp) tr s) :
    FirstTry s ∧ RoundsInv s (Barrier.ledger (events tr)) (rounds tr) := by
  have hC : ∀ s a, Lossless s a → Calm s a := fun _ _ hc => hc.1
  induction h with
  | nil =>
    refine ⟨fun t n => ?_, rfl, nofun, fun i => ?_⟩
    · cases t <;> nofun
    · rw [phase_ahead_init]
      rfl
  | @snoc tr s s' a hrun hs hc ih =>
    have hsteady := calm_steady hrun hC
    have hr := replaced_run uncounted_kept (fun s a hc => hc.1.2) hsteady
    have hb := (barrier_run hsteady fun _ _ hc => hc.1).2
    have h1 := single_engine hrun hC
    have h1' := single_engine (hrun.snoc hs hc) hC
    have hst : Steady s a := by
      refine ⟨hc.1.1, fun hcan => ?_⟩
      unfold cancelsEngine at hcan
      split at hcan
      · have := never_managing hrun hC
        rw [hs.exec_inv.1] at this
        cases this
      · cases hcan
    refine ⟨firstTry_step hs hc.2 ih.1, ?_⟩
    rw [events_snoc, Barrier.ledger_record, rounds_snoc]
    exact roundsInv_step hs hst hc.2 ih.1 (engineInv hrun) hr h1 h1' hb ih.2

/-! ## The dashboard's blocks -/

theorem Link.Run.controller_run {C : State → Label → Prop} {s₀ : State}
    (h : Link.Run C s₀ tr x) : sistema.Run C s₀ tr x.ctl := by
  induction h with
  | start => exact .nil
  | controller _ hs hc ih => exact .snoc ih hs hc
  | _ => assumption

theorem sentBy_snd (a : Label) : (sentBy a).map Prod.snd = sent a := by
  cases a with
  | exec t l ok =>
    simp only [sentBy, sent]
    cases hs : slotOf t with
    | none =>
      have hin : inSend t l = none := by
        cases t with
        | main | gyroscopeThread | goUp30m => rfl
        | _ => cases hs
      rw [sent_none (inSend_sendto hin)]
      rfl
    | some i => simp
  | _ => rfl

/-- The dashboard's counter is the length of its block, and nothing is lost or
reordered on the way to it. -/
structure LinkInv (tr : List Label) (x : Link) : Prop where
  count : x.dash.msgRead = (blocks x.dash.out).2.length
  bound : x.dash.msgRead ≤ 7
  receiving : x.dash.receiving = true → x.dash.msgRead < 7
  sizes : ∀ b ∈ (blocks x.dash.out).1, b.length = 7
  fifo : (blocks x.dash.out).1.flatten ++ ((blocks x.dash.out).2 ++ x.queue) =
    ((rounds tr).past.map (List.map Prod.snd)).flatten ++ (rounds tr).current.map Prod.snd

theorem fifo_step (tr : List Label) (a : Label) :
    ((rounds (tr ++ [a])).past.map (List.map Prod.snd)).flatten ++
        (rounds (tr ++ [a])).current.map Prod.snd =
      ((rounds tr).past.map (List.map Prod.snd)).flatten ++ (rounds tr).current.map Prod.snd ++
        (sent a).toList := by
  rw [rounds_snoc]
  unfold Rounds.step
  by_cases he : event a = some .release
  · have hs : sent a = none := by rw [← sentBy_snd, sentBy_release he]; rfl
    simp [he, hs]
  · rw [if_neg he, ← sentBy_snd]
    cases sentBy a <;> simp

theorem linkInv {C : State → Label → Prop} {s₀ : State} (h : Link.Run C s₀ tr x) :
    LinkInv tr x := by
  induction h with
  | start => exact ⟨rfl, Nat.zero_le _, fun _ => Nat.zero_lt_succ 6, nofun, rfl⟩
  | @controller tr x a s' _ hs hc ih =>
    refine ⟨ih.count, ih.bound, ih.receiving, ih.sizes, ?_⟩
    rw [fifo_step, ← ih.fifo]
    simp
  | @receive tr x m q _ hr hq ih =>
    have hlt := ih.receiving hr
    refine ⟨?_, hlt, nofun, ?_, ?_⟩
    · simp [Dashboard.recvfrom, collect, ih.count]
    · simpa [Dashboard.recvfrom, collect] using ih.sizes
    · rw [← ih.fifo, hq]
      simp [Dashboard.recvfrom, collect]
  | fail _ hr ih =>
    refine ⟨?_, ih.bound, nofun, ?_, ?_⟩
    · simp [Dashboard.recvfrom, collect, ih.count]
    · simpa [Dashboard.recvfrom, collect] using ih.sizes
    · rw [← ih.fifo]
      simp [Dashboard.recvfrom, collect]
  | @test tr x _ hr ih =>
    have hb := ih.bound
    unfold Dashboard.test
    split
    · rename_i h7
      refine ⟨?_, Nat.zero_le _, fun _ => Nat.zero_lt_succ 6, fun b hb => ?_, ?_⟩
      · simp [collect]
      · simp only [blocks_snoc, collect, List.mem_append, List.mem_singleton] at hb
        obtain hb | rfl := hb
        · exact ih.sizes b hb
        · rw [← ih.count, h7]
      · rw [← ih.fifo]
        simp [collect]
    · exact ⟨ih.count, ih.bound, fun _ => by simp only; omega, ih.sizes, ih.fifo⟩

/-- The `k`-th block of the dashboard is what was sent in the `k`-th round, one
datagram from each reporter. -/
theorem block_is_round (h : Link.Run Lossless (init inp) tr x) (k : ℕ) (b : List Msg)
    (hb : (blocks x.dash.out).1[k]? = some b) :
    ∃ r, sentIn tr k = some r ∧ b = r.map Prod.snd ∧
      (r.map Prod.fst).Perm (List.finRange 7) := by
  have hi := linkInv h
  have hrun := h.controller_run
  obtain ⟨_, hr⟩ := rounds_run hrun
  have hbar := (barrier_run (calm_steady hrun fun _ _ hc => hc.1) fun _ _ hc => hc.1).2
  have hle := hr.count_le hbar
  have hnodup : ((rounds tr).current.map Prod.fst).Nodup := List.nodup_iff_count_le_one.mpr hle
  have hlen : (rounds tr).current.length ≤ 7 := by
    simpa using hnodup.length_le_card
  have hpast : ∀ r ∈ (rounds tr).past, r.length = 7 := by
    intro r hx
    simpa using (hr.past r hx).length_eq
  have hk : ((rounds tr).past.map (List.map Prod.snd) ++
      [(rounds tr).current.map Prod.snd])[k]? = some b :=
    getElem?_of_flatten (by decide) hi.sizes (by simpa using hpast) (by simpa using hlen) hi.fifo hb
  have hmap : (((rounds tr).past ++ [(rounds tr).current]).map (List.map Prod.snd))[k]? = some b := by
    simpa using hk
  rw [List.getElem?_map] at hmap
  obtain ⟨r, hrk, rfl⟩ := Option.map_eq_some_iff.mp hmap
  refine ⟨r, hrk, rfl, ?_⟩
  obtain hin | hin := List.mem_append.mp (List.mem_of_getElem? hrk)
  · exact hr.past r hin
  · obtain rfl := List.mem_singleton.mp hin
    refine perm_of_length hle ?_
    have := hi.sizes _ (List.mem_of_getElem? hb)
    simpa using this

/-- The dashboard reads all that has come. -/
def Dashboard.drain (d : Dashboard) (q : List Msg) : Dashboard :=
  q.foldl (fun d m => (d.recvfrom (some m)).test) d

theorem link_of_run {C : State → Label → Prop} {s₀ : State} (h : sistema.Run C s₀ tr s) :
    Link.Run C s₀ tr ⟨s, tr.filterMap sent, ⟨0, true, []⟩⟩ := by
  induction h with
  | nil => exact .start
  | @snoc tr s s' a _ hs hc ih =>
    have := Link.Run.controller ih hs hc
    cases ha : sent a <;> simpa [List.filterMap_append, ha] using this

theorem test_receiving (d : Dashboard) : d.test.receiving = true := by
  unfold Dashboard.test
  split <;> rfl

theorem drain_run {C : State → Label → Prop} {s₀ : State} {q : List Msg} {d : Dashboard}
    (hr : d.receiving = true) (h : Link.Run C s₀ tr ⟨s, q, d⟩) :
    Link.Run C s₀ tr ⟨s, [], d.drain q⟩ := by
  induction q generalizing d with
  | nil => exact h
  | cons m q ih =>
    exact ih (test_receiving _) (.test (.receive h hr rfl) rfl)

/-- The first block of a run. -/
theorem first_block : ∃ tr x b, Link.Run Lossless (init ⟨10, 100, fun _ => 0, 0⟩) tr x ∧
    (blocks x.dash.out).1[0]? = some b ∧ ∃ r, sentIn tr 0 = some r ∧ b = r.map Prod.snd ∧
      (r.map Prod.fst).Perm (List.finRange 7) := by
  have hrun : ∃ tr s, sistema.Run Lossless (init ⟨10, 100, fun _ => 0, 0⟩) tr s ∧
      0 < (blocks (Dashboard.drain ⟨0, true, []⟩ (tr.filterMap sent)).out).1.length := by
    refine run_of_check (boot ++ manualReport ++ engineReport 0 ++ otherReports ++
      landingReport ++ burst .main 12) ?_
    decide +kernel
  obtain ⟨tr, s, hr, hlen⟩ := hrun
  have h := drain_run rfl (link_of_run hr)
  have hb := List.getElem?_eq_getElem hlen
  exact ⟨tr, _, _, h, hb, block_is_round h 0 _ hb⟩

end Sistema
