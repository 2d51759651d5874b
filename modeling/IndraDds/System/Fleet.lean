import IndraDds.System.Settled

/-!
# One publisher and many subscribers

The publisher waits for as many matched subscribers as its configuration has listeners, and what it
writes reaches each of them. So the composition of one publisher with a family of subscribers has
for each of these its own two counters of what has been delivered, and a schedule says whose cycle
and whose delivery comes next.

To one subscriber the others do not exist: the publisher with that subscriber alone is a view of the
fleet, and what the fleet does is seen there as a run of the composition of two. So the results on
one subscriber carry over, and the fleet adds what they say together: whoever measures a round
measures the same round, and the whole test ends when each has measured its own rounds.
-/

namespace IndraDds

open Transition

structure Fleet (ι : Type) where
  pub : Outcome PubTest
  sub : ι → Outcome FastSubTest
  controlDelivered : ι → ℕ := fun _ ↦ 0
  dataDelivered : ι → ℕ := fun _ ↦ 0

namespace Fleet

variable {ι : Type} [DecidableEq ι]

inductive Label (ι : Type) where
  | pubCycle (io : PubAnswers)
  | subCycle (i : ι) (elapsed : ℚ)
  | deliverControl (i : ι)
  | deliverData (i : ι)

/-- The configuration of a fleet. -/
structure Setup (ι : Type) where
  pubConfig : MainTestConfig
  subConfig : ι → MainTestConfig
  reset : Bool := false
  history : ι → Window.Retention := fun _ ↦ .keepLast 1
  batch : ι → ℕ → ℕ := fun _ ↦ id

/-- The publisher and the subscriber `i`. -/
def view (i : ι) (s : Fleet ι) : Sys where
  pub := s.pub
  sub := s.sub i
  controlDelivered := s.controlDelivered i
  dataDelivered := s.dataDelivered i

/-- The fleet after a step that only subscriber `i` takes part in. -/
def withView (s : Fleet ι) (i : ι) (t : Sys) : Fleet ι where
  pub := s.pub
  sub := Function.update s.sub i t.sub
  controlDelivered := Function.update s.controlDelivered i t.controlDelivered
  dataDelivered := Function.update s.dataDelivered i t.dataDelivered

def step (s : Fleet ι) : Label ι → Fleet ι
  | .pubCycle io => { s with pub := PubTest.pass s.pub io }
  | .subCycle i elapsed => s.withView i ((s.view i).step (.subCycle elapsed))
  | .deliverControl i => s.withView i (s.view i).deliverControl
  | .deliverData i => s.withView i (s.view i).deliverData

/-- All processes after their `init`. -/
def start (c : Setup ι) : Fleet ι where
  pub := PubTest.start c.pubConfig c.reset
  sub i := SubTest.start (c.subConfig i)
    (FastSub.init { reader := { history := c.history i, batch := c.batch i } })
    { reader := {} }

def runOf (c : Setup ι) (ls : List (Label ι)) : Fleet ι := run step (start c) ls

/-! ## What one subscriber sees -/

/-- The configuration of the publisher with subscriber `i`. -/
def Setup.only (c : Setup ι) (i : ι) : Sys.Setup where
  pubConfig := c.pubConfig
  subConfig := c.subConfig i
  reset := c.reset
  history := c.history i
  batch := c.batch i

/-- The steps in which the publisher or subscriber `i` takes part. -/
def sees (i : ι) : Label ι → Option IndraDds.Label
  | .pubCycle io => some (.pubCycle io)
  | .subCycle j elapsed => if j = i then some (.subCycle elapsed) else none
  | .deliverControl j => if j = i then some .deliverControl else none
  | .deliverData j => if j = i then some .deliverData else none

variable {i j : ι} {s : Fleet ι} {c : Setup ι}

theorem view_withView_self {t : Sys} (h : t.pub = s.pub) : (s.withView i t).view i = t := by
  rw [view, withView]
  simp only [Function.update_self, ← h]

theorem view_withView_of_ne (h : j ≠ i) (t : Sys) : (s.withView j t).view i = s.view i := by
  rw [view, withView]
  simp only [Function.update_of_ne h.symm]
  rfl

/-- A step of subscriber `j` alone. -/
theorem view_step_sub {t : Sys} {l : IndraDds.Label} (ht : t = (s.view j).step l)
    (hpub : t.pub = s.pub) : (s.withView j t).view i
      = run Sys.step (s.view i) (if j = i then some l else none).toList := by
  by_cases h : j = i
  · subst h
    rw [view_withView_self hpub, if_pos rfl, ht]
    rfl
  · rw [view_withView_of_ne h, if_neg h]
    rfl

/-- **One subscriber of a fleet** with the publisher is a composition of two. -/
theorem views (i : ι) : Views step Sys.step (view i) (sees i) := by
  intro s l
  cases l with
  | pubCycle io => rfl
  | subCycle j elapsed => exact view_step_sub rfl rfl
  | deliverControl j => exact view_step_sub rfl (Sys.pub_deliverControl _)
  | deliverData j => exact view_step_sub rfl (Sys.pub_deliverData _)

theorem view_runOf (c : Setup ι) (ls : List (Label ι)) (i : ι) :
    (runOf c ls).view i = Sys.runOf (c.only i) (ls.filterMap (sees i)) :=
  (views i).run (start c) ls

theorem tracks_view (c : Setup ι) (ls : List (Label ι)) (i : ι) :
    ∃ b, ((runOf c ls).view i).Tracks (c.only i) b := by
  rw [view_runOf]
  exact ⟨_, Sys.tracks_run _ _⟩

/-! ## What they measure -/

/-- **The subscribers agree.** Each measures rounds once, upwards and with the parameters announced,
and two that measure the same round measure it with the same parameters. -/
theorem subscribers_agree (c : Setup ι) (ls : List (Label ι)) :
    (∀ i, ((runOf c ls).view i).Faithful) ∧
      ∀ i j, ∀ m ∈ ((runOf c ls).sub i).world.measured,
        ∀ m' ∈ ((runOf c ls).sub j).world.measured, m.testId = m'.testId →
          m.expected = m'.expected ∧ m.processType = m'.processType := by
  have hfaithful : ∀ i, ((runOf c ls).view i).Faithful := fun i ↦ by
    obtain ⟨b, htracks⟩ := tracks_view c ls i
    exact htracks.faithful
  refine ⟨hfaithful, fun i j m hm m' hm' hid ↦ ?_⟩
  -- both have polled the same control topic
  obtain ⟨msg, hmsg, hstart, hmsgId⟩ := (hfaithful i).announced m hm
  obtain ⟨hexpected, hmode⟩ := (hfaithful i).parameters m hm msg hmsg hstart hmsgId
  obtain ⟨hexpected', hmode'⟩ :=
    (hfaithful j).parameters m' hm' msg hmsg hstart (hmsgId.trans hid)
  exact ⟨hexpected.trans hexpected'.symm, hmode.trans hmode'.symm⟩

/-! ## How the test ends -/

/-- **The end of the whole test.** When the publisher's loop has ended, its messages have reached
everyone and everyone has made two more cycles, all processes have ended or some never will: all
have, exactly if each had measured its rounds, up to the one it was due to measure. -/
theorem all_end_iff (c : Setup ι) (ls ls' : List (Label ι))
    (hover : PubTest.looping (runOf c ls).pub = false)
    (hdelivered : ∀ i, (runOf c ls).controlDelivered i
      = (controlSent (runOf c ls).pub.world.log).length)
    (hcycles : ∀ i, 2 ≤ (ls'.filterMap (sees i)).countP IndraDds.Label.isSubCycle)
    (ls'' : List (Label ι)) :
    (∀ i, ((runOf c (ls ++ ls' ++ ls'')).sub i).world.exec.currentState = .END) ↔
      ∀ i, max 1 (c.subConfig i).testCount ≤ ((runOf c ls).sub i).world.owed.length := by
  refine forall_congr' fun i ↦ ?_
  have hview : ∀ ls, (runOf c ls).sub i = (Sys.runOf (c.only i) (ls.filterMap (sees i))).sub :=
    fun ls ↦ congrArg Sys.sub (view_runOf c ls i)
  have hquiet : (Sys.runOf (c.only i) (ls.filterMap (sees i))).Quiet := by
    rw [← view_runOf]
    exact ⟨hover, hdelivered i⟩
  have hcycles' : 2 ≤ ((ls' ++ ls'').filterMap (sees i)).countP IndraDds.Label.isSubCycle := by
    rw [List.filterMap_append, List.countP_append]
    exact (hcycles i).trans (Nat.le_add_right _ _)
  rw [List.append_assoc, hview, hview, List.filterMap_append]
  exact hquiet.ended_iff hcycles'

/-- A publisher that waits for two subscribers, and one round of one sample. -/
def twoSubscribers : Setup Bool where
  pubConfig := { messageCount := 1, testCount := 1, listenerNumber := 2 }
  subConfig _ := { messageCount := 1, testCount := 1 }

/-- One subscriber measures the round, the other has not looked before it is over. -/
def oneLate : List (Label Bool) :=
  List.replicate 51 (.pubCycle {}) ++ [.deliverControl true, .subCycle true 0, .subCycle true 0] ++
    List.replicate 7 (.pubCycle {}) ++
    [.deliverControl true, .deliverControl false, .deliverControl false]

theorem all_end_iff_one_late : ¬∀ i, ((runOf twoSubscribers (oneLate ++
    [.subCycle true 0, .subCycle false 0, .subCycle false 0, .subCycle true 0] ++ [])).sub
      i).world.exec.currentState = .END := by
  have hiff := all_end_iff twoSubscribers oneLate
    [.subCycle true 0, .subCycle false 0, .subCycle false 0, .subCycle true 0]
    (by decide +kernel) (by decide +kernel) (by decide) []
  rw [hiff]
  decide +kernel

/-! ## Perfect channels -/

/-- A cycle of the publisher, and whatever the subscribers do until its next one. -/
structure Beat (ι : Type) where
  io : PubAnswers := {}
  rest : List (Label ι) := []

def Beat.labels (beat : Beat ι) : List (Label ι) := .pubCycle beat.io :: beat.rest

/-- Both endpoints are matched, no call fails, and for each subscriber there are deliveries and then
a cycle, in any order among the subscribers. -/
structure Beat.Perfect (beat : Beat ι) : Prop where
  matched : beat.io.matched = true
  succeeds : beat.io.Succeeds
  rest : ∀ i, ∃ deliveries elapsed,
    beat.rest.filterMap (sees i) = deliveries ++ [.subCycle elapsed] ∧
      ∀ l ∈ deliveries, l.isDelivery = true

def beatLabels (beats : List (Beat ι)) : List (Label ι) := beats.flatMap Beat.labels

/-- A cycle of a subscriber finds everything delivered to it. -/
def Flushed (s : Fleet ι) (l : Label ι) : Prop := ∀ i, ∀ k ∈ sees i l, (s.view i).Flushed k

theorem along_flushed_iff {ls : List (Label ι)} : Along step Flushed (start c) ls ↔
    ∀ i, Along Sys.step Sys.Flushed (Sys.start (c.only i)) (ls.filterMap (sees i)) := by
  have hview : ∀ i, (start c).view i = Sys.start (c.only i) := fun _ ↦ rfl
  constructor
  · intro h i
    rw [← hview]
    refine (views i).along.mpr (along_iff.mpr fun pre l post hls ↦ ?_)
    exact along_iff.mp h pre l post hls i
  · refine fun h ↦ along_iff.mpr fun pre l post hls i ↦ ?_
    have hi := h i
    rw [← hview] at hi
    exact along_iff.mp ((views i).along.mp hi) pre l post hls

/-- What one subscriber sees of a beat is a beat. -/
theorem Beat.Perfect.sees {beat : Beat ι} (h : beat.Perfect) (i : ι) :
    ∃ beat' : Sys.Beat, beat'.Perfect ∧ beat.labels.filterMap (Fleet.sees i) = beat'.labels := by
  obtain ⟨deliveries, elapsed, hrest, hdeliveries⟩ := h.rest i
  refine ⟨⟨beat.io, deliveries, elapsed⟩, ⟨h.matched, h.succeeds, hdeliveries⟩, ?_⟩
  have hhead : Fleet.sees i (.pubCycle beat.io) = some (.pubCycle beat.io) := rfl
  rw [Beat.labels, List.filterMap_cons_some hhead, hrest]
  rfl

theorem sees_beats {beats : List (Beat ι)} (h : ∀ beat ∈ beats, beat.Perfect) (i : ι) :
    ∃ beats' : List Sys.Beat, beats'.length = beats.length ∧ (∀ beat ∈ beats', beat.Perfect) ∧
      (beatLabels beats).filterMap (sees i) = Sys.beatLabels beats' := by
  induction beats with
  | nil => exact ⟨[], rfl, fun _ hbeat ↦ absurd hbeat List.not_mem_nil, rfl⟩
  | cons beat beats ih =>
    obtain ⟨hbeat, hbeats⟩ := List.forall_mem_cons.mp h
    obtain ⟨beat', hperfect, hlabels⟩ := hbeat.sees i
    obtain ⟨beats', hlen, hperfects, hlabels'⟩ := ih hbeats
    refine ⟨beat' :: beats', congrArg (· + 1) hlen,
      List.forall_mem_cons.mpr ⟨hperfect, hperfects⟩, ?_⟩
    rw [beatLabels, List.flatMap_cons, List.filterMap_append, hlabels, ← beatLabels, hlabels']
    rfl

/-- **Perfect channels to all** give everyone a perfect report, in whatever order the subscribers
take their turns. -/
theorem all_perfect (c : Setup ι) (N n : ℕ) (h : ∀ i, (c.only i).Runs N n)
    (hN : ∀ i, (c.subConfig i).testCount = N) (beats : List (Beat ι))
    (hlen : beats.length = 13 * N + 45) (hbeats : ∀ beat ∈ beats, beat.Perfect)
    (hflushed : Along step Flushed (start c) (beatLabels beats)) (i : ι) :
    ((runOf c (beatLabels beats)).view i).PerfectReport N := by
  obtain ⟨beats', hlen', hperfect, hlabels⟩ := sees_beats hbeats i
  have hnone : ∀ io ∈ Sys.pubAnswers [], io.Succeeds := fun io hio ↦ absurd hio List.not_mem_nil
  have hflushed' := along_flushed_iff.mp hflushed i
  rw [hlabels] at hflushed'
  rw [view_runOf, hlabels]
  have hrest := (Sys.rest_start (h i)).beats (h i) (hN i) hnone hperfect hflushed'
  exact hrest.perfectReport (h i) (hN i) (Sys.succeeds_beats hnone hperfect)
    (Sys.protocol_finished (h i).rounds_pos (hlen'.trans hlen) hperfect rfl)

/-- The two subscribers take their turns in different orders. -/
def twoBeat : Beat Bool where
  rest := [.deliverControl true, .deliverControl false, .deliverData false, .subCycle false 0,
    .deliverData true, .subCycle true 0]

theorem perfect_twoBeat : twoBeat.Perfect := by
  refine ⟨rfl, PubAnswers.succeeds_default true true 0, fun i ↦
    ⟨[.deliverControl, .deliverData], 0, ?_, by decide⟩⟩
  cases i <;> rfl

theorem sees_twoBeats (k : ℕ) (i : Bool) :
    (beatLabels (List.replicate k twoBeat)).filterMap (sees i)
      = Sys.beatLabels (List.replicate k Sys.oneBeat) := by
  induction k with
  | zero => rfl
  | succ k ih =>
    rw [List.replicate_succ, beatLabels, List.flatMap_cons, List.filterMap_append, ← beatLabels, ih]
    cases i <;> rfl

theorem all_perfect_two : ((runOf twoSubscribers
    (beatLabels (List.replicate 58 twoBeat))).view true).PerfectReport 1 := by
  refine all_perfect twoSubscribers 1 1 (fun _ ↦ ⟨le_refl 1, rfl, rfl, .inr rfl⟩) (fun _ ↦ rfl)
    (List.replicate 58 twoBeat) rfl
    (fun beat hbeat ↦ (List.eq_of_mem_replicate hbeat).symm ▸ perfect_twoBeat) ?_ true
  refine along_flushed_iff.mpr fun i ↦ ?_
  rw [sees_twoBeats]
  cases i <;> decide +kernel

end Fleet

end IndraDds
