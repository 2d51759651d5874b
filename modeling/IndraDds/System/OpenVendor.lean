import IndraDds.Publisher.AnyPublisher
import IndraDds.Subscriber.AnySubscriber
import IndraDds.System.Rounds
import IndraDds.System.Vendors

/-!
# The OpenDDS pair

The two tests with the OpenDDS classes, and the Fast DDS pair of `Sys` next to them under the same
schedule. On the control topic they cannot be told apart: the publishers write the same messages,
the subscribers poll alike. So in the normal mode the OpenDDS subscriber measures the rounds that
its neighbour measures, in the same cycles and with the same parameters, and calls each of them a
success. In the loan mode it dies in the very cycle in which its neighbour measures a first round;
its publisher carries on to the end, though `publish_loan` sends nothing.

The data topic of OpenDDS is left open: any samples may arrive at any time.
-/

namespace IndraDds

open Transition

/-! ## The pair -/

/-- The subscriber test with the OpenDDS implementations of its interfaces. -/
abbrev OpenSubTest := SubTest OpenSub OpenSubControl

structure OpenSys where
  pub : Outcome IPubTest
  sub : Outcome OpenSubTest
  controlDelivered : ℕ := 0

inductive OpenLabel where
  | pubCycle (io : PubAnswers)
  | subCycle (elapsed : ℚ)
  | deliverControl
  | arrive (xs : List (Sample AirEntity))

namespace OpenSys

/-- The control messages on their way or delivered. -/
def control (s : OpenSys) : List TestControl := controlSent s.pub.world.log

def deliverControl (s : OpenSys) : OpenSys :=
  match s.control[s.controlDelivered]? with
  | none => s
  | some msg =>
    { s with
      sub := s.sub.map fun t ↦ { t with
        subControl := t.subControl.receive
          { data := msg, info := { sequenceNumber := s.controlDelivered } } }
      controlDelivered := s.controlDelivered + 1 }

def arrive (xs : List (Sample AirEntity)) (s : OpenSys) : OpenSys :=
  { s with sub := s.sub.map fun t ↦ { t with sub := t.sub.arrive xs } }

/-- No call of `OpenPub` changes `messages_per_cycle`. -/
def step (s : OpenSys) : OpenLabel → OpenSys
  | .pubCycle io => { s with pub := IPubTest.pass s.pub { io with } }
  | .subCycle elapsed => { s with sub := SubTest.pass s.sub elapsed }
  | .deliverControl => s.deliverControl
  | .arrive xs => s.arrive xs

def start (c : Sys.Setup) : OpenSys where
  pub := IPubTest.start (fun _ messagesPerCycle ↦ messagesPerCycle) id c.pubConfig c.reset
  sub := SubTest.start c.subConfig (OpenSub.init {} { history := c.history, batch := c.batch })
    OpenSubControl.init

/-- A run of the pair. -/
def runOf (c : Sys.Setup) (ls : List OpenLabel) : OpenSys := run step (start c) ls

end OpenSys

/-- The step of the Fast DDS pair next to a step of this one. -/
def OpenLabel.fast : OpenLabel → Option Label
  | .pubCycle io => some (.pubCycle io)
  | .subCycle elapsed => some (.subCycle elapsed)
  | .deliverControl => some .deliverControl
  | .arrive _ => none

/-! ## The subscribers -/

open SubTest (OpenBooks)

/-- What becomes of the OpenDDS subscriber while its neighbour has come to `s`. It is on the same
itinerary, or it was asked for a loan at the first round its neighbour has measured. -/
structure Beside (loan : Bool) (w : Outcome OpenSubTest) (s : FastSubTest) : Prop where
  books : OpenBooks w
  ret : ∀ t, w = .ret t → s.SameCourse (fun c o ↦ o.Matches c) t ∧ (loan = true → s.measured = [])
  thrown : ∀ what t, w = .thrown what t → loan = true ∧ s.measured ≠ [] ∧ t.measured = []

theorem Beside.map {loan : Bool} {w : Outcome OpenSubTest} {s s' : FastSubTest}
    (h : Beside loan w s) {f : OpenSubTest → OpenSubTest}
    (hsub : ∀ t, t.sub.Unreached → (f t).sub.Unreached)
    (hmeasured : ∀ t, (f t).measured = t.measured) (hmode : ∀ t, (f t).processType = t.processType)
    (hsame : ∀ t, s.SameCourse (fun c o ↦ o.Matches c) t →
      s'.SameCourse (fun c o ↦ o.Matches c) (f t)) (hs : s'.measured = s.measured) :
    Beside loan (w.map f) s' := by
  refine ⟨h.books.map hsub hmeasured hmode, fun t ht ↦ ?_, fun what t ht ↦ ?_⟩
  · rcases w with u | ⟨what, u⟩
    · obtain rfl := Outcome.ret.inj ht
      obtain ⟨hcourse, hloan⟩ := h.ret u rfl
      exact ⟨hsame u hcourse, hs ▸ hloan⟩
    · exact absurd ht (by simp [Outcome.map])
  · rcases w with u | ⟨what', u⟩
    · exact absurd ht (by simp [Outcome.map])
    · obtain ⟨-, rfl⟩ := Outcome.thrown.inj ht
      obtain ⟨hloan, hne, hnil⟩ := h.thrown what' u rfl
      exact ⟨hloan, hs ▸ hne, (hmeasured u).trans hnil⟩

theorem measured_eq_nil_of_itinerary {s : FastSubTest} {t : OpenSubTest}
    (h : t.itinerary = s.itinerary) : t.measured = [] ↔ s.measured = [] := by
  have hvisits : t.measured.map Measurement.visit = s.measured.map Measurement.visit :=
    congrArg Itinerary.visits h
  rw [← List.map_eq_nil_iff (f := Measurement.visit), hvisits, List.map_eq_nil_iff]

namespace Sys

variable {c : Setup} {s : Sys} {b : Mailbox.Box TestControl ℤ}

theorem Tracks.loan_of_start (h : s.Tracks c b) {msg : TestControl} (hmsg : msg ∈ b.messages)
    (hstart : msg.start = true) : msg.loan = c.pubConfig.loanMode := by
  rw [h.messages] at hmsg
  exact (h.announces.settings msg (List.mem_of_mem_take hmsg) hstart).2

theorem Tracks.processType_of_measured (h : s.Tracks c b) {m : Measurement}
    (hm : m ∈ s.sub.world.measured) :
    m.processType = ProcessType.ofLoan c.pubConfig.loanMode := by
  obtain ⟨msg, hmsg, hsets⟩ := h.refines.parameters m hm
  rw [hsets.mode, h.loan_of_start hmsg hsets.start]

theorem Tracks.processType_of_active (h : s.Tracks c b)
    (hactive : s.sub.world.testActive = true) :
    s.sub.world.processType = ProcessType.ofLoan c.pubConfig.loanMode := by
  obtain ⟨msg, hmsg, hsets⟩ := h.refines.adopted hactive
  rw [hsets.mode, h.loan_of_start hmsg hsets.start]

theorem Tracks.pass_ret (h : s.Tracks c b) (elapsed : ℚ) :
    SubTest.pass (.ret s.sub.world) elapsed = .ret (s.step (.subCycle elapsed)).sub.world :=
  calc SubTest.pass (.ret s.sub.world) elapsed
      = SubTest.pass s.sub elapsed := congrArg (SubTest.pass · elapsed) h.sub.symm
    _ = .ret (s.step (.subCycle elapsed)).sub.world := (h.subCycle elapsed).sub

end Sys

open Sys in
/-- **A cycle of both subscribers.** -/
theorem Beside.subCycle {c : Setup} {s : Sys} {b : Mailbox.Box TestControl ℤ} (h : s.Tracks c b)
    {w : Outcome OpenSubTest} (hw : Beside c.pubConfig.loanMode w s.sub.world) (elapsed : ℚ) :
    Beside c.pubConfig.loanMode (SubTest.pass w elapsed)
      (s.step (.subCycle elapsed)).sub.world := by
  have hfast := h.pass_ret elapsed
  have hvisits := SubTest.itinerary_pass FastSub.keepsCount hfast
  rcases w with t | ⟨what, t⟩
  · obtain ⟨hsame, hloan⟩ := hw.ret t rfl
    have hbooks := hw.books.pass elapsed
    rcases hpass : SubTest.pass (.ret t) elapsed with t' | ⟨what, t'⟩
    · rw [hpass] at hbooks
      have hsame' := hsame.pass OpenSubControl.pollsAlike FastSub.keepsCount OpenSub.keepsCount hfast
        hpass
      refine ⟨hbooks, fun u hu ↦ ?_, fun what u hu ↦ absurd hu (by simp)⟩
      obtain rfl := Outcome.ret.inj hu
      refine ⟨hsame', fun hmode ↦ ?_⟩
      -- a round measured on both sides would be one on loan
      by_contra hne
      obtain ⟨m, hm⟩ := List.exists_mem_of_ne_nil _ hne
      have hvisit : m.visit ∈ t'.itinerary.visits := by
        rw [hsame'.itinerary]
        exact List.mem_map_of_mem hm
      obtain ⟨m', hm', hsamevisit⟩ := List.mem_map.mp hvisit
      have hnormal := (hbooks.measured m' hm').2.2
      have hm_mode := (h.subCycle elapsed).processType_of_measured hm
      rw [hmode] at hm_mode
      have hmodes : m'.processType = m.processType := congrArg Visit.processType hsamevisit
      rw [hnormal, hm_mode] at hmodes
      exact absurd hmodes (by decide)
    · rw [hpass] at hbooks
      refine ⟨hbooks, fun u hu ↦ absurd hu (by simp), fun what' u hu ↦ ?_⟩
      obtain ⟨rfl, rfl⟩ := Outcome.thrown.inj hu
      obtain ⟨hrun, hactive, hpolled, hmeasured, hprocess⟩ := SubTest.pass_thrown hpass
      have hrun' : s.sub.world.itinerary.exec.currentState = .EXECUTION := by
        rw [← hsame.itinerary]
        exact hrun
      have hactive' : s.sub.world.itinerary.testActive = true := by
        rw [← hsame.itinerary]
        exact hactive
      have hloanMode : c.pubConfig.loanMode = true := by
        have hmode := h.processType_of_active hactive'
        have hsamemode : t.processType = s.sub.world.processType :=
          congrArg Itinerary.processType hsame.itinerary
        rw [← hsamemode, ← hprocess, (hbooks.thrown what t' rfl).2] at hmode
        by_contra hnormal
        rw [Bool.not_eq_true] at hnormal
        rw [hnormal] at hmode
        exact absurd hmode (by decide)
      refine ⟨hloanMode, fun hnil ↦ ?_, ?_⟩
      · rw [← OpenSubControl.pollsAlike.polled _ _ hsame.control, hpolled] at hvisits
        have hlast := congrArg Itinerary.visits hvisits
        rw [Itinerary.visits_pass_measure hrun' hactive', SubTest.itinerary, hnil] at hlast
        exact absurd hlast.symm (List.append_ne_nil_of_right_ne_nil _ (List.cons_ne_nil _ _))
      · rw [hmeasured]
        exact (measured_eq_nil_of_itinerary hsame.itinerary).mpr (hloan hloanMode)
  · obtain ⟨hloan, hne, hnil⟩ := hw.thrown what t rfl
    refine ⟨hw.books, fun u hu ↦ absurd hu (by simp [SubTest.pass, mainPass]), fun what' u hu ↦ ?_⟩
    obtain ⟨-, rfl⟩ := Outcome.thrown.inj hu
    refine ⟨hloan, fun hnil' ↦ hne ?_, hnil⟩
    have hgrows := Itinerary.visits_pass (ISubControl.polled s.sub.world.subControl) elapsed
      s.sub.world.itinerary
    rw [← hvisits, SubTest.itinerary, SubTest.itinerary, hnil'] at hgrows
    exact List.map_eq_nil_iff.mp (List.prefix_nil.mp hgrows)

/-! ## The two pairs -/

namespace OpenSys

open Sys (Setup)

/-- The OpenDDS pair next to the Fast DDS pair. -/
structure Next (c : Setup) (n : ℕ) (o : OpenSys) (s : Sys) : Prop where
  tracked : ∃ b, s.Tracks c b
  pub : IPubTest.Mirrored n (ProcessType.ofLoan c.pubConfig.loanMode) o.pub s.pub
  delivered : o.controlDelivered = s.controlDelivered
  sub : Beside c.pubConfig.loanMode o.sub s.sub.world

variable {c : Setup} {n : ℕ} {o : OpenSys} {s : Sys}

theorem keeps_of_pubAnswers (io : PubAnswers) : IPubTest.Keeps n { io with } :=
  ⟨rfl, fun _ ↦ rfl, rfl⟩

theorem Next.deliverControl (h : o.Next c n s) : o.deliverControl.Next c n s.deliverControl := by
  obtain ⟨b, htracks⟩ := h.tracked
  have htracks' := htracks.deliverControl
  have hcontrol : o.control = s.control := h.pub.controlSent_eq
  rw [OpenSys.deliverControl, hcontrol, h.delivered]
  rw [Sys.deliverControl] at htracks' ⊢
  rcases hmsg : s.control[s.controlDelivered]? with _ | msg
  · exact h
  · rw [hmsg] at htracks'
    refine ⟨⟨_, htracks'⟩, h.pub, rfl, ?_⟩
    simp only [Outcome.world_map]
    refine h.sub.map (fun _ ht ↦ ht) (fun _ ↦ rfl) (fun _ ↦ rfl) (fun t ht ↦ ?_) rfl
    exact ⟨ht.itinerary, ht.control.receive _⟩

theorem Next.arrive (h : o.Next c n s) (xs : List (Sample AirEntity)) : (o.arrive xs).Next c n s := by
  refine ⟨h.tracked, h.pub, h.delivered, ?_⟩
  refine h.sub.map (fun _ ht ↦ ht.arrive xs) (fun _ ↦ rfl) (fun _ ↦ rfl) (fun t ht ↦ ?_) rfl
  exact ⟨ht.itinerary, ht.control⟩

theorem next_start (c : Setup) (hn : c.pubConfig.messageCount = n) :
    (start c).Next c n (Sys.start c) where
  tracked := ⟨_, Sys.tracks_start c⟩
  pub := IPubTest.mirrored_start c.pubConfig hn rfl c.reset
  delivered := rfl
  sub := by
    have hopen := SubTest.itinerary_start OpenSub.keepsCount c.subConfig
      (OpenSub.init {} { history := c.history, batch := c.batch }) OpenSubControl.init
    have hfast := SubTest.itinerary_start FastSub.keepsCount c.subConfig
      (FastSub.init { reader := { history := c.history, batch := c.batch } })
      ({ reader := {} } : FastSubControl)
    refine ⟨.of_ret ⟨rfl, rfl, rfl⟩ fun m hm ↦ absurd hm List.not_mem_nil, fun t ht ↦ ?_,
      fun what t ht ↦ ?_⟩
    · obtain rfl := Outcome.ret.inj ht
      exact ⟨⟨hopen.trans hfast.symm, OpenSubControl.init_matches⟩, fun _ ↦ rfl⟩
    · have hstart : (start c).sub = .ret (start c).sub.world := rfl
      exact absurd (hstart.symm.trans ht) (by simp)

/-- **The simulation.** -/
theorem next_simulates (c : Setup) (n : ℕ) :
    Simulates step Sys.step (fun _ l ↦ l.fast.toList) (Next c n) := by
  rintro o s (io | elapsed | _ | xs) h
  · obtain ⟨b, htracks⟩ := h.tracked
    exact ⟨⟨b, htracks.pubCycle io⟩, h.pub.pass (keeps_of_pubAnswers io), h.delivered, h.sub⟩
  · obtain ⟨b, htracks⟩ := h.tracked
    exact ⟨⟨_, htracks.subCycle elapsed⟩, h.pub, h.delivered, h.sub.subCycle htracks elapsed⟩
  · exact h.deliverControl
  · exact h.arrive xs

theorem next_run (c : Setup) (hn : c.pubConfig.messageCount = n) (ls : List OpenLabel) :
    (runOf c ls).Next c n (Sys.runOf c (ls.filterMap OpenLabel.fast)) := by
  rw [← answers_eq_filterMap step]
  exact (next_simulates c n).run (next_start c hn) ls

/-- **The normal mode of OpenDDS.** After every schedule the subscriber has measured the rounds that
a Fast DDS subscriber measures in this schedule, with the same parameters, each announced by the
publisher of the pair and at most once; and every one of them is a success without a loss, whatever
samples have arrived. -/
theorem normal_rounds (c : Setup) (n : ℕ) (hn : c.pubConfig.messageCount = n)
    (hnormal : c.pubConfig.loanMode = false) (ls : List OpenLabel) :
    ∃ t, (runOf c ls).sub = .ret t ∧
      t.itinerary = (Sys.runOf c (ls.filterMap OpenLabel.fast)).sub.world.itinerary ∧
      (t.measured.map Measurement.testId).Pairwise (· < ·) ∧
      ∀ m ∈ t.measured, m.result = true ∧ m.lostSamples = 0 ∧
        ∃ msg ∈ (runOf c ls).control, msg.Sets m.testId m.expected m.processType := by
  obtain ⟨⟨b, htracks⟩, hpub, -, hbeside⟩ := next_run c hn ls
  rw [hnormal] at hbeside
  have hfaithful := htracks.faithful
  rcases hsub : (runOf c ls).sub with t | ⟨what, t⟩
  · obtain ⟨hsame, -⟩ := hbeside.ret t hsub
    have hvisits : t.measured.map Measurement.visit
        = (Sys.runOf c (ls.filterMap OpenLabel.fast)).sub.world.measured.map Measurement.visit :=
      congrArg Itinerary.visits hsame.itinerary
    refine ⟨t, rfl, hsame.itinerary, ?_, fun m hm ↦ ?_⟩
    · have hids := congrArg (List.map Visit.testId) hvisits
      rw [List.map_map, List.map_map] at hids
      exact hids ▸ hfaithful.increasing
    · obtain ⟨hresult, hlost, -⟩ := hbeside.books.measured m (by rw [hsub]; exact hm)
      refine ⟨hresult, hlost, ?_⟩
      obtain ⟨m', hm', hvisit⟩ := List.mem_map.mp (hvisits ▸ List.mem_map_of_mem hm)
      obtain ⟨hid, hexpected, hmode⟩ := Visit.mk.inj hvisit
      obtain ⟨msg, hmsg, hstart, hmsgid⟩ := hfaithful.announced m' hm'
      obtain ⟨hmsgexpected, hmsgmode⟩ := hfaithful.parameters m' hm' msg hmsg hstart hmsgid
      refine ⟨msg, ?_, hstart, hmsgid.trans hid, hexpected ▸ hmsgexpected, hmode ▸ hmsgmode⟩
      rw [control, hpub.controlSent_eq]
      exact hmsg
  · exact absurd (hbeside.thrown what t hsub).1 Bool.false_ne_true

/-- One sample is announced and three arrive, all under one id. -/
theorem normal_rounds_one_round : ∃ t, (runOf Sys.oneRound
    (List.replicate 58 (.pubCycle {}) ++ [.deliverControl, .subCycle 0,
      .arrive (List.replicate 3 { data := { id := 7 } }), .subCycle 0])).sub = .ret t ∧
    t.itinerary.visits = [⟨1, 1, .Normal⟩] := by
  obtain ⟨t, ht, hitinerary, -⟩ := normal_rounds Sys.oneRound 1 rfl rfl
    (List.replicate 58 (.pubCycle {}) ++ [.deliverControl, .subCycle 0,
      .arrive (List.replicate 3 { data := { id := 7 } }), .subCycle 0])
  refine ⟨t, ht, ?_⟩
  rw [hitinerary]
  decide +kernel

/-- **The loan mode of OpenDDS.** No schedule lets the subscriber measure a round: its process has
died of `run_with_loan` once a Fast DDS subscriber has measured one in this schedule, and not
before. -/
theorem loan_rounds (c : Setup) (n : ℕ) (hn : c.pubConfig.messageCount = n)
    (hloan : c.pubConfig.loanMode = true) (ls : List OpenLabel) :
    (runOf c ls).sub.world.measured = [] ∧
      ((∃ t, (runOf c ls).sub = .thrown "run with loan not implemented (OpenSub)" t) ↔
        (Sys.runOf c (ls.filterMap OpenLabel.fast)).sub.world.measured ≠ []) := by
  obtain ⟨⟨b, htracks⟩, -, -, hbeside⟩ := next_run c hn ls
  rw [hloan] at hbeside
  rcases hsub : (runOf c ls).sub with t | ⟨what, t⟩
  · obtain ⟨hsame, hnil⟩ := hbeside.ret t hsub
    have hmeasured := hnil rfl
    refine ⟨(measured_eq_nil_of_itinerary hsame.itinerary).mpr hmeasured, ?_⟩
    exact iff_of_false (by simp) (not_not.mpr hmeasured)
  · obtain ⟨-, hne, hnil⟩ := hbeside.thrown what t hsub
    obtain ⟨rfl, -⟩ := hbeside.books.thrown what t hsub
    exact ⟨hnil, iff_of_true ⟨t, rfl⟩ hne⟩

/-- The second cycle after the start is the last one. -/
theorem loan_rounds_one_round : ∃ t, (runOf
    { Sys.oneRound with pubConfig := { messageCount := 1, testCount := 1, loanMode := true } }
    (List.replicate 58 (.pubCycle {}) ++ [.deliverControl, .subCycle 0, .subCycle 0])).sub
      = .thrown "run with loan not implemented (OpenSub)" t := by
  refine (loan_rounds
    { Sys.oneRound with pubConfig := { messageCount := 1, testCount := 1, loanMode := true } } 1 rfl
    rfl _).2.mpr ?_
  decide +kernel

end OpenSys

end IndraDds
