import IndraDds.System.OpenVendor
import IndraDds.System.Settled
import IndraDds.Vendor.TopicTypes

/-!
# The OpenDDS pair over bytes

`OpenSys` hands each control message over as a value. Here it is serialized by the writer and read
by the reader, in any encoding and byte order, and a sample that cannot be read is dropped. For a
publisher whose settings are of the type `int` this makes no difference to any run: the ids are the
numbers of its rounds, the expected count is its own, and nothing else in a message is a number.
-/

namespace IndraDds

open Transition

/-! ## Control messages of a publisher -/

namespace PubTest

variable {config : MainTestConfig} {reset : Bool} {N n : ℕ}

theorem numbers_of_mem_control (hpos : 1 ≤ N) (hN : config.testCount = N)
    (hn : config.messageCount = n) {ios : List PubAnswers} {t : ℕ} {msg : TestControl}
    {ret : ReturnCode}
    (h : (t, .control msg ret) ∈ (run pass (start config reset) ios).world.log) :
    (1 ≤ msg.testId ∧ msg.testId ≤ N) ∧ (msg.expectedEntities = n ∨ msg.expectedEntities = 0) := by
  have hact := act_of_mem_control hpos hN hn ios t msg ret h
  have hsignal := control_of_mem_log hpos hN hn reset ios t msg ret h
  rw [PubEvent.act] at hact hsignal
  split_ifs at hact hsignal
  · have hmsg : msg = FastPubControl.startMessage msg.testId n config.loanMode :=
      Signal.control.inj hsignal
    exact ⟨Proto.mem_acts.mp hact, .inl (congrArg TestControl.expectedEntities hmsg)⟩
  · have hmsg : msg = FastPubControl.stopMessage msg.testId := Signal.control.inj hsignal
    exact ⟨Proto.mem_acts.mp hact, .inr (congrArg TestControl.expectedEntities hmsg)⟩

end PubTest

/-! ## Deliveries over bytes -/

namespace OpenSys

/-- `deliverControl` with the message between a writer and a reader. -/
def deliverBytes (e : Encoding) (s : OpenSys) : OpenSys :=
  match s.control[s.controlDelivered]? with
  | none => s
  | some msg =>
    match OpenTestControl.transmit e msg with
    | none => { s with controlDelivered := s.controlDelivered + 1 }
    | some msg =>
      { s with
        sub := s.sub.map fun t ↦ { t with
          subControl := t.subControl.receive
            { data := msg, info := { sequenceNumber := s.controlDelivered } } }
        controlDelivered := s.controlDelivered + 1 }

def stepBytes (e : Encoding) (s : OpenSys) : OpenLabel → OpenSys
  | .deliverControl => s.deliverBytes e
  | l => s.step l

variable {c : Sys.Setup} {N n : ℕ}

theorem deliverBytes_eq {e : Encoding} {s : OpenSys}
    (h : ∀ msg ∈ s.control, OpenTestControl.transmit e msg = some msg) :
    s.deliverBytes e = s.deliverControl := by
  rw [deliverBytes, deliverControl]
  rcases hmsg : s.control[s.controlDelivered]? with _ | msg
  · rfl
  · simp only [h msg (List.mem_of_getElem? hmsg)]

/-- The control messages of the pair arrive as they were sent. -/
theorem transmit_control (hpos : 1 ≤ N) (hN : c.pubConfig.testCount = N)
    (hn : c.pubConfig.messageCount = n) (hNmax : N < 2 ^ 31) (hnmax : n < 2 ^ 31) (e : Encoding)
    (ls : List OpenLabel) :
    ∀ msg ∈ (runOf c ls).control, OpenTestControl.transmit e msg = some msg := by
  intro msg hmsg
  obtain ⟨⟨b, htracks⟩, hpub, -, -⟩ := next_run c hn ls
  obtain ⟨ios, hios⟩ := htracks.pub
  have hcontrol : (runOf c ls).control = (Sys.runOf c (ls.filterMap OpenLabel.fast)).control :=
    hpub.controlSent_eq
  rw [hcontrol] at hmsg
  obtain ⟨t, hlog⟩ := Sys.exists_event_of_mem_control hmsg
  rw [hios] at hlog
  obtain ⟨hid, hexpected⟩ := PubTest.numbers_of_mem_control hpos hN hn hlog
  exact OpenTestControl.transmit_eq e (by omega) (by omega)

/-- **Bytes make no difference.** The pair goes through the same states whether its control messages
are handed over as they are or as bytes in any encoding, in every schedule. -/
theorem bytes_run (c : Sys.Setup) (N n : ℕ) (hpos : 1 ≤ N) (hN : c.pubConfig.testCount = N)
    (hn : c.pubConfig.messageCount = n) (hNmax : N < 2 ^ 31) (hnmax : n < 2 ^ 31) (e : Encoding)
    (ls : List OpenLabel) : run (stepBytes e) (start c) ls = runOf c ls := by
  induction ls using List.reverseRecOn with
  | nil => rfl
  | append_singleton ls l ih =>
    have hlast : runOf c (ls ++ [l]) = (runOf c ls).step l := run_concat _ _ _
    rw [run_concat, ih, hlast]
    rcases l with io | elapsed | _ | xs
    · rfl
    · rfl
    · exact deliverBytes_eq (transmit_control hpos hN hn hNmax hnmax e ls)
    · rfl

theorem bytes_run_one_round :
    run (stepBytes ⟨.KIND_XCDR2, .ENDIAN_BIG⟩) (start Sys.oneRound)
        (List.replicate 58 (.pubCycle {}) ++ [.deliverControl, .subCycle 0, .subCycle 0])
      = runOf Sys.oneRound
        (List.replicate 58 (.pubCycle {}) ++ [.deliverControl, .subCycle 0, .subCycle 0]) :=
  bytes_run Sys.oneRound 1 1 (by decide) rfl rfl (by decide) (by decide) _ _

end OpenSys

end IndraDds
