import IndraDds.Foundation.Transition
import IndraDds.Vendor.FastPub
import Mathlib.Data.Int.Order.Basic
import Mathlib.Data.List.Count
import Mathlib.Order.MinMax

/-!
# Who is matched

The middleware counts the endpoints of the other side that an entity is matched with, and tells the
listener the entity was created with about every change. The classes keep what they are told in
different ways: `FastPub` and `OpenPub` copy the number of matches so far, `FastPubControl` and
`FastSubControl` count up and down, `FastSub` remembers that there was one. `CyclonePub` has a
listener that would copy the number of present matches, but creates its writer without it, and
looks at a member that nothing writes.

Each listener is a function of the two counts of the status, and that is all the comparisons need.
-/

namespace IndraDds

open Transition

/-! ## The status -/

/-- A change the middleware reports: an endpoint of the other side appears, or one disappears. -/
inductive MatchEvent where
  | matched
  | unmatched
deriving DecidableEq, Repr

/-- The fields of `PublicationMatchedStatus` and `SubscriptionMatchedStatus` in use. -/
structure MatchedStatus where
  totalCount : ℕ := 0
  currentCount : ℤ := 0
  currentCountChange : ℤ := 0
deriving DecidableEq, Repr

/-- The status after a change. -/
def MatchedStatus.next (s : MatchedStatus) : MatchEvent → MatchedStatus
  | .matched =>
    { totalCount := s.totalCount + 1, currentCount := s.currentCount + 1, currentCountChange := 1 }
  | .unmatched =>
    { totalCount := s.totalCount, currentCount := s.currentCount - 1, currentCountChange := -1 }

/-- No more endpoints are matched than ever were. -/
theorem MatchedStatus.current_le_total {s : MatchedStatus} (h : s.currentCount ≤ s.totalCount)
    (ev : MatchEvent) : (s.next ev).currentCount ≤ (s.next ev).totalCount := by
  cases ev with
  | matched => exact Int.add_le_add_right h 1
  | unmatched => exact Int.le_of_lt (Int.lt_of_lt_of_le (Int.sub_lt_self _ Int.one_pos) h)

/-- An entity with its status and the listener of its class. -/
structure Endpoint (α : Type) where
  status : MatchedStatus := {}
  listener : α

namespace Endpoint

variable {α : Type}

/-- A change of an entity that was created with the callback `f`, or with no listener. -/
def notify (f : Option (α → MatchedStatus → α)) (e : Endpoint α) (ev : MatchEvent) : Endpoint α :=
  let status := e.status.next ev
  { status := status
    listener := match f with
      | some f => f e.listener status
      | none => e.listener }

/-- After a history of changes. -/
def after (f : Option (α → MatchedStatus → α)) (listener : α) (h : List MatchEvent) : Endpoint α :=
  run (notify f) { listener := listener } h

end Endpoint

/-! ## The listeners -/

/-- `FastPub::PubListener`. -/
structure FastPub.PubListener where
  matched : ℤ := 0
deriving DecidableEq, Repr

def FastPub.PubListener.onPublicationMatched (l : FastPub.PubListener) (info : MatchedStatus) :
    FastPub.PubListener :=
  if info.currentCountChange = 1 then { matched := info.totalCount }
  else if info.currentCountChange = -1 then { matched := info.totalCount }
  else l

/-- `FastPub::is_matched`, less what it prints. -/
def FastPub.isMatched (p : FastPub) (l : FastPub.PubListener) : Bool :=
  l.matched > 0 && l.matched ≥ p.minSubs

/-- `FastPubControl::Listener`. -/
structure FastPubControl.Listener where
  matched : ℤ := 0
deriving DecidableEq, Repr

def FastPubControl.Listener.onPublicationMatched (l : FastPubControl.Listener)
    (info : MatchedStatus) : FastPubControl.Listener :=
  if info.currentCountChange = 1 then { matched := l.matched + 1 }
  else if info.currentCountChange = -1 then { matched := l.matched - 1 }
  else l

/-- `FastPubControl::is_matched`. -/
def FastPubControl.isMatched (l : FastPubControl.Listener) : Bool := l.matched > 0

/-- `FastSub::SubListener`. -/
structure FastSub.SubListener where
  matched : Bool := false
deriving DecidableEq, Repr

def FastSub.SubListener.onSubscriptionMatched (l : FastSub.SubListener) (info : MatchedStatus) :
    FastSub.SubListener :=
  if info.currentCountChange = 1 then { matched := true } else l

/-- `FastSub::is_match`; the comparison is of a `bool` with zero. -/
def FastSub.isMatch (l : FastSub.SubListener) : Bool := l.matched

/-- `FastSubControl::Listener`. -/
structure FastSubControl.Listener where
  matched : ℤ := 0
deriving DecidableEq, Repr

def FastSubControl.Listener.onSubscriptionMatched (l : FastSubControl.Listener)
    (s : MatchedStatus) : FastSubControl.Listener :=
  if s.currentCountChange = 1 then { matched := l.matched + 1 }
  else if s.currentCountChange = -1 then { matched := l.matched - 1 }
  else l

/-- `FastSubControl::has_match`. -/
def FastSubControl.hasMatch (l : FastSubControl.Listener) : Bool := l.matched > 0

/-- `OpenPub`, as far as its gate reads it. Its listener holds a reference to `matched_subs`. -/
structure OpenPub where
  minSubs : ℤ := 0
  matchedSubs : ℤ := 0
deriving DecidableEq, Repr

namespace OpenPub

def onPublicationMatched (p : OpenPub) (status : MatchedStatus) : OpenPub :=
  { p with matchedSubs := status.totalCount }

def setExpectedSubs (p : OpenPub) (expected : ℤ) : OpenPub := { p with minSubs := expected }

/-- `OpenPub::is_matched`. -/
def isMatched (p : OpenPub) : Bool := p.matchedSubs ≥ p.minSubs

end OpenPub

/-- `CyclonePub`, as far as its gate reads it, with the `matched_` of its listener. -/
structure CyclonePub where
  minSubs : ℤ := 0
  matchedSubs : ℤ := 0
  listenerMatched : ℤ := 0
deriving DecidableEq, Repr

namespace CyclonePub

def onPublicationMatched (p : CyclonePub) (status : MatchedStatus) : CyclonePub :=
  { p with listenerMatched := status.currentCount }

/-- What `init` registers with the writer: `DataWriter(publisher_, topic_, writerQos)` takes no
listener, so `onPublicationMatched` is never called. -/
def registered : Option (CyclonePub → MatchedStatus → CyclonePub) := none

def setExpectedSubs (p : CyclonePub) (expected : ℤ) : CyclonePub := { p with minSubs := expected }

/-- `CyclonePub::is_matched`. -/
def isMatched (p : CyclonePub) : Bool := p.matchedSubs ≥ p.minSubs

end CyclonePub

/-! ## What the listeners know -/

namespace Endpoint

variable {α : Type}

/-- The number of matches in a history. -/
def total (h : List MatchEvent) : ℕ := h.count .matched

/-- The number of endpoints matched after it. -/
def current (h : List MatchEvent) : ℤ := h.count .matched - h.count .unmatched

theorem current_le_total (h : List MatchEvent) : current h ≤ total h := by
  rw [current, total]
  omega

theorem after_concat (f : Option (α → MatchedStatus → α)) (l : α) (h : List MatchEvent)
    (ev : MatchEvent) : after f l (h ++ [ev]) = (after f l h).notify f ev := run_concat _ _ _

/-- The fields of the status as DDS defines them. -/
theorem status_after (f : Option (α → MatchedStatus → α)) (l : α) (h : List MatchEvent) :
    (after f l h).status.totalCount = total h ∧ (after f l h).status.currentCount = current h := by
  induction h using List.reverseRecOn with
  | nil => exact ⟨rfl, rfl⟩
  | append_singleton h ev ih =>
    obtain ⟨htotal, hcurrent⟩ := ih
    have hstatus : (after f l (h ++ [ev])).status = (after f l h).status.next ev := by
      rw [after_concat]
      rfl
    rw [hstatus, total, current, List.count_append, List.count_append]
    cases ev with
    | matched =>
      refine ⟨congrArg (· + 1) htotal, ?_⟩
      rw [MatchedStatus.next, hcurrent, current]
      simp
      omega
    | unmatched =>
      refine ⟨htotal, ?_⟩
      rw [MatchedStatus.next, hcurrent, current]
      simp
      omega

/-- The listener holds the function `g` of the two counts. -/
def Knows (g : ℕ → ℤ → α) (e : Endpoint α) : Prop :=
  e.listener = g e.status.totalCount e.status.currentCount

/-- The callback `f` keeps it so. -/
def Keeps (f : α → MatchedStatus → α) (g : ℕ → ℤ → α) : Prop :=
  ∀ (s : MatchedStatus) (ev : MatchEvent), f (g s.totalCount s.currentCount) (s.next ev)
    = g (s.next ev).totalCount (s.next ev).currentCount

theorem Knows.notify {f : α → MatchedStatus → α} {g : ℕ → ℤ → α} {e : Endpoint α}
    (h : e.Knows g) (hf : Keeps f g) (ev : MatchEvent) : (e.notify (some f) ev).Knows g := by
  change f e.listener (e.status.next ev) = _
  rw [h]
  exact hf e.status ev

end Endpoint

open Endpoint

theorem fastPub_keeps :
    Keeps FastPub.PubListener.onPublicationMatched (fun total _ ↦ ⟨total⟩) := by
  rintro s (_ | _) <;> rfl

theorem fastPubControl_keeps :
    Keeps FastPubControl.Listener.onPublicationMatched (fun _ current ↦ ⟨current⟩) := by
  rintro s (_ | _) <;> rfl

theorem fastSub_keeps :
    Keeps FastSub.SubListener.onSubscriptionMatched (fun total _ ↦ ⟨decide (0 < total)⟩) := by
  rintro s (_ | _)
  · exact congrArg FastSub.SubListener.mk (decide_eq_true (Nat.succ_pos _)).symm
  · rfl

theorem fastSubControl_keeps :
    Keeps FastSubControl.Listener.onSubscriptionMatched (fun _ current ↦ ⟨current⟩) := by
  rintro s (_ | _) <;> rfl

theorem openPub_keeps (m : ℤ) : Keeps OpenPub.onPublicationMatched (fun total _ ↦ ⟨m, total⟩) := by
  rintro s (_ | _) <;> rfl

namespace Endpoint

theorem listener_after {α : Type} {f : α → MatchedStatus → α} {g : ℕ → ℤ → α} (hf : Keeps f g)
    (h : List MatchEvent) : (after (some f) (g 0 0) h).listener = g (total h) (current h) := by
  have hstart : Knows g { listener := g 0 0 } := rfl
  have hknows : (after (some f) (g 0 0) h).Knows g :=
    run_invariant hstart (fun _ ev he ↦ he.notify hf ev) h
  rw [hknows, (status_after _ _ h).1, (status_after _ _ h).2]

end Endpoint

/-- `CyclonePub` knows nothing. -/
theorem cyclonePub_listener (m : ℤ) (h : List MatchEvent) :
    (after CyclonePub.registered (CyclonePub.setExpectedSubs {} m) h).listener = ⟨m, 0, 0⟩ := by
  induction h using List.reverseRecOn with
  | nil => rfl
  | append_singleton h ev ih =>
    rw [after_concat]
    exact ih

/-! ## The gates of three vendors -/

/-- `FastPub::is_matched` after a history of the writer, with `m` subscribers expected. -/
def FastPub.matchedAfter (m : ℤ) (h : List MatchEvent) : Bool :=
  (FastPub.setExpectedSubs {} m).isMatched
    (after (some FastPub.PubListener.onPublicationMatched) {} h).listener

/-- `OpenPub::is_matched` after the same. -/
def OpenPub.matchedAfter (m : ℤ) (h : List MatchEvent) : Bool :=
  (after (some OpenPub.onPublicationMatched) (OpenPub.setExpectedSubs {} m) h).listener.isMatched

/-- `CyclonePub::is_matched` after the same. -/
def CyclonePub.matchedAfter (m : ℤ) (h : List MatchEvent) : Bool :=
  (after CyclonePub.registered (CyclonePub.setExpectedSubs {} m) h).listener.isMatched

theorem FastPub.isMatched_iff (p : FastPub) (total : ℕ) :
    p.isMatched ⟨total⟩ = true ↔ max 1 p.minSubs ≤ total := by
  rw [FastPub.isMatched, Bool.and_eq_true, decide_eq_true_iff, decide_eq_true_iff, max_le_iff]
  exact Iff.rfl

theorem FastPub.matchedAfter_iff (m : ℤ) (h : List MatchEvent) :
    FastPub.matchedAfter m h = true ↔ max 1 m ≤ total h := by
  have hlistener := listener_after fastPub_keeps h
  rw [FastPub.matchedAfter]
  exact (congrArg (FastPub.isMatched _ · = true) hlistener).to_iff.trans
    (FastPub.isMatched_iff _ _)

theorem OpenPub.matchedAfter_iff (m : ℤ) (h : List MatchEvent) :
    OpenPub.matchedAfter m h = true ↔ m ≤ total h := by
  have hlistener := listener_after (openPub_keeps m) h
  rw [OpenPub.matchedAfter]
  exact (congrArg (OpenPub.isMatched · = true) hlistener).to_iff.trans decide_eq_true_iff

theorem CyclonePub.matchedAfter_iff (m : ℤ) (h : List MatchEvent) :
    CyclonePub.matchedAfter m h = true ↔ m ≤ 0 := by
  rw [CyclonePub.matchedAfter, cyclonePub_listener, CyclonePub.isMatched, decide_eq_true_iff,
    ge_iff_le]

/-- The three gates give the same answer after every part of a history; none is open before the
first match, and each is while enough subscribers have come and none has left. -/
structure GatesAgree (m : ℕ) (h : List MatchEvent) : Prop where
  same : ∀ pre, pre <+: h → FastPub.matchedAfter m pre = OpenPub.matchedAfter m pre ∧
    OpenPub.matchedAfter m pre = CyclonePub.matchedAfter m pre
  closed : ∀ pre, pre <+: h → total pre = 0 → FastPub.matchedAfter m pre = false ∧
    OpenPub.matchedAfter m pre = false ∧ CyclonePub.matchedAfter m pre = false
  opened : ∀ pre, pre <+: h → .unmatched ∉ pre → max 1 (m : ℤ) ≤ current pre →
    FastPub.matchedAfter m pre = true ∧ OpenPub.matchedAfter m pre = true ∧
      CyclonePub.matchedAfter m pre = true

/-- **The three gates agree** as long as all are closed, and at no other time. -/
theorem gatesAgree_iff (m : ℕ) (h : List MatchEvent) :
    GatesAgree m h ↔ 1 ≤ m ∧ total h < m := by
  have hcyclone : ∀ pre, CyclonePub.matchedAfter m pre = true ↔ m = 0 := fun pre ↦
    (CyclonePub.matchedAfter_iff m pre).trans (by omega)
  have hopen : ∀ pre, OpenPub.matchedAfter m pre = true ↔ m ≤ total pre := fun pre ↦
    (OpenPub.matchedAfter_iff m pre).trans Int.ofNat_le
  have hfast : ∀ pre, FastPub.matchedAfter m pre = true ↔ 1 ≤ total pre ∧ m ≤ total pre :=
    fun pre ↦ (FastPub.matchedAfter_iff m pre).trans (by omega)
  constructor
  · intro hagree
    obtain ⟨hstart, -⟩ := hagree.same [] List.nil_prefix
    obtain ⟨-, hend⟩ := hagree.same h (List.prefix_refl h)
    -- with none expected two gates are open before anyone has come
    rw [Bool.eq_iff_iff, hfast, hopen] at hstart
    -- with some expected the third never opens, so the others must not either
    rw [Bool.eq_iff_iff, hopen, hcyclone] at hend
    have hpos : 1 ≤ m := by
      by_contra hzero
      exact absurd (hstart.mpr (by omega)).1 (by simp [total])
    exact ⟨hpos, by omega⟩
  · rintro ⟨hpos, hfew⟩
    have hclosed : ∀ pre, pre <+: h → FastPub.matchedAfter m pre = false ∧
        OpenPub.matchedAfter m pre = false ∧ CyclonePub.matchedAfter m pre = false := by
      intro pre hpre
      have hle : total pre ≤ total h := hpre.sublist.count_le _
      rw [Bool.eq_false_iff, Bool.eq_false_iff, Bool.eq_false_iff, Ne, Ne, Ne, hfast, hopen,
        hcyclone]
      omega
    refine ⟨fun pre hpre ↦ ?_, fun pre hpre _ ↦ hclosed pre hpre, fun pre hpre _ henough ↦ ?_⟩
    · obtain ⟨hf, ho, hc⟩ := hclosed pre hpre
      rw [hf, ho, hc]
      exact ⟨rfl, rfl⟩
    · have hle : total pre ≤ total h := hpre.sublist.count_le _
      have hcurrent := current_le_total pre
      omega

/-- One subscriber, expected and present: the third vendor never notices. -/
theorem gates_disagree_on_first_match : ¬GatesAgree 1 [.matched] := by
  intro h
  exact absurd (h.same [.matched] (List.prefix_refl _)).2 (by decide)

end IndraDds
