import IndraDds.Foundation.Owners
import IndraDds.Foundation.Transition
import IndraDds.Stress.Executive
import Mathlib.Data.List.Nodup
import Mathlib.Data.List.Perm.Basic

/-!
# The participants of a domain

`FastDomain` owns its participants in a vector of unique pointers. Participants are told apart by
their address, which is the handle that `create_participant` returns and `remove_participant`
takes; the allocator may hand out an address again once its participant has been destroyed.

`remove_participant` looks at the position that `std::remove_if` returns and calls `disable()` on
what it finds there. For the participant created last that is the participant to remove. For any
other it is an empty pointer, and the participant has been destroyed already.

A call through an empty pointer has no defined meaning; the model lets it end the process.
-/

namespace IndraDds

open Owners Transition

/-! ## Participants -/

/-- `FastParticipant`, by its address. -/
structure FastParticipant where
  address : ℕ
  enabled : Bool := false
deriving DecidableEq, Repr

namespace FastParticipant

def enable (p : FastParticipant) : FastParticipant := { p with enabled := true }

def disable (p : FastParticipant) : FastParticipant :=
  if !p.enabled then p else { p with enabled := false }

@[simp] theorem address_enable (p : FastParticipant) : p.enable.address = p.address := rfl

end FastParticipant

/-- What happens to a participant: a call of one of its methods, or its destruction. The vector
deletes it as an `IParticipant`, which has no virtual destructor, so no method runs then. -/
inductive ParticipantEvent where
  | enable (address : ℕ)
  | disable (address : ℕ)
  | destroy (address : ℕ)
deriving DecidableEq, Repr

/-! ## The domain -/

/-- `FastDomain`, with the record of what has happened to its participants, which no code reads. -/
structure FastDomain where
  participants : List (Option FastParticipant) := []
  log : List ParticipantEvent := []
deriving DecidableEq

namespace FastDomain

/-- A call through an empty `unique_ptr`. -/
def nullCall (d : FastDomain) : Outcome FastDomain := .thrown "call through an empty unique_ptr" d

/-- The objects a part of the vector owns are destroyed. -/
def destroyed (slots : List (Option FastParticipant)) : List ParticipantEvent :=
  (slots.filterMap id).map fun p ↦ .destroy p.address

def createParticipant (d : FastDomain) (address : ℕ) : FastDomain :=
  { d with participants := d.participants ++ [some { address := address }] }

/-- `p.get() == participant`; the null pointer is `none`. -/
def owns (participant : Option ℕ) (p : Option FastParticipant) : Bool :=
  p.map FastParticipant.address = participant

/-- `remove_participant`. -/
def removeParticipant (d : FastDomain) (participant : Option ℕ) : Outcome FastDomain :=
  let r := removeIf (owns participant) d.participants
  let d : FastDomain :=
    { participants := r.slots
      log := d.log ++ r.destroyed.map fun p ↦ .destroy p.address }
  if r.position ≠ d.participants.length then
    match r.slots.getD r.position none with
    | none => nullCall d
    | some p =>
      .ret {
        participants := d.participants.take r.position
        log := d.log ++ .disable p.address :: destroyed (d.participants.drop r.position) }
  else .ret d

/-- A loop `for (auto& p : participants_) p->method()`, with `done` behind it. -/
def forEach (method : FastParticipant → FastParticipant) (event : ℕ → ParticipantEvent) :
    List (Option FastParticipant) → FastDomain → Outcome FastDomain
  | [], d => .ret d
  | none :: rest, d => nullCall { d with participants := d.participants ++ none :: rest }
  | some p :: rest, d =>
    forEach method event rest
      { participants := d.participants ++ [some (method p)], log := d.log ++ [event p.address] }

def enableAll (d : FastDomain) : Outcome FastDomain :=
  forEach FastParticipant.enable .enable d.participants { d with participants := [] }

def shutdownAll (d : FastDomain) : Outcome FastDomain :=
  (forEach FastParticipant.disable .disable d.participants { d with participants := [] }).bind
    fun d ↦ .ret { participants := [], log := d.log ++ destroyed d.participants }

/-- `reset`, less the quality of service it restores. -/
def reset (d : FastDomain) : Outcome FastDomain := d.shutdownAll

def close (d : FastDomain) : Outcome FastDomain := d.shutdownAll

/-! ## Runs -/

/-- A call on the domain. A creation carries the address the allocator has chosen. -/
inductive Op where
  | createParticipant (address : ℕ)
  | removeParticipant (participant : Option ℕ)
  | enableAll
  | shutdownAll
  | reset
  | close
deriving DecidableEq, Repr

def Op.apply (d : FastDomain) : Op → Outcome FastDomain
  | .createParticipant address => .ret (d.createParticipant address)
  | .removeParticipant participant => d.removeParticipant participant
  | .enableAll => d.enableAll
  | .shutdownAll => d.shutdownAll
  | .reset => d.reset
  | .close => d.close

def step (o : Outcome FastDomain) (op : Op) : Outcome FastDomain := o.bind fun d ↦ op.apply d

/-- A new domain after some calls. -/
def runOf (ops : List Op) : Outcome FastDomain := run step (.ret {}) ops

theorem runOf_concat (ops : List Op) (op : Op) : runOf (ops ++ [op]) = step (runOf ops) op :=
  run_concat _ _ _

/-! ## The registry -/

/-- The effect of a call on the participants created and not yet removed or shut down. -/
def Op.effect (registry : List ℕ) : Op → List ℕ
  | .createParticipant address => registry ++ [address]
  | .removeParticipant participant => registry.filter fun address ↦ some address ≠ participant
  | .enableAll => registry
  | .shutdownAll => []
  | .reset => []
  | .close => []

/-- The participants created and not yet removed or shut down, in creation order. -/
def registered (ops : List Op) : List ℕ := run Op.effect [] ops

theorem registered_concat (ops : List Op) (op : Op) :
    registered (ops ++ [op]) = op.effect (registered ops) :=
  run_concat _ _ _

/-- The vector owns exactly the participants of the registry, in its order, and has no empty
slot. -/
def Holds (registry : List ℕ) (d : FastDomain) : Prop :=
  ∃ ps : List FastParticipant, d.participants = ps.map some ∧
    ps.map FastParticipant.address = registry

variable {registry : List ℕ} {d : FastDomain}

theorem Holds.createParticipant (h : Holds registry d) (address : ℕ) :
    Holds (registry ++ [address]) (d.createParticipant address) := by
  obtain ⟨ps, hps, hregistry⟩ := h
  refine ⟨ps ++ [{ address := address }], ?_, ?_⟩
  · rw [FastDomain.createParticipant, hps, List.map_append]
    rfl
  · rw [List.map_append, hregistry]
    rfl

theorem forEach_some (method : FastParticipant → FastParticipant) (event : ℕ → ParticipantEvent)
    (ps : List FastParticipant) (d : FastDomain) :
    forEach method event (ps.map some) d
      = .ret { participants := d.participants ++ (ps.map method).map some
               log := d.log ++ ps.map fun p ↦ event p.address } := by
  induction ps generalizing d with
  | nil =>
    rw [List.map_nil, List.map_nil, List.map_nil, List.map_nil, List.append_nil, List.append_nil]
    rfl
  | cons p ps ih =>
    rw [List.map_cons, forEach, ih]
    simp only [List.map_cons, List.append_assoc, List.singleton_append]

theorem Holds.enableAll (h : Holds registry d) :
    ∃ d', d.enableAll = .ret d' ∧ Holds registry d' := by
  obtain ⟨ps, hps, hregistry⟩ := h
  refine ⟨_, by rw [FastDomain.enableAll, hps, forEach_some], ps.map FastParticipant.enable, ?_, ?_⟩
  · exact List.nil_append _
  · rw [List.map_map, ← hregistry]
    exact List.map_congr_left fun p _ ↦ p.address_enable

theorem Holds.shutdownAll (h : Holds registry d) :
    ∃ d', d.shutdownAll = .ret d' ∧ Holds [] d' := by
  obtain ⟨ps, hps, -⟩ := h
  exact ⟨_, by rw [FastDomain.shutdownAll, hps, forEach_some, Outcome.bind_ret], [], rfl, rfl⟩

/-! ## Removal -/

theorem owns_eq_false {ps : List FastParticipant} {participant : Option ℕ}
    (h : ∀ a, participant = some a → a ∉ ps.map FastParticipant.address) :
    ∀ x ∈ ps.map some, owns participant x = false := by
  intro x hx
  obtain ⟨p, hp, rfl⟩ := List.mem_map.mp hx
  rw [owns, decide_eq_false_iff_not]
  rintro rfl
  exact h p.address rfl (List.mem_map_of_mem hp)

theorem owns_self (p : FastParticipant) : owns (some p.address) (some p) = true :=
  decide_eq_true rfl

/-- An absent participant. -/
theorem Holds.removeParticipant_absent (h : Holds registry d) {participant : Option ℕ}
    (habsent : ∀ a, participant = some a → a ∉ registry) :
    d.removeParticipant participant = .ret d := by
  obtain ⟨ps, hps, rfl⟩ := h
  have hremoval := removeIf_of_forall_not (owns_eq_false habsent)
  rw [← hps] at hremoval
  rw [FastDomain.removeParticipant, hremoval]
  simp

/-- A present participant stands between others. -/
theorem Holds.split (h : Holds registry d) (hnodup : registry.Nodup) {a : ℕ} (ha : a ∈ registry) :
    ∃ (l r : List FastParticipant) (p : FastParticipant),
      d.participants = l.map some ++ some p :: r.map some ∧
      registry = l.map FastParticipant.address ++ a :: r.map FastParticipant.address ∧
      p.address = a ∧ a ∉ l.map FastParticipant.address ∧ a ∉ r.map FastParticipant.address := by
  obtain ⟨ps, hps, rfl⟩ := h
  obtain ⟨p, hp, rfl⟩ := List.mem_map.mp ha
  obtain ⟨l, r, rfl⟩ := List.append_of_mem hp
  rw [List.map_append, List.map_cons] at hps hnodup
  have hother := (List.nodup_cons.mp (List.nodup_middle.mp hnodup)).1
  rw [List.mem_append, not_or] at hother
  exact ⟨l, r, p, hps, List.map_append, rfl, hother⟩

/-- The participant created last is found where `std::remove_if` has left it. -/
theorem Holds.removeParticipant_last (h : Holds registry d) (hnodup : registry.Nodup) {a : ℕ}
    (ha : registry.getLast? = some a) :
    d.removeParticipant (some a) = .ret {
      participants := d.participants.filter fun p ↦ !owns (some a) p
      log := d.log ++ [.disable a, .destroy a] } := by
  obtain ⟨l, r, p, hps, rfl, rfl, hl, hr⟩ := h.split hnodup (List.mem_of_getLast? ha)
  -- nothing stands behind it that could be moved
  obtain rfl : r = [] := by
    by_contra hne
    have hlast : r.map FastParticipant.address ≠ [] := List.map_eq_nil_iff.not.mpr hne
    rw [List.getLast?_append_of_ne_nil _ (List.cons_ne_nil _ _), List.getLast?_cons_of_ne_nil hlast]
      at ha
    exact hr (List.mem_of_getLast? ha)
  have hothers : ∀ x ∈ l.map some, owns (some p.address) x = false :=
    owns_eq_false fun a ha ↦ Option.some.inj ha ▸ hl
  have hremoval := removeIf_of_match hothers (owns_self p) (r := []) (by simp)
  have hkept : (l.map some).filter (fun x ↦ !owns (some p.address) x) = l.map some := by
    rw [List.filter_eq_self]
    intro x hx
    rw [hothers x hx]
    rfl
  rw [if_pos rfl] at hremoval
  rw [List.map_nil] at hps
  rw [FastDomain.removeParticipant, hps, hremoval, List.filter_append, hkept, List.filter_singleton,
    owns_self]
  simp [destroyed]

/-- Any other has been destroyed, and the slot found is empty. -/
theorem Holds.removeParticipant_other (h : Holds registry d) (hnodup : registry.Nodup) {a : ℕ}
    (ha : a ∈ registry) (hlast : registry.getLast? ≠ some a) :
    ∃ d', d.removeParticipant (some a) = nullCall d' := by
  obtain ⟨l, r, p, hps, rfl, rfl, hl, hr⟩ := h.split hnodup ha
  have hne : r.map some ≠ [] := by
    rintro hnil
    rw [List.map_eq_nil_iff] at hnil
    rw [hnil] at hlast
    exact hlast List.getLast?_concat
  have hleft : ∀ x ∈ l.map some, owns (some p.address) x = false :=
    owns_eq_false fun a ha ↦ Option.some.inj ha ▸ hl
  have hright : ∀ x ∈ r.map some, owns (some p.address) x = false :=
    owns_eq_false fun a ha ↦ Option.some.inj ha ▸ hr
  have hremoval := removeIf_of_match hleft (owns_self p) hright
  rw [← hps, if_neg hne] at hremoval
  rw [FastDomain.removeParticipant, hremoval]
  simp

/-- Without the participant, the vector owns the others. -/
theorem Holds.filter (h : Holds registry d) (participant : Option ℕ) (log : List ParticipantEvent) :
    Holds (registry.filter fun address ↦ some address ≠ participant)
      { participants := d.participants.filter fun p ↦ !owns participant p, log := log } := by
  obtain ⟨ps, hps, rfl⟩ := h
  refine ⟨ps.filter fun p ↦ some p.address ≠ participant, ?_, ?_⟩
  · change d.participants.filter _ = _
    rw [hps, List.filter_map]
    refine congrArg _ (List.filter_congr fun p _ ↦ ?_)
    exact decide_not.symm
  · rw [List.filter_map]
    rfl

/-! ## The law -/

/-- The participants are as many and the same as in the registry, and nothing has been called
through an empty pointer. -/
def Registers (ops : List Op) (o : Outcome FastDomain) : Prop :=
  ∃ d, o = .ret d ∧ Holds (registered ops) d

/-- A removal calls `disable()` on a present participant, destroys it and touches no other; it does
nothing with an absent one. -/
def RemovesOne (o : Outcome FastDomain) (op : Op) : Prop :=
  ∀ d participant, o = .ret d → op = .removeParticipant participant →
    (∀ a, participant = some a → some a ∈ d.participants.map (Option.map FastParticipant.address) →
      step o op = .ret {
        participants := d.participants.filter fun p ↦ !owns participant p
        log := d.log ++ [.disable a, .destroy a] }) ∧
    ((∀ a, participant = some a →
      some a ∉ d.participants.map (Option.map FastParticipant.address)) → step o op = o)

/-- A creation is given an address that no participant has. -/
def CreatesFresh (registry : List ℕ) (op : Op) : Prop :=
  ∀ a, op = .createParticipant a → a ∉ registry

/-- A removal of a participant that is present is one of the participant created last. -/
def RemovesLast (registry : List ℕ) (op : Op) : Prop :=
  ∀ a, op = .removeParticipant (some a) → a ∈ registry → registry.getLast? = some a

theorem registered_nodup {ops : List Op} (h : Along Op.effect CreatesFresh [] ops) :
    (registered ops).Nodup := by
  induction ops using List.reverseRecOn with
  | nil => exact List.nodup_nil
  | append_singleton ops op ih =>
    obtain ⟨hops, hop⟩ := along_concat.mp h
    have hnodup := ih hops
    rw [registered_concat]
    cases op with
    | createParticipant a =>
      rw [Op.effect, ← List.concat_eq_append]
      exact hnodup.concat (hop a rfl)
    | removeParticipant participant => exact hnodup.filter _
    | enableAll => exact hnodup
    | _ => exact List.nodup_nil

/-- What a removal does in a domain that is in order. -/
theorem Holds.removesOne (h : Holds registry d) (hnodup : registry.Nodup) {op : Op}
    (hlast : RemovesLast registry op) : RemovesOne (.ret d) op := by
  have hmem : ∀ a, some a ∈ d.participants.map (Option.map FastParticipant.address) ↔
      a ∈ registry := by
    obtain ⟨ps, hps, rfl⟩ := h
    intro a
    rw [hps]
    simp
  rintro _ participant ⟨⟩ rfl
  refine ⟨?_, fun habsent ↦ ?_⟩
  · rintro a rfl ha
    exact h.removeParticipant_last hnodup (hlast a rfl ((hmem a).mp ha))
  · exact h.removeParticipant_absent fun a hp ↦ (hmem a).not.mp (habsent a hp)

/-- A call that removes no participant but the one created last. -/
theorem Registers.step {ops : List Op} {o : Outcome FastDomain} (h : Registers ops o)
    (hnodup : (registered ops).Nodup) {op : Op} (hlast : RemovesLast (registered ops) op) :
    Registers (ops ++ [op]) (step o op) := by
  obtain ⟨d, rfl, hd⟩ := h
  rw [Registers, registered_concat]
  cases op with
  | createParticipant a => exact ⟨_, rfl, hd.createParticipant a⟩
  | enableAll => exact hd.enableAll
  | removeParticipant participant =>
    by_cases hpresent : ∃ a, participant = some a ∧ a ∈ registered ops
    · obtain ⟨a, rfl, ha⟩ := hpresent
      exact ⟨_, hd.removeParticipant_last hnodup (hlast a rfl ha), hd.filter _ _⟩
    · have habsent : ∀ a, participant = some a → a ∉ registered ops :=
        fun a hp ha ↦ hpresent ⟨a, hp, ha⟩
      refine ⟨d, hd.removeParticipant_absent habsent, ?_⟩
      rw [Op.effect, List.filter_eq_self.mpr]
      · exact hd
      · intro a ha
        exact decide_eq_true fun hp ↦ habsent a hp.symm ha
  | _ => exact hd.shutdownAll

theorem registers_of_removesLast {ops : List Op} (hfresh : Along Op.effect CreatesFresh [] ops)
    (h : Along Op.effect RemovesLast [] ops) : Registers ops (runOf ops) := by
  induction ops using List.reverseRecOn with
  | nil => exact ⟨{}, rfl, [], rfl, rfl⟩
  | append_singleton ops op ih =>
    have hops := (along_concat.mp hfresh).1
    rw [runOf_concat]
    exact (ih hops (along_concat.mp h).1).step (registered_nodup hops) (along_concat.mp h).2

/-- **The registry** is kept, and a removal touches nothing but the participant it is asked to
remove, exactly as long as that is the one created last. -/
theorem registers_iff_removesLast (ops : List Op) (hfresh : Along Op.effect CreatesFresh [] ops) :
    ((∀ pre, pre <+: ops → Registers pre (runOf pre)) ∧ Along step RemovesOne (.ret {}) ops) ↔
      Along Op.effect RemovesLast [] ops := by
  constructor
  · rintro ⟨hregisters, -⟩
    rw [along_iff]
    rintro pre op post rfl a rfl ha
    by_contra hother
    -- the removal of any other calls through an empty pointer
    obtain ⟨d, hd, hholds⟩ := hregisters pre (List.prefix_append _ _)
    obtain ⟨d', hd', -⟩ := hregisters (pre ++ [.removeParticipant (some a)])
      ⟨post, by rw [List.append_assoc]; rfl⟩
    have hnodup := registered_nodup (along_append.mp hfresh).1
    obtain ⟨e, he⟩ := hholds.removeParticipant_other hnodup ha hother
    rw [runOf_concat, hd] at hd'
    rw [step, Outcome.bind_ret, Op.apply, he] at hd'
    exact absurd hd' (by simp [nullCall])
  · intro hlast
    have hregisters : ∀ pre, pre <+: ops → Registers pre (runOf pre) := fun pre hpre ↦
      registers_of_removesLast (hfresh.of_prefix hpre) (hlast.of_prefix hpre)
    refine ⟨hregisters, along_iff.mpr ?_⟩
    rintro pre op post rfl
    obtain ⟨d, hd, hholds⟩ := hregisters pre (List.prefix_append _ _)
    rw [runOf] at hd
    rw [hd]
    exact hholds.removesOne (registered_nodup (along_append.mp hfresh).1)
      (along_append.mp hlast).2.1

/-- Two participants, removed in reverse order. -/
theorem removal_in_reverse_order :
    let ops : List Op := [.createParticipant 1, .createParticipant 2, .enableAll,
      .removeParticipant (some 2), .removeParticipant (some 1)]
    (∀ pre, pre <+: ops → Registers pre (runOf pre)) ∧ Along step RemovesOne (.ret {}) ops := by
  refine (registers_iff_removesLast _ ?_).mpr ?_
  · refine ⟨?_, ?_, ?_, ?_, ?_, trivial⟩ <;> rintro a ⟨⟩
    · decide
    · decide
  · refine ⟨?_, ?_, ?_, ?_, ?_, trivial⟩ <;> rintro a ⟨⟩
    · exact fun _ ↦ rfl
    · exact fun _ ↦ rfl

/-- Two participants, of which the older is removed. -/
theorem removal_of_older_faults : ¬∀ ops : List Op, Along Op.effect CreatesFresh [] ops →
    (∀ pre, pre <+: ops → Registers pre (runOf pre)) ∧ Along step RemovesOne (.ret {}) ops := by
  intro h
  have hfresh : Along Op.effect CreatesFresh []
      [.createParticipant 1, .createParticipant 2, .removeParticipant (some 1)] := by
    refine ⟨?_, ?_, ?_, trivial⟩ <;> rintro a ⟨⟩
    · decide
    · decide
  have hfault : ∃ d, runOf [.createParticipant 1, .createParticipant 2,
      .removeParticipant (some 1)] = nullCall d := ⟨_, rfl⟩
  obtain ⟨d, hd, -⟩ := (h _ hfresh).1 _ (List.prefix_refl _)
  obtain ⟨d', hd'⟩ := hfault
  rw [hd'] at hd
  exact absurd hd (by simp [nullCall])

end FastDomain

end IndraDds
