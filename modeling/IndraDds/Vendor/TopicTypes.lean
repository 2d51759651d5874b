import IndraDds.Vendor.Middleware
import IndraDds.Vendor.Serializer

/-!
# The topic types of OpenDDS

For each topic type OpenDDS generates `serialized_size`, `operator<<` and `operator>>`, which go
through the members in their order. `TestControl` may be extended by a later version and comes with
its length in the encoding `KIND_XCDR2`; `AirEntity` and the structures in it may not.

A writer serializes a sample into a block of the size that its `EncodingMode` gives: the bound
generated for the type, and where there is none the size of the sample. What is in front of the
sample in its block, the encapsulation header, is left out; alignment begins behind it.
-/

namespace IndraDds

open Cdr

/-! ## What is generated for a type -/

inductive Extensibility where
  | FINAL
  | APPENDABLE
deriving DecidableEq, Repr

namespace Extensibility

/-- `serialized_size`. -/
def serializedSize (ext : Extensibility) (e : Encoding) (ks : List Kind) (size : ℕ) : ℕ :=
  match ext with
  | FINAL => e.serializedSize ks size
  | APPENDABLE => e.serializedSizeAppendable ks size

/-- A structure, as it is written. -/
def encode (ext : Extensibility) (e : Encoding) (ks : List Kind) (p : ℕ) (x : Members ks) :
    List Byte :=
  match ext with
  | FINAL => e.layout.encode ks p x
  | APPENDABLE => e.appendable ks p x

theorem length_encode (ext : Extensibility) (e : Encoding) (ks : List Kind) (p : ℕ)
    (x : Members ks) : p + (ext.encode e ks p x).length = ext.serializedSize e ks p := by
  rcases ext with _ | _
  · exact (e.layout.length_encode ks p x).trans (e.serializedSize_eq ks p).symm
  · exact e.length_appendable ks p x

end Extensibility

/-- A topic type: the kinds of its members, and its records as the values of these. The size of a
record fits in the length that may stand in front of it, and it stays within the bound. -/
structure TypeSupport (α : Type) where
  extensibility : Extensibility
  kinds : List Kind
  members : α → Members kinds
  ofMembers : Members kinds → α
  /-- `serialized_size_bound`. -/
  bound : EncodingKind → Option ℕ
  ofMembers_members : ∀ x, ofMembers (members x) = x
  size_lt : ∀ e : Encoding, e.serializedSizeAppendable kinds 0 < 2 ^ 32
  size_le_bound : ∀ e : Encoding, ∀ n ∈ bound e.kind, extensibility.serializedSize e kinds 0 ≤ n

namespace TypeSupport

variable {α : Type} (t : TypeSupport α)

def serializedSize (e : Encoding) (size : ℕ) : ℕ := t.extensibility.serializedSize e t.kinds size

/-- `EncodingMode::buffer_size`, less the header. -/
def bufferSize (e : Encoding) : ℕ := (t.bound e.kind).getD (t.serializedSize e 0)

/-- `operator<<`. -/
def insert (s : Output) (x : α) : Option Output :=
  match t.extensibility with
  | .FINAL => s.insertMembers t.kinds (t.members x)
  | .APPENDABLE => s.insertAppendable t.kinds (t.members x)

/-- `operator>>`. -/
def extract (s : Input) : Option (α × Input) :=
  match t.extensibility with
  | .FINAL => (s.extractMembers t.kinds).map fun r ↦ (t.ofMembers r.1, r.2)
  | .APPENDABLE => (s.extractAppendable t.kinds).map fun r ↦ (t.ofMembers r.1, r.2)

/-- A sample on its way from a writer to a reader. -/
def transmit (e : Encoding) (x : α) : Option α := do
  let s ← t.insert { encoding := e, space := t.bufferSize e } x
  let r ← t.extract (s.reader 0 [])
  return r.1

end TypeSupport

/-! ## The control type -/

/-- `TestControl` of OpenDDS, with `int32_t` for `long`. -/
structure OpenTestControl where
  testId : BitVec 32 := 0
  start : Bool := false
  expectedEntities : BitVec 32 := 0
  loan : Bool := false
  reserve1 : BitVec 32 := 0
  reserve2 : BitVec 32 := 0
deriving DecidableEq, Repr

namespace OpenTestControl

def kinds : List Kind :=
  [.number .four, .boolean, .number .four, .boolean, .number .four, .number .four]

def members (stru : OpenTestControl) : Members kinds :=
  (stru.testId, stru.start, stru.expectedEntities, stru.loan, stru.reserve1, stru.reserve2, ())

def ofMembers (x : Members kinds) : OpenTestControl where
  testId := x.1
  start := x.2.1
  expectedEntities := x.2.2.1
  loan := x.2.2.2.1
  reserve1 := x.2.2.2.2.1
  reserve2 := x.2.2.2.2.2.1

def serializedSizeBound : EncodingKind → Option ℕ
  | .KIND_XCDR1 => none
  | .KIND_XCDR2 => none
  | .KIND_UNALIGNED_CDR => some 18

def typeSupport : TypeSupport OpenTestControl where
  extensibility := .APPENDABLE
  kinds := kinds
  members := members
  ofMembers := ofMembers
  bound := serializedSizeBound
  ofMembers_members _ := rfl
  size_lt e := by rcases e with ⟨_ | _ | _, _ | _⟩ <;> decide
  size_le_bound e := by rcases e with ⟨_ | _ | _, _ | _⟩ <;> decide

/-- The instance that `publish_start` and `publish_stop` fill in; they leave the reserve at zero. -/
def ofMessage (msg : TestControl) : OpenTestControl where
  testId := BitVec.ofInt 32 msg.testId
  start := msg.start
  expectedEntities := BitVec.ofInt 32 msg.expectedEntities
  loan := msg.loan

/-- What `poll_control` takes out of a sample. -/
def message (stru : OpenTestControl) : TestControl where
  testId := stru.testId.toInt
  start := stru.start
  expectedEntities := stru.expectedEntities.toInt
  loan := stru.loan

/-- A control message between the two control classes of OpenDDS. -/
def transmit (e : Encoding) (msg : TestControl) : Option TestControl :=
  (typeSupport.transmit e (ofMessage msg)).map message

end OpenTestControl

/-! ## The data type -/

namespace OpenAirEntity

def attitudeKinds : List Kind := [.number .four, .number .four, .number .four]

/-- The mission name is an array of 32 characters, written and read as one. -/
def movementAirEntityKinds : List Kind :=
  List.replicate 5 (.number .four) ++ List.replicate 2 (.number .one)
    ++ List.replicate 32 (.number .one) ++ List.replicate 8 (.number .four)
    ++ .boolean :: List.replicate 3 (.number .four)

def kinds : List Kind :=
  .number .four :: attitudeKinds ++ movementAirEntityKinds
    ++ [.number .one, .number .four, .number .four, .number .one]

def serializedSizeBound : EncodingKind → Option ℕ
  | .KIND_XCDR1 => some 133
  | .KIND_XCDR2 => some 137
  | .KIND_UNALIGNED_CDR => some 125

/-- `AirEntity` of OpenDDS, whose records are the values of the members in it. -/
def typeSupport : TypeSupport (Members kinds) where
  extensibility := .FINAL
  kinds := kinds
  members := id
  ofMembers := id
  bound := serializedSizeBound
  ofMembers_members _ := rfl
  size_lt e := by rcases e with ⟨_ | _ | _, _ | _⟩ <;> decide +kernel
  size_le_bound e := by rcases e with ⟨_ | _ | _, _ | _⟩ <;> decide +kernel

end OpenAirEntity

/-! ## Round trips -/

namespace TypeSupport

variable {α : Type} (t : TypeSupport α)

/-- A record, as it is written. -/
def encode (e : Encoding) (p : ℕ) (x : α) : List Byte :=
  t.extensibility.encode e t.kinds p (t.members x)

theorem length_encode (e : Encoding) (p : ℕ) (x : α) :
    p + (t.encode e p x).length = t.serializedSize e p :=
  t.extensibility.length_encode e t.kinds p (t.members x)

theorem insert_eq (s : Output) (x : α) :
    t.insert s x = s.bufferWrite (t.encode s.encoding s.wpos x) := by
  rw [insert, encode]
  rcases t.extensibility with _ | _
  · exact s.insertMembers_eq t.kinds (t.members x)
  · exact s.insertAppendable_eq t.kinds (t.members x)

theorem extract_eq {s : Input} (h : s.goodBit = true) {x : α} {rest : List Byte}
    (hleft : s.left = t.encode s.encoding s.rpos x ++ rest) :
    t.extract s = some (x, { s with
      left := rest, rpos := t.serializedSize s.encoding s.rpos }) := by
  rw [encode] at hleft
  rw [extract, serializedSize]
  rcases hext : t.extensibility with _ | _ <;> rw [hext] at hleft
  · change s.left = s.encoding.layout.encode t.kinds s.rpos (t.members x) ++ rest at hleft
    change (s.extractMembers t.kinds).map _ = some (x, { s with
      left := rest, rpos := s.encoding.serializedSize t.kinds s.rpos })
    rw [Input.extractMembers_eq h, hleft, Layout.decode_encode, s.encoding.serializedSize_eq]
    change some (t.ofMembers (t.members x), _) = _
    rw [t.ofMembers_members]
  · change (s.extractAppendable t.kinds).map _ = some (x, { s with
      left := rest, rpos := s.encoding.serializedSizeAppendable t.kinds s.rpos })
    rw [Input.extractAppendable_eq h (t.size_lt s.encoding) hleft]
    change some (t.ofMembers (t.members x), _) = _
    rw [t.ofMembers_members]

theorem extract_of_prefix {s : Input} (h : s.goodBit = true) {x : α}
    (hpre : s.left <+: t.encode s.encoding s.rpos x)
    (hlen : s.left.length < (t.encode s.encoding s.rpos x).length) : t.extract s = none := by
  rw [encode] at hpre hlen
  rw [extract]
  rcases hext : t.extensibility with _ | _ <;> rw [hext] at hpre hlen
  · have hstop := s.encoding.layout.length_encode t.kinds s.rpos (t.members x)
    change _ < (s.encoding.layout.encode t.kinds s.rpos (t.members x)).length at hlen
    change (s.extractMembers t.kinds).map _ = none
    rw [Input.extractMembers_of_short h (by omega)]
    rfl
  · change (s.extractAppendable t.kinds).map _ = none
    rw [Input.extractAppendable_of_prefix h (t.size_lt s.encoding) hpre hlen]
    rfl

/-- What a maintainer of the type expects of the generated code: a record is written if there is
room for its size, its bytes are read back as this record whatever follows them, and they are
refused when any are missing at the end. -/
structure RoundTrips : Prop where
  fits_iff : ∀ s x, (t.insert s x).isSome = true ↔ t.serializedSize s.encoding s.wpos
    ≤ s.wpos + s.space
  size : ∀ s s' x, t.insert s x = some s' → s'.wpos = t.serializedSize s.encoding s.wpos
  read : ∀ s s' x rest, t.insert s x = some s' →
    t.extract (s'.reader s.wpos rest) = some (x, s'.reader s'.wpos rest)
  refused : ∀ s s' x bs, t.insert s x = some s' → bs <+: s'.written.drop s.wpos →
    bs ≠ s'.written.drop s.wpos →
      t.extract { encoding := s.encoding, left := bs, rpos := s.wpos } = none

theorem roundTrips : t.RoundTrips where
  fits_iff s x := by
    have hlen := t.length_encode s.encoding s.wpos x
    rw [insert_eq, Output.bufferWrite]
    split_ifs with hroom
    · exact iff_of_true rfl (by omega)
    · exact iff_of_false Bool.false_ne_true (by omega)
  size s s' x h := by
    rw [insert_eq] at h
    rw [(s.bufferWrite_some h).2, t.length_encode]
  read s s' x rest h := by
    rw [insert_eq] at h
    obtain ⟨hfirst, hlast⟩ := s.reader_of_bufferWrite h rest
    rw [hfirst, hlast, t.length_encode]
    exact t.extract_eq rfl rfl
  refused s s' x bs h hpre hne := by
    rw [insert_eq] at h
    have hfirst := congrArg Input.left (s.reader_of_bufferWrite h []).1
    rw [List.append_nil] at hfirst
    have hwritten : s'.written.drop s.wpos = t.encode s.encoding s.wpos x :=
      (List.append_nil _).symm.trans hfirst
    rw [hwritten] at hpre hne
    exact t.extract_of_prefix rfl hpre
      (lt_of_le_of_ne hpre.length_le fun heq ↦ hne (hpre.eq_of_length heq))

/-- The block of a sample is large enough. -/
theorem serializedSize_le_bufferSize (e : Encoding) : t.serializedSize e 0 ≤ t.bufferSize e := by
  rw [bufferSize]
  rcases hbound : t.bound e.kind with _ | n
  · exact le_rfl
  · exact t.size_le_bound e n hbound

theorem transmit_eq (e : Encoding) (x : α) : t.transmit e x = some x := by
  have hroom : (t.insert { encoding := e, space := t.bufferSize e } x).isSome = true := by
    rw [t.roundTrips.fits_iff]
    exact (t.serializedSize_le_bufferSize e).trans (Nat.zero_add _).ge
  obtain ⟨s, hs⟩ := Option.isSome_iff_exists.mp hroom
  have hread := t.roundTrips.read _ s x [] hs
  change (t.insert { encoding := e, space := t.bufferSize e } x).bind _ = _
  rw [hs]
  change (t.extract (s.reader 0 [])).bind _ = _
  exact (congrArg (Option.bind · _) hread).trans rfl

end TypeSupport

/-- **The topic types.** -/
theorem topic_types_round_trip :
    OpenTestControl.typeSupport.RoundTrips ∧ OpenAirEntity.typeSupport.RoundTrips :=
  ⟨OpenTestControl.typeSupport.roundTrips, OpenAirEntity.typeSupport.roundTrips⟩

/-- A message whose numbers are of the type `int` arrives as it was sent. -/
theorem OpenTestControl.transmit_eq (e : Encoding) {msg : TestControl}
    (hid : -2 ^ 31 ≤ msg.testId ∧ msg.testId < 2 ^ 31)
    (hexpected : -2 ^ 31 ≤ msg.expectedEntities ∧ msg.expectedEntities < 2 ^ 31) :
    transmit e msg = some msg := by
  have hmessage : (ofMessage msg).message = msg := by
    rw [message, ofMessage, BitVec.toInt_ofInt_eq_self (by decide) hid.1 hid.2,
      BitVec.toInt_ofInt_eq_self (by decide) hexpected.1 hexpected.2]
  rw [transmit, TypeSupport.transmit_eq, Option.map_some, hmessage]

/-- **Versions of the control type.** In the encoding with a length, a reader of today's type gets
today's members out of a message of a later version, and a reader of the later version gets today's
message with zeros for the members it lacks. Either stands behind the message then. -/
theorem test_control_versions (ls : List Kind) (s : Output) (hversion : s.encoding.xcdr2 = true)
    (hsize : s.encoding.serializedSizeAppendable (OpenTestControl.kinds ++ ls) 0 < 2 ^ 32)
    (x : OpenTestControl) (rest : List Byte) :
    (∀ y s', s.insertAppendable (OpenTestControl.kinds ++ ls) (x.members.append y) = some s' →
      OpenTestControl.typeSupport.extract (s'.reader s.wpos rest)
        = some (x, s'.reader s'.wpos rest)) ∧
    ∀ s', OpenTestControl.typeSupport.insert s x = some s' →
      (s'.reader s.wpos rest).extractAppendable (OpenTestControl.kinds ++ ls)
        = some (x.members.append (Members.zero ls), s'.reader s'.wpos rest) := by
  constructor
  · intro y s' h
    rw [Output.insertAppendable_eq] at h
    obtain ⟨hfirst, hlast⟩ := s.reader_of_bufferWrite h rest
    rw [hfirst, hlast, s.encoding.length_appendable]
    have hread := Input.extractAppendable_append (s := {
      encoding := s.encoding
      left :=
        s.encoding.appendable (OpenTestControl.kinds ++ ls) s.wpos (x.members.append y) ++ rest
      rpos := s.wpos }) rfl hversion hsize rfl
    exact congrArg (Option.map fun r ↦ (OpenTestControl.ofMembers r.1, r.2)) hread
  · intro s' h
    change s.insertAppendable OpenTestControl.kinds x.members = some s' at h
    rw [Output.insertAppendable_eq] at h
    obtain ⟨hfirst, hlast⟩ := s.reader_of_bufferWrite h rest
    rw [hfirst, hlast, s.encoding.length_appendable]
    exact Input.extractAppendable_of_older rfl hversion ls
      (OpenTestControl.typeSupport.size_lt s.encoding) rfl

/-- A later version with one more number, in the middle of a stream: today's reader skips it, and a
reader of the later version finds zero in its place. -/
theorem test_control_versions_one_more :
    (∃ s' : Output, Output.insertAppendable
        { encoding := ⟨.KIND_XCDR2, .ENDIAN_BIG⟩, written := [1], space := 40 }
        (OpenTestControl.kinds ++ [.number .four])
        ((OpenTestControl.members { testId := 3, start := true }).append (Kind.ofNat .four 9, ()))
          = some s' ∧
      OpenTestControl.typeSupport.extract (s'.reader 1 [7])
        = some ({ testId := 3, start := true }, s'.reader 36 [7])) ∧
    ∃ s' : Output, OpenTestControl.typeSupport.insert
        { encoding := ⟨.KIND_XCDR2, .ENDIAN_BIG⟩, written := [1], space := 40 }
        { testId := 3, start := true } = some s' ∧
      (s'.reader 1 [7]).extractAppendable (OpenTestControl.kinds ++ [.number .four])
        = some ((OpenTestControl.members { testId := 3, start := true }).append
            (Members.zero [.number .four]), s'.reader 32 [7]) := by
  have h := test_control_versions [.number .four]
    { encoding := ⟨.KIND_XCDR2, .ENDIAN_BIG⟩, written := [1], space := 40 } rfl (by decide)
    { testId := 3, start := true } [7]
  exact ⟨⟨_, rfl, h.1 (Kind.ofNat .four 9, ()) _ rfl⟩, ⟨_, rfl, h.2 _ rfl⟩⟩

end IndraDds
