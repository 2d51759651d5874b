import IndraDds.Foundation.Cdr

/-!
# The serializer of OpenDDS

A `Serializer` writes into a message block, or reads from one, with alignment counted from where the
stream begins. A structure that may be extended later is preceded by its length in the encoding
`KIND_XCDR2`, and its operators are generated with a test of the end in front of every member.

An operation that returns false is `none`. The generated operators return false at once then, and
the stream is not used again. They drop the result of one operation only: what stands between the
last member read and the end of a structure is skipped, and a stream that is too short for that is
left in a failed state.

A stream is one block here, not a chain of them. The bytes of a number are those of the machine,
copied or swapped, so on every machine they come in the order of the encoding.
-/

namespace IndraDds

open Cdr

/-! ## Encodings -/

inductive Endianness where
  | ENDIAN_BIG
  | ENDIAN_LITTLE
deriving DecidableEq, Repr

inductive EncodingKind where
  | KIND_XCDR1
  | KIND_XCDR2
  | KIND_UNALIGNED_CDR
deriving DecidableEq, Repr

structure Encoding where
  kind : EncodingKind
  endianness : Endianness
deriving DecidableEq, Repr

/-- `DCPS::align`. What `& ~(by - 1)` clears is the remainder, for a power of two. -/
def alignTo (value unit : ℕ) : ℕ := value + unit - 1 - (value + unit - 1) % unit

namespace Encoding

variable (e : Encoding)

def maxAlign : ℕ :=
  match e.kind with
  | .KIND_XCDR1 => 8
  | .KIND_XCDR2 => 4
  | .KIND_UNALIGNED_CDR => 0

/-- `xcdr_version() == XCDR_VERSION_2`. -/
def xcdr2 : Bool := e.kind = .KIND_XCDR2

def align (value unit : ℕ) : ℕ :=
  if e.maxAlign ≠ 0 then alignTo value (min e.maxAlign unit) else value

/-- `primitive_serialized_size`; a boolean and a character are not aligned. -/
def primitiveSerializedSize (size : ℕ) : Kind → ℕ
  | .boolean => size + 1
  | .number .one => size + 1
  | .number w => e.align size w.bytes + w.bytes

def serializedSizeDelimiter (size : ℕ) : ℕ :=
  if e.xcdr2 then e.primitiveSerializedSize size (.number .four) else size

/-- `serialized_size` of a structure that is not preceded by its length. -/
def serializedSize (ks : List Kind) (size : ℕ) : ℕ := ks.foldl e.primitiveSerializedSize size

/-- `serialized_size` of one that may be extended. -/
def serializedSizeAppendable (ks : List Kind) (size : ℕ) : ℕ :=
  e.serializedSize ks (e.serializedSizeDelimiter size)

/-- Bytes of a machine number, lowest first, in the order of the encoding. -/
def swap (bs : List Byte) : List Byte :=
  match e.endianness with
  | .ENDIAN_BIG => bs.reverse
  | .ENDIAN_LITTLE => bs

end Encoding

/-! ## Writing -/

/-- A `Serializer` that writes: what it has written, and the room left in its block. -/
structure Output where
  encoding : Encoding
  written : List Byte := []
  space : ℕ
deriving DecidableEq, Repr

namespace Output

def wpos (s : Output) : ℕ := s.written.length

def bufferWrite (s : Output) (src : List Byte) : Option Output :=
  if src.length ≤ s.space then
    some { s with written := s.written ++ src, space := s.space - src.length }
  else none

def alignW (s : Output) (al : ℕ) : Option Output :=
  if s.encoding.maxAlign = 0 then some s
  else
    let al := min al s.encoding.maxAlign
    s.bufferWrite (List.replicate ((al - s.wpos % al) % al) 0)

/-- `operator<<`. -/
def insert (s : Output) : (k : Kind) → k.Val → Option Output
  | .boolean, x => s.bufferWrite (Kind.boolean.raw x)
  | .number .one, x => s.bufferWrite ((Kind.number .one).raw x)
  | .number w, x => do
    let s ← s.alignW w.bytes
    s.bufferWrite (s.encoding.swap ((Kind.number w).raw x))

/-- Its argument counts the delimiter itself as well. -/
def writeDelimiter (s : Output) (size : ℕ) : Option Output :=
  if s.encoding.xcdr2 then s.insert (.number .four) (Kind.ofNat .four (size - 4)) else some s

/-- The members of a structure, one behind the other. -/
def insertMembers (s : Output) : (ks : List Kind) → Members ks → Option Output
  | [], _ => some s
  | k :: ks, x => do
    let s ← s.insert k x.1
    s.insertMembers ks x.2

/-- `operator<<` of a structure that may be extended. -/
def insertAppendable (s : Output) (ks : List Kind) (x : Members ks) : Option Output := do
  let s ←
    if s.encoding.xcdr2 then s.writeDelimiter (s.encoding.serializedSizeAppendable ks 0)
    else some s
  s.insertMembers ks x

end Output

/-! ## Reading -/

/-- A `Serializer` that reads: what is left of its block. -/
structure Input where
  encoding : Encoding
  left : List Byte
  rpos : ℕ := 0
  goodBit : Bool := true
deriving DecidableEq, Repr

namespace Input

def skip (s : Input) (n : ℕ) : Option Input :=
  if s.goodBit ∧ n ≤ s.left.length then
    some { s with left := s.left.drop n, rpos := s.rpos + n }
  else none

def bufferRead (s : Input) (size : ℕ) : Option (List Byte × Input) := do
  let r ← s.skip size
  return (s.left.take size, r)

def alignR (s : Input) (al : ℕ) : Option Input :=
  if s.encoding.maxAlign = 0 then some s
  else
    let al := min al s.encoding.maxAlign
    s.skip ((al - s.rpos % al) % al)

/-- `operator>>`. -/
def extract (s : Input) : (k : Kind) → Option (k.Val × Input)
  | .boolean => do
    let (bs, s) ← s.bufferRead 1
    return (Kind.boolean.ofRaw bs, s)
  | .number .one => do
    let (bs, s) ← s.bufferRead 1
    return ((Kind.number .one).ofRaw bs, s)
  | .number w => do
    let s ← s.alignR w.bytes
    let (bs, s) ← s.bufferRead w.bytes
    return ((Kind.number w).ofRaw (s.encoding.swap bs), s)

def readDelimiter (s : Input) : Option (ℕ × Input) :=
  if s.encoding.xcdr2 then do
    let (dheader, s) ← s.extract (.number .four)
    return (Kind.toNat dheader, s)
  else none

/-- The members of a structure, one behind the other. -/
def extractMembers (s : Input) : (ks : List Kind) → Option (Members ks × Input)
  | [] => some ((), s)
  | k :: ks => do
    let (x, s) ← s.extract k
    let (xs, s) ← s.extractMembers ks
    return ((x, xs), s)

/-- The same with the test of the end in front of each; `reached` is `reached_end_of_struct`. -/
def extractWithin (s : Input) (endOfStruct : ℕ) : Bool → (ks : List Kind) →
    Option (Members ks × Input)
  | _, [] => some ((), s)
  | reached, k :: ks =>
    let reached := reached || (s.encoding.xcdr2 && decide (endOfStruct ≤ s.rpos))
    if reached then do
      let (xs, s) ← s.extractWithin endOfStruct reached ks
      return ((k.zero, xs), s)
    else do
      let (x, s) ← s.extract k
      let (xs, s) ← s.extractWithin endOfStruct reached ks
      return ((x, xs), s)

/-- A `skip` whose result nobody looks at. -/
def skipTo (s : Input) (pos : ℕ) : Input :=
  (s.skip (pos - s.rpos)).getD { s with left := [], goodBit := false }

/-- `operator>>` of a structure that may be extended. -/
def extractAppendable (s : Input) (ks : List Kind) : Option (Members ks × Input) := do
  let (totalSize, s) ← if s.encoding.xcdr2 then s.readDelimiter else some (0, s)
  let endOfStruct := s.rpos + totalSize
  let (x, s) ← s.extractWithin endOfStruct false ks
  if s.encoding.xcdr2 && decide (s.rpos < endOfStruct) then return (x, s.skipTo endOfStruct)
  else return (x, s)

end Input

/-- The stream of a reader that is given what has been written from `p` on, and more behind it. -/
def Output.reader (s : Output) (p : ℕ) (rest : List Byte) : Input where
  encoding := s.encoding
  left := s.written.drop p ++ rest
  rpos := p

/-! ## The layout of an encoding -/

theorem alignTo_eq {unit : ℕ} (hpos : 0 < unit) (value : ℕ) :
    alignTo value unit = value + (unit - value % unit) % unit := by
  have hlt := Nat.mod_lt value hpos
  have hvalue := Nat.div_add_mod value unit
  rcases Nat.eq_zero_or_pos (value % unit) with hzero | hrem
  · have hmod : (value + unit - 1) % unit = unit - 1 := by
      rw [← hvalue, hzero, Nat.add_zero, Nat.add_sub_assoc hpos, Nat.mul_add_mod,
        Nat.mod_eq_of_lt (Nat.sub_lt hpos Nat.one_pos)]
    rw [alignTo, hmod, hzero, Nat.sub_zero, Nat.mod_self]
    omega
  · have hmod : (value + unit - 1) % unit = value % unit - 1 := by
      have hsplit : value + unit - 1 = unit * (value / unit + 1) + (value % unit - 1) := by
        rw [Nat.mul_add, Nat.mul_one]
        omega
      rw [hsplit, Nat.mul_add_mod, Nat.mod_eq_of_lt (by omega)]
    rw [alignTo, hmod, Nat.mod_eq_of_lt (Nat.sub_lt hpos hrem)]
    omega

def Encoding.layout (e : Encoding) : Layout where
  maxAlign := e.maxAlign
  bigEndian := e.endianness = .ENDIAN_BIG

namespace Encoding

variable (e : Encoding)

theorem maxAlign_layout : e.layout.maxAlign = e.maxAlign := rfl

theorem swap_eq (bs : List Byte) : e.swap bs = e.layout.order bs := by
  rcases e with ⟨kind, _ | _⟩ <;> rfl

theorem padding_of_width_one {k : Kind} (h : k.width = 1) (p : ℕ) : e.layout.padding k p = 0 := by
  rw [Layout.padding, h]
  split_ifs with hmax
  · rfl
  · rw [min_eq_left (Nat.one_le_iff_ne_zero.mpr hmax)]
    exact Nat.mod_one _

theorem align_eq (k : Kind) (size : ℕ) :
    e.align size k.width = size + e.layout.padding k size := by
  rw [align, Layout.padding, maxAlign_layout]
  by_cases hmax : e.maxAlign = 0
  · rw [if_neg (not_not.mpr hmax), if_pos hmax, Nat.add_zero]
  · have hpos : 0 < min e.maxAlign k.width := lt_min (Nat.pos_of_ne_zero hmax) k.width_pos
    rw [if_pos hmax, if_neg hmax, alignTo_eq hpos, min_comm]

theorem primitiveSerializedSize_eq (size : ℕ) (k : Kind) :
    e.primitiveSerializedSize size k = e.layout.after k size := by
  rw [Layout.after]
  rcases k with _ | _ | _ | _ | _
  · rw [e.padding_of_width_one rfl]
    rfl
  · rw [e.padding_of_width_one rfl]
    rfl
  all_goals
    rw [← e.align_eq]
    rfl

theorem serializedSize_eq (ks : List Kind) (size : ℕ) :
    e.serializedSize ks size = e.layout.stop ks size := by
  induction ks generalizing size with
  | nil => rfl
  | cons k ks ih =>
    rw [Layout.stop, ← primitiveSerializedSize_eq, ← ih]
    rfl

theorem serializedSizeDelimiter_eq (h : e.xcdr2 = true) (size : ℕ) :
    e.serializedSizeDelimiter size = e.layout.after (.number .four) size := by
  rw [serializedSizeDelimiter, if_pos h, primitiveSerializedSize_eq]

/-- A structure that may be extended, as it is written. -/
def appendable (ks : List Kind) (p : ℕ) (x : Members ks) : List Byte :=
  if e.xcdr2 then
    e.layout.encodeOne (.number .four) p
        (Kind.ofNat .four (e.layout.encode ks (e.layout.after (.number .four) p) x).length) ++
      e.layout.encode ks (e.layout.after (.number .four) p) x
  else e.layout.encode ks p x

theorem maxAlign_of_xcdr2 (h : e.xcdr2 = true) : e.maxAlign = 4 := by
  rw [maxAlign, of_decide_eq_true h]

theorem after_delimiter (h : e.xcdr2 = true) (p : ℕ) :
    ∃ c, e.layout.after (.number .four) p = 4 + 4 * c := by
  rw [Layout.after, Layout.padding, maxAlign_layout, e.maxAlign_of_xcdr2 h]
  change ∃ c, p + (4 - p % 4) % 4 + 4 = 4 + 4 * c
  exact ⟨(p + 3) / 4, by omega⟩

/-- With alignments up to four, a structure behind a delimiter is as long as one at the start. -/
theorem length_encode_after (h : e.xcdr2 = true) (ks : List Kind) (p : ℕ) (x : Members ks) :
    (e.layout.encode ks (e.layout.after (.number .four) p) x).length
      = e.serializedSizeAppendable ks 0 - 4 := by
  have hdvd : ∀ (c : ℕ) (k : Kind), min k.width e.layout.maxAlign ∣ 4 * c := fun c k ↦ by
    rw [maxAlign_layout, e.maxAlign_of_xcdr2 h]
    refine Dvd.dvd.mul_right ?_ c
    rcases k with _ | _ | _ | _ | _ <;> decide
  have hzero : e.layout.after (.number .four) 0 = 4 := by
    rw [Layout.after, Layout.padding, maxAlign_layout, e.maxAlign_of_xcdr2 h]
    rfl
  have hlen := e.layout.length_encode ks (e.layout.after (.number .four) p) x
  obtain ⟨c, hc⟩ := e.after_delimiter h p
  have hstop : e.layout.stop ks (e.layout.after (.number .four) p)
      = e.layout.stop ks 4 + 4 * c := by rw [hc, e.layout.stop_add (hdvd c)]
  rw [serializedSizeAppendable, serializedSize_eq, serializedSizeDelimiter_eq e h, hzero]
  omega

theorem after_add_length_encode (h : e.xcdr2 = true) (ks : List Kind) (p : ℕ) (x : Members ks) :
    e.layout.after (.number .four) p
        + (e.layout.encode ks (e.layout.after (.number .four) p) x).length
      = e.serializedSizeAppendable ks p := by
  rw [e.layout.length_encode, serializedSizeAppendable, serializedSize_eq,
    serializedSizeDelimiter_eq e h]

theorem length_appendable (ks : List Kind) (p : ℕ) (x : Members ks) :
    p + (e.appendable ks p x).length = e.serializedSizeAppendable ks p := by
  rw [appendable]
  split_ifs with hversion
  · rw [List.length_append, ← Nat.add_assoc, e.layout.length_encodeOne,
      after_add_length_encode e hversion]
  · rw [e.layout.length_encode, serializedSizeAppendable, serializedSize_eq,
      serializedSizeDelimiter, if_neg hversion]

end Encoding

namespace Output

variable (s : Output)

theorem bufferWrite_bufferWrite (a b : List Byte) :
    ((s.bufferWrite a).bind fun s ↦ s.bufferWrite b) = s.bufferWrite (a ++ b) := by
  rw [bufferWrite, bufferWrite, List.length_append]
  split_ifs with ha hab hab
  · rw [Option.bind_some, bufferWrite, if_pos (by change _ ≤ s.space - _; omega)]
    simp only [List.append_assoc, Nat.sub_sub]
  · rw [Option.bind_some, bufferWrite, if_neg (by change ¬_ ≤ s.space - _; omega)]
  · omega
  · rfl

theorem bufferWrite_nil : s.bufferWrite [] = some s := by
  rw [bufferWrite, List.length_nil, if_pos (Nat.zero_le _), List.append_nil]
  rfl

theorem alignW_eq (k : Kind) :
    s.alignW k.width
      = s.bufferWrite (List.replicate (s.encoding.layout.padding k s.wpos) 0) := by
  rw [alignW, Layout.padding, Encoding.maxAlign_layout]
  split_ifs
  · exact s.bufferWrite_nil.symm
  · rfl

theorem bufferWrite_some {src : List Byte} {s' : Output} (h : s.bufferWrite src = some s') :
    s'.encoding = s.encoding ∧ s'.wpos = s.wpos + src.length := by
  rw [bufferWrite] at h
  split_ifs at h
  rw [← Option.some.inj h]
  exact ⟨rfl, List.length_append⟩

/-- A reader of what has just been written. -/
theorem reader_of_bufferWrite {src : List Byte} {s' : Output} (h : s.bufferWrite src = some s')
    (rest : List Byte) :
    s'.reader s.wpos rest = { encoding := s.encoding, left := src ++ rest, rpos := s.wpos } ∧
      s'.reader s'.wpos rest
        = { encoding := s.encoding, left := rest, rpos := s.wpos + src.length } := by
  obtain ⟨hencoding, hwpos⟩ := s.bufferWrite_some h
  have hwritten : s'.written = s.written ++ src := by
    rw [bufferWrite] at h
    split_ifs at h
    rw [← Option.some.inj h]
  have hfirst : s'.written.drop s.wpos = src := by rw [hwritten, wpos, List.drop_left]
  have hlast : s'.written.drop s'.wpos = [] := List.drop_length
  rw [reader, reader, hfirst, hlast, hencoding, hwpos]
  exact ⟨rfl, rfl⟩

theorem insert_eq (k : Kind) (x : k.Val) :
    s.insert k x = s.bufferWrite (s.encoding.layout.encodeOne k s.wpos x) := by
  have hone : ∀ {k : Kind} (x : k.Val), k.width = 1 →
      s.bufferWrite (k.raw x) = s.bufferWrite (s.encoding.layout.encodeOne k s.wpos x) :=
    fun {k} x hk ↦ by
      rw [Layout.encodeOne, s.encoding.padding_of_width_one hk,
        s.encoding.layout.order_of_length_one (by rw [Kind.length_raw, hk])]
      rfl
  have hnumber : ∀ {w : Width} (x : (Kind.number w).Val), (s.alignW w.bytes).bind
      (fun s ↦ s.bufferWrite (s.encoding.swap ((Kind.number w).raw x)))
        = s.bufferWrite (s.encoding.layout.encodeOne (.number w) s.wpos x) := fun {w} x ↦ by
    have halign := s.alignW_eq (.number w)
    rw [Layout.encodeOne, ← bufferWrite_bufferWrite, ← halign]
    change (s.alignW w.bytes).bind _ = (s.alignW w.bytes).bind _
    rcases hpad : s.alignW w.bytes with _ | r
    · rfl
    · rw [← s.encoding.swap_eq, ← (s.bufferWrite_some (halign.symm.trans hpad)).1]
      rfl
  rcases k with _ | _ | _ | _ | _
  · exact hone x rfl
  · exact hone x rfl
  all_goals exact hnumber x

theorem insertMembers_eq (ks : List Kind) (x : Members ks) :
    s.insertMembers ks x = s.bufferWrite (s.encoding.layout.encode ks s.wpos x) := by
  induction ks generalizing s with
  | nil => exact s.bufferWrite_nil.symm
  | cons k ks ih =>
    rw [Layout.encode, ← bufferWrite_bufferWrite, ← insert_eq]
    change (s.insert k x.1).bind _ = _
    rcases hfirst : s.insert k x.1 with _ | r
    · rfl
    · rw [insert_eq] at hfirst
      obtain ⟨hencoding, hwpos⟩ := s.bufferWrite_some hfirst
      rw [Layout.length_encodeOne] at hwpos
      change r.insertMembers ks x.2 = r.bufferWrite _
      rw [ih, hencoding, hwpos]

theorem insertAppendable_eq (ks : List Kind) (x : Members ks) :
    s.insertAppendable ks x = s.bufferWrite (s.encoding.appendable ks s.wpos x) := by
  rcases hversion : s.encoding.xcdr2 with _ | _
  · rw [Encoding.appendable, hversion, if_neg Bool.false_ne_true, ← insertMembers_eq,
      insertAppendable, hversion]
    rfl
  · rw [Encoding.appendable, if_pos hversion, Encoding.length_encode_after _ hversion,
      ← bufferWrite_bufferWrite, ← insert_eq, insertAppendable, if_pos hversion, writeDelimiter,
      if_pos hversion]
    change (s.insert (.number .four) _).bind _ = _
    rcases hfirst : s.insert (.number .four)
      (Kind.ofNat .four (s.encoding.serializedSizeAppendable ks 0 - 4)) with _ | r
    · rfl
    · rw [insert_eq] at hfirst
      obtain ⟨hencoding, hwpos⟩ := s.bufferWrite_some hfirst
      rw [Layout.length_encodeOne] at hwpos
      change r.insertMembers ks x = r.bufferWrite _
      rw [insertMembers_eq, hencoding, hwpos]

end Output

namespace Input

variable {s : Input}

theorem skip_eq (h : s.goodBit = true) (n : ℕ) :
    s.skip n = if n ≤ s.left.length then
      some { s with left := s.left.drop n, rpos := s.rpos + n } else none := by
  rw [skip]
  simp only [h, true_and]

theorem alignR_eq (h : s.goodBit = true) (k : Kind) :
    s.alignR k.width = s.skip (s.encoding.layout.padding k s.rpos) := by
  rw [alignR, Layout.padding, Encoding.maxAlign_layout]
  split_ifs
  · rw [skip_eq h, if_pos (Nat.zero_le _), List.drop_zero]
    rfl
  · rfl

theorem bufferRead_eq (h : s.goodBit = true) (size : ℕ) :
    s.bufferRead size = if size ≤ s.left.length then
      some (s.left.take size, { s with left := s.left.drop size, rpos := s.rpos + size })
    else none := by
  rw [bufferRead, skip_eq h]
  split_ifs <;> rfl

/-- Padding and a value behind it. -/
theorem skip_bufferRead (h : s.goodBit = true) (pad size : ℕ) :
    ((s.skip pad).bind fun s ↦ s.bufferRead size) =
      if pad + size ≤ s.left.length then
        some ((s.left.drop pad).take size,
          { s with left := s.left.drop (pad + size), rpos := s.rpos + pad + size })
      else none := by
  have hlen : (s.left.drop pad).length = s.left.length - pad := List.length_drop
  have hread := bufferRead_eq (s := { s with left := s.left.drop pad, rpos := s.rpos + pad }) h size
  simp only [hlen, List.drop_drop] at hread
  rw [skip_eq h]
  split_ifs with hpad hsize hsize
  · rw [Option.bind_some, hread, if_pos (Nat.le_sub_of_add_le' hsize)]
  · rw [Option.bind_some, hread, if_neg (by omega)]
  · omega
  · rfl

theorem extract_eq (h : s.goodBit = true) (k : Kind) :
    s.extract k = (s.encoding.layout.decodeOne k s.rpos s.left).map fun r ↦
      (r.1, { s with left := r.2, rpos := s.encoding.layout.after k s.rpos }) := by
  have hone : ∀ {k : Kind}, k.width = 1 →
      ((s.bufferRead 1).bind fun r ↦ some (k.ofRaw r.1, r.2)) =
        (s.encoding.layout.decodeOne k s.rpos s.left).map fun r ↦
          (r.1, { s with left := r.2, rpos := s.encoding.layout.after k s.rpos }) := fun {k} hk ↦ by
    rw [bufferRead_eq h, Layout.decodeOne, Layout.after, s.encoding.padding_of_width_one hk, hk,
      Nat.zero_add, List.drop_zero]
    split_ifs with hlen
    · have htake : (s.left.take 1).length = 1 := by
        rw [List.length_take]
        exact min_eq_left hlen
      rw [s.encoding.layout.order_of_length_one htake]
      rfl
    · rfl
  have hnumber : ∀ {w : Width},
      ((s.alignR w.bytes).bind fun s ↦ (s.bufferRead w.bytes).bind fun r ↦
        some ((Kind.number w).ofRaw (r.2.encoding.swap r.1), r.2)) =
        (s.encoding.layout.decodeOne (.number w) s.rpos s.left).map fun r ↦
          (r.1, { s with left := r.2, rpos := s.encoding.layout.after (.number w) s.rpos }) :=
    fun {w} ↦ by
      rw [← Kind.width_number, alignR_eq h, ← Option.bind_assoc, skip_bufferRead h,
        Layout.decodeOne]
      split_ifs
      · rw [← s.encoding.swap_eq]
        rfl
      · rfl
  rcases k with _ | _ | _ | _ | _
  · exact hone rfl
  · exact hone rfl
  all_goals exact hnumber

theorem extractMembers_eq (h : s.goodBit = true) (ks : List Kind) :
    s.extractMembers ks = (s.encoding.layout.decode ks s.rpos s.left).map fun r ↦
      (r.1, { s with left := r.2, rpos := s.encoding.layout.stop ks s.rpos }) := by
  induction ks generalizing s with
  | nil => rfl
  | cons k ks ih =>
    rw [extractMembers, Layout.decode, extract_eq h]
    rcases s.encoding.layout.decodeOne k s.rpos s.left with _ | ⟨x, bs⟩
    · rfl
    · have hrest := ih (s := { s with
        left := bs, rpos := s.encoding.layout.after k s.rpos }) h
      change (extractMembers { s with
        left := bs, rpos := s.encoding.layout.after k s.rpos } ks).bind _ =
          ((s.encoding.layout.decode ks (s.encoding.layout.after k s.rpos) bs).bind _).map _
      rw [hrest]
      rcases s.encoding.layout.decode ks (s.encoding.layout.after k s.rpos) bs with _ | ⟨y, bs'⟩ <;>
        rfl

/-- What is read once the end has been reached. -/
theorem extractWithin_reached (last : ℕ) (ks : List Kind) :
    s.extractWithin last true ks = some (Members.zero ks, s) := by
  induction ks with
  | nil => rfl
  | cons k ks ih =>
    rw [extractWithin, Bool.true_or]
    change (s.extractWithin last true ks).bind _ = _
    rw [ih]
    rfl

theorem extractWithin_eq (h : s.goodBit = true) (hversion : s.encoding.xcdr2 = true) (last : ℕ)
    (ks : List Kind) :
    s.extractWithin last false ks =
      (s.encoding.layout.decodeWithin last ks s.rpos s.left).map fun r ↦
        (r.1, { s with left := r.2, rpos := s.encoding.layout.stopWithin last ks s.rpos }) := by
  induction ks generalizing s with
  | nil => rfl
  | cons k ks ih =>
    rw [extractWithin, hversion, Bool.false_or, Bool.true_and, Layout.decodeWithin,
      Layout.stopWithin]
    by_cases hlast : last ≤ s.rpos
    · rw [if_pos hlast, if_pos hlast, decide_eq_true hlast]
      change (s.extractWithin last true ks).bind _ = _
      rw [extractWithin_reached]
      rfl
    · rw [if_neg hlast, if_neg hlast, decide_eq_false hlast, extract_eq h]
      rcases s.encoding.layout.decodeOne k s.rpos s.left with _ | ⟨x, bs⟩
      · rfl
      · have hrest := ih (s := { s with
          left := bs, rpos := s.encoding.layout.after k s.rpos }) h hversion
        change (extractWithin { s with
          left := bs, rpos := s.encoding.layout.after k s.rpos } last false ks).bind _ =
            ((s.encoding.layout.decodeWithin last ks (s.encoding.layout.after k s.rpos) bs).bind
              _).map _
        rw [hrest]
        rcases s.encoding.layout.decodeWithin last ks (s.encoding.layout.after k s.rpos) bs
          with _ | ⟨y, bs'⟩ <;> rfl

/-- Without a length the end is not looked at. -/
theorem extractWithin_of_false (h : s.goodBit = true) (hversion : s.encoding.xcdr2 = false)
    (last : ℕ) (ks : List Kind) : s.extractWithin last false ks = s.extractMembers ks := by
  induction ks generalizing s with
  | nil => rfl
  | cons k ks ih =>
    rw [extractWithin, hversion, Bool.false_or, Bool.false_and, if_neg Bool.false_ne_true,
      extractMembers, extract_eq h]
    rcases s.encoding.layout.decodeOne k s.rpos s.left with _ | ⟨x, bs⟩
    · rfl
    · have hrest := ih (s := { s with
        left := bs, rpos := s.encoding.layout.after k s.rpos }) h hversion
      change (extractWithin { s with
        left := bs, rpos := s.encoding.layout.after k s.rpos } last false ks).bind _ = _
      rw [hrest]
      rfl

theorem skipTo_eq (h : s.goodBit = true) {extra rest : List Byte} (hleft : s.left = extra ++ rest) :
    s.skipTo (s.rpos + extra.length)
      = { s with left := rest, rpos := s.rpos + extra.length } := by
  rw [skipTo, Nat.add_sub_cancel_left, skip_eq h, hleft, if_pos (by simp), List.drop_left]
  rfl

theorem readDelimiter_eq (h : s.goodBit = true) (hversion : s.encoding.xcdr2 = true) {n : ℕ}
    (hn : n < 2 ^ 32) {bs : List Byte}
    (hleft : s.left = s.encoding.layout.encodeOne (.number .four) s.rpos
      (Kind.ofNat .four n) ++ bs) :
    s.readDelimiter = some (n, { s with
      left := bs, rpos := s.encoding.layout.after (.number .four) s.rpos }) := by
  rw [readDelimiter, if_pos hversion, extract_eq h, hleft, Layout.decodeOne_encodeOne]
  change some (Kind.toNat (Kind.ofNat .four n), _) = _
  rw [Kind.toNat_ofNat (hn.trans_eq (by decide))]

/-- Behind its length, what stands for a structure is read and what is left of it is skipped. -/
theorem extractAppendable_of_delimiter (h : s.goodBit = true) (hversion : s.encoding.xcdr2 = true)
    {ks : List Kind} {x : Members ks} {p total : ℕ} {bs rest : List Byte} (extra : List Byte)
    (htotal : total < 2 ^ 32) (hp : s.encoding.layout.after (.number .four) s.rpos = p)
    (hleft : s.left = s.encoding.layout.encodeOne (.number .four) s.rpos
      (Kind.ofNat .four total) ++ bs)
    (hread : s.encoding.layout.decodeWithin (p + total) ks p bs = some (x, extra ++ rest))
    (hstop : s.encoding.layout.stopWithin (p + total) ks p + extra.length = p + total) :
    s.extractAppendable ks = some (x, { s with left := rest, rpos := p + total }) := by
  obtain ⟨q, hq⟩ : ∃ q, s.encoding.layout.stopWithin (p + total) ks p = q := ⟨_, rfl⟩
  have hskip := skipTo_eq (s := { s with left := extra ++ rest, rpos := q }) h rfl
  have hwithin := extractWithin_eq (s := { s with left := bs, rpos := p }) h hversion (p + total) ks
  rw [extractAppendable, if_pos hversion, readDelimiter_eq h hversion htotal hleft, hp]
  change (extractWithin { s with left := bs, rpos := p } (p + total) false ks).bind _ = _
  rw [hwithin, hread, hq]
  change (if (s.encoding.xcdr2 && decide (q < p + total)) = true then
    some (x, skipTo _ (p + total)) else some (x, _)) = _
  rw [hversion, Bool.true_and, ← hstop, hq]
  rcases extra with _ | ⟨b, extra⟩
  · rw [if_neg (by simp)]
    rfl
  · rw [if_pos (by simp), hskip]

/-- A structure behind its length, and more that counts as part of it. -/
theorem extractAppendable_longer (h : s.goodBit = true) (hversion : s.encoding.xcdr2 = true)
    {ks : List Kind} {x : Members ks} {bs extra rest : List Byte} (hsize : bs.length < 2 ^ 32)
    (hbs : bs = s.encoding.layout.encode ks (s.encoding.layout.after (.number .four) s.rpos) x
      ++ extra)
    (hleft : s.left = s.encoding.layout.encodeOne (.number .four) s.rpos
      (Kind.ofNat .four bs.length) ++ bs ++ rest) :
    s.extractAppendable ks = some (x, { s with
      left := rest, rpos := s.encoding.layout.after (.number .four) s.rpos + bs.length }) := by
  have hlen := s.encoding.layout.length_encode ks
    (s.encoding.layout.after (.number .four) s.rpos) x
  have htotal := congrArg List.length hbs
  rw [List.length_append] at htotal
  have hlast : s.encoding.layout.stop ks (s.encoding.layout.after (.number .four) s.rpos)
      ≤ s.encoding.layout.after (.number .four) s.rpos + bs.length := by omega
  obtain ⟨hread, hstop⟩ := s.encoding.layout.decodeWithin_encode x (extra ++ rest) hlast
  rw [← List.append_assoc, ← hbs] at hread
  rw [List.append_assoc] at hleft
  refine extractAppendable_of_delimiter h hversion extra hsize rfl hleft hread ?_
  rw [hstop]
  omega

/-- **Newer versions.** What a structure has more than the one that is read is skipped. -/
theorem extractAppendable_append (h : s.goodBit = true) (hversion : s.encoding.xcdr2 = true)
    {ks ls : List Kind} {x : Members ks} {y : Members ls} {rest : List Byte}
    (hsize : s.encoding.serializedSizeAppendable (ks ++ ls) 0 < 2 ^ 32)
    (hleft : s.left = s.encoding.appendable (ks ++ ls) s.rpos (x.append y) ++ rest) :
    s.extractAppendable ks = some (x, { s with
      left := rest, rpos := s.encoding.serializedSizeAppendable (ks ++ ls) s.rpos }) := by
  rw [Encoding.appendable, if_pos hversion] at hleft
  rw [← s.encoding.after_add_length_encode hversion (ks ++ ls) s.rpos (x.append y)]
  refine extractAppendable_longer h hversion ?_ (s.encoding.layout.encode_append _ x y) hleft
  rw [s.encoding.length_encode_after hversion]
  omega

/-- **Older versions.** What a structure has less than the one that is read is taken as zero. -/
theorem extractAppendable_of_older (h : s.goodBit = true) (hversion : s.encoding.xcdr2 = true)
    {ks : List Kind} (ls : List Kind) {x : Members ks} {rest : List Byte}
    (hsize : s.encoding.serializedSizeAppendable ks 0 < 2 ^ 32)
    (hleft : s.left = s.encoding.appendable ks s.rpos x ++ rest) :
    s.extractAppendable (ks ++ ls) = some (x.append (Members.zero ls), { s with
      left := rest, rpos := s.encoding.serializedSizeAppendable ks s.rpos }) := by
  have hbound : (s.encoding.layout.encode ks
      (s.encoding.layout.after (.number .four) s.rpos) x).length < 2 ^ 32 := by
    rw [s.encoding.length_encode_after hversion]
    omega
  rw [Encoding.appendable, if_pos hversion, List.append_assoc] at hleft
  rw [← s.encoding.after_add_length_encode hversion ks s.rpos x]
  obtain ⟨hread, hstop⟩ := s.encoding.layout.decodeWithin_encode_append ls x rest
    (s.encoding.layout.length_encode ks (s.encoding.layout.after (.number .four) s.rpos) x)
  exact extractAppendable_of_delimiter h hversion [] hbound rfl hleft hread hstop

/-- **Round trip.** -/
theorem extractAppendable_eq (h : s.goodBit = true) {ks : List Kind} {x : Members ks}
    {rest : List Byte} (hsize : s.encoding.serializedSizeAppendable ks 0 < 2 ^ 32)
    (hleft : s.left = s.encoding.appendable ks s.rpos x ++ rest) :
    s.extractAppendable ks = some (x, { s with
      left := rest, rpos := s.encoding.serializedSizeAppendable ks s.rpos }) := by
  rcases hversion : s.encoding.xcdr2 with _ | _
  · rw [Encoding.appendable, hversion, if_neg Bool.false_ne_true] at hleft
    rw [extractAppendable, hversion, if_neg Bool.false_ne_true]
    change (s.extractWithin (s.rpos + 0) false ks).bind _ = _
    rw [extractWithin_of_false h hversion, extractMembers_eq h, hleft, Layout.decode_encode]
    change (if (s.encoding.xcdr2 && _) = true then _ else some (x, _)) = _
    rw [hversion, Bool.false_and, if_neg Bool.false_ne_true]
    rw [Encoding.serializedSizeAppendable, Encoding.serializedSize_eq,
      Encoding.serializedSizeDelimiter, hversion, if_neg Bool.false_ne_true]
  · rw [Encoding.appendable, if_pos hversion] at hleft
    rw [← s.encoding.after_add_length_encode hversion ks s.rpos x]
    refine extractAppendable_longer h hversion ?_ (List.append_nil _).symm hleft
    rw [s.encoding.length_encode_after hversion]
    omega

/-! ## Streams that end too early -/

theorem extractMembers_of_short (h : s.goodBit = true) {ks : List Kind}
    (hshort : s.rpos + s.left.length < s.encoding.layout.stop ks s.rpos) :
    s.extractMembers ks = none := by
  rw [extractMembers_eq h, Layout.decode_of_short _ hshort]
  rfl

/-- A stream that ends within a structure, or within the length in front of it. -/
theorem extractAppendable_of_prefix (h : s.goodBit = true) {ks : List Kind} {x : Members ks}
    (hsize : s.encoding.serializedSizeAppendable ks 0 < 2 ^ 32)
    (hpre : s.left <+: s.encoding.appendable ks s.rpos x)
    (hlen : s.left.length < (s.encoding.appendable ks s.rpos x).length) :
    s.extractAppendable ks = none := by
  rcases hversion : s.encoding.xcdr2 with _ | _
  · rw [Encoding.appendable, hversion, if_neg Bool.false_ne_true] at hlen
    have hstop := s.encoding.layout.length_encode ks s.rpos x
    rw [extractAppendable, hversion, if_neg Bool.false_ne_true]
    change (s.extractWithin (s.rpos + 0) false ks).bind _ = none
    rw [extractWithin_of_false h hversion, extractMembers_of_short h (by omega)]
    rfl
  · have htotal := s.encoding.length_encode_after hversion ks s.rpos x
    have hstop := s.encoding.layout.length_encode ks
      (s.encoding.layout.after (.number .four) s.rpos) x
    rw [Encoding.appendable, if_pos hversion] at hpre hlen
    rw [extractAppendable, if_pos hversion]
    generalize s.encoding.layout.encode ks (s.encoding.layout.after (.number .four) s.rpos) x = body
      at hpre hlen htotal hstop
    have hfirst := s.encoding.layout.length_encodeOne (.number .four) s.rpos
      (Kind.ofNat .four body.length)
    rw [List.length_append] at hlen
    rcases lt_or_ge (s.rpos + s.left.length) (s.encoding.layout.after (.number .four) s.rpos)
      with hlt | hge
    · rw [readDelimiter, if_pos hversion, extract_eq h, Layout.decodeOne_of_short _ hlt]
      rfl
    · obtain ⟨bs, hbs⟩ := List.prefix_of_prefix_length_le (List.prefix_append _ body) hpre
        (by omega)
      have hleft := congrArg List.length hbs
      rw [List.length_append] at hleft
      have hwithin := extractWithin_eq (s := { s with
        left := bs, rpos := s.encoding.layout.after (.number .four) s.rpos }) h hversion
        (s.encoding.layout.after (.number .four) s.rpos + body.length) ks
      rw [readDelimiter_eq h hversion (by omega) hbs.symm]
      change (extractWithin { s with
        left := bs, rpos := s.encoding.layout.after (.number .four) s.rpos } _ false ks).bind _
          = none
      rw [hwithin, Layout.decodeWithin_of_short _ hstop.ge]
      · rfl
      · change s.encoding.layout.after (.number .four) s.rpos + bs.length < _
        omega

end Input

end IndraDds
