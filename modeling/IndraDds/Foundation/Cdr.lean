import Mathlib.Data.List.TakeDrop
import Mathlib.Tactic.Ring

/-!
# Common data representation

The members of a structure are laid out one behind the other, each aligned to its size by padding in
front of it, up to a greatest alignment. Where a member stands therefore depends on the position at
which the structure begins, and so does what is written: everything here takes a position.

Numbers are laid out in either byte order. A structure is the list of the kinds of its members, and
a value of it has one value for each.

A structure may be read *within* an end, as one is that comes with its length in front of it: the
members that would begin at the end or beyond take zero. This is how a reader copes with the
messages of an older version of the structure, which has fewer members, while what a newer version
has added stands between the last member read and the end.
-/

namespace Cdr

abbrev Byte := BitVec 8

/-! ## Numbers -/

/-- The `n` lowest bytes of a number, the lowest first. -/
def toBytes : ℕ → ℕ → List Byte
  | 0, _ => []
  | n + 1, x => BitVec.ofNat 8 x :: toBytes n (x / 256)

def ofBytes : List Byte → ℕ
  | [] => 0
  | b :: bs => b.toNat + 256 * ofBytes bs

@[simp] theorem length_toBytes (n x : ℕ) : (toBytes n x).length = n := by
  induction n generalizing x with
  | zero => rfl
  | succ n ih => rw [toBytes, List.length_cons, ih]

theorem ofBytes_toBytes {n x : ℕ} (h : x < 256 ^ n) : ofBytes (toBytes n x) = x := by
  induction n generalizing x with
  | zero => exact (Nat.lt_one_iff.mp h).symm
  | succ n ih =>
    have hrest : x / 256 < 256 ^ n := Nat.div_lt_of_lt_mul (by rwa [pow_succ'] at h)
    rw [toBytes, ofBytes, ih hrest, BitVec.toNat_ofNat]
    exact Nat.mod_add_div x 256

/-! ## Members -/

inductive Width where
  | one
  | two
  | four
  | eight
deriving DecidableEq, Repr

def Width.bytes : Width → ℕ
  | one => 1
  | two => 2
  | four => 4
  | eight => 8

inductive Kind where
  | boolean
  | number (w : Width)
deriving DecidableEq, Repr

namespace Kind

def Val : Kind → Type
  | boolean => Bool
  | number w => BitVec (8 * w.bytes)

def width : Kind → ℕ
  | boolean => 1
  | number w => w.bytes

theorem width_number (w : Width) : (number w).width = w.bytes := rfl

theorem width_pos (k : Kind) : 0 < k.width := by
  rcases k with _ | w
  · exact Nat.one_pos
  · rcases w <;> decide

def ofNat (w : Width) (n : ℕ) : (number w).Val := BitVec.ofNat (8 * w.bytes) n

def toNat {w : Width} (x : (number w).Val) : ℕ := BitVec.toNat x

theorem toNat_ofNat {w : Width} {n : ℕ} (h : n < 256 ^ w.bytes) : toNat (ofNat w n) = n := by
  rw [toNat, ofNat, BitVec.toNat_ofNat, pow_mul]
  exact Nat.mod_eq_of_lt h

def zero : (k : Kind) → k.Val
  | boolean => false
  | number w => ofNat w 0

/-- The bytes of a value, the lowest first. -/
def raw : (k : Kind) → k.Val → List Byte
  | boolean, x => [bif x then 1 else 0]
  | number w, x => toBytes w.bytes (toNat x)

/-- Any byte but zero is true. -/
def ofRaw : (k : Kind) → List Byte → k.Val
  | boolean, bs => decide (bs.headD 0 ≠ 0)
  | number w, bs => ofNat w (ofBytes bs)

@[simp] theorem length_raw (k : Kind) (x : k.Val) : (k.raw x).length = k.width := by
  cases k with
  | boolean => rfl
  | number w => exact length_toBytes _ _

theorem ofRaw_raw (k : Kind) (x : k.Val) : k.ofRaw (k.raw x) = x := by
  cases k with
  | boolean => cases x <;> rfl
  | number w =>
    have hlt : toNat x < 256 ^ w.bytes := by
      have h := BitVec.isLt x
      rwa [pow_mul] at h
    rw [raw, ofRaw, ofBytes_toBytes hlt]
    exact BitVec.eq_of_toNat_eq (Nat.mod_eq_of_lt (BitVec.isLt x))

end Kind

/-- One value for each member. -/
def Members : List Kind → Type
  | [] => Unit
  | k :: ks => k.Val × Members ks

namespace Members

def zero : (ks : List Kind) → Members ks
  | [] => ()
  | k :: ks => (k.zero, zero ks)

/-- The members of a structure, and behind them those of another. -/
def append : {ks ls : List Kind} → Members ks → Members ls → Members (ks ++ ls)
  | [], _, _, y => y
  | _ :: _, _, x, y => (x.1, append x.2 y)

end Members

/-! ## Layout -/

/-- How values are laid out. Nothing is aligned where the greatest alignment is zero. -/
structure Layout where
  maxAlign : ℕ
  bigEndian : Bool
deriving DecidableEq, Repr

namespace Layout

variable (f : Layout)

/-- The padding in front of a member. -/
def padding (k : Kind) (p : ℕ) : ℕ :=
  if f.maxAlign = 0 then 0
  else (min k.width f.maxAlign - p % min k.width f.maxAlign) % min k.width f.maxAlign

def order (bs : List Byte) : List Byte := if f.bigEndian then bs.reverse else bs

@[simp] theorem length_order (bs : List Byte) : (f.order bs).length = bs.length := by
  rw [order]
  split_ifs
  · exact List.length_reverse
  · rfl

@[simp] theorem order_order (bs : List Byte) : f.order (f.order bs) = bs := by
  rw [order, order]
  split_ifs
  · exact List.reverse_reverse bs
  · rfl

theorem order_of_length_one {bs : List Byte} (h : bs.length = 1) : f.order bs = bs := by
  obtain ⟨b, rfl⟩ := List.length_eq_one_iff.mp h
  rw [order]
  split_ifs <;> rfl

/-- Where a member ends. -/
def after (k : Kind) (p : ℕ) : ℕ := p + f.padding k p + k.width

def encodeOne (k : Kind) (p : ℕ) (x : k.Val) : List Byte :=
  List.replicate (f.padding k p) 0 ++ f.order (k.raw x)

def decodeOne (k : Kind) (p : ℕ) (bs : List Byte) : Option (k.Val × List Byte) :=
  if f.padding k p + k.width ≤ bs.length then
    some (k.ofRaw (f.order ((bs.drop (f.padding k p)).take k.width)),
      bs.drop (f.padding k p + k.width))
  else none

theorem length_encodeOne (k : Kind) (p : ℕ) (x : k.Val) :
    p + (f.encodeOne k p x).length = f.after k p := by
  rw [encodeOne, List.length_append, List.length_replicate, length_order, Kind.length_raw, after,
    Nat.add_assoc]

theorem decodeOne_encodeOne (k : Kind) (p : ℕ) (x : k.Val) (rest : List Byte) :
    f.decodeOne k p (f.encodeOne k p x ++ rest) = some (x, rest) := by
  have hlen : (f.order (k.raw x)).length = k.width := by rw [length_order, Kind.length_raw]
  have hpad : (List.replicate (f.padding k p) (0 : Byte)).length = f.padding k p :=
    List.length_replicate
  have hdrop : (f.encodeOne k p x ++ rest).drop (f.padding k p) = f.order (k.raw x) ++ rest := by
    rw [encodeOne, List.append_assoc]
    exact List.drop_left' hpad
  have htake : (f.order (k.raw x) ++ rest).take k.width = f.order (k.raw x) := List.take_left' hlen
  have hrest : (f.encodeOne k p x ++ rest).drop (f.padding k p + k.width) = rest := by
    rw [← List.drop_drop, hdrop]
    exact List.drop_left' hlen
  rw [decodeOne, if_pos, hrest, hdrop, htake, order_order, Kind.ofRaw_raw]
  rw [List.length_append, encodeOne, List.length_append, hpad, hlen]
  exact Nat.le_add_right _ _

theorem decodeOne_some {k : Kind} {p : ℕ} {bs rest : List Byte} {x : k.Val}
    (h : f.decodeOne k p bs = some (x, rest)) : f.after k p + rest.length = p + bs.length := by
  rw [decodeOne] at h
  split_ifs at h with hlen
  obtain ⟨-, rfl⟩ := Prod.ext_iff.mp (Option.some.inj h)
  rw [List.length_drop, after]
  omega

theorem decodeOne_of_short {k : Kind} {p : ℕ} {bs : List Byte}
    (h : p + bs.length < f.after k p) : f.decodeOne k p bs = none := by
  rw [after] at h
  rw [decodeOne, if_neg (by omega)]

theorem lt_after (k : Kind) (p : ℕ) : p < f.after k p := by
  have hwidth := k.width_pos
  rw [after]
  omega

/-! ## Structures -/

/-- Where a structure ends. -/
def stop : List Kind → ℕ → ℕ
  | [], p => p
  | k :: ks, p => stop ks (f.after k p)

def encode : (ks : List Kind) → ℕ → Members ks → List Byte
  | [], _, _ => []
  | k :: ks, p, x => f.encodeOne k p x.1 ++ encode ks (f.after k p) x.2

def decode : (ks : List Kind) → ℕ → List Byte → Option (Members ks × List Byte)
  | [], _, bs => some ((), bs)
  | k :: ks, p, bs => do
    let (x, bs) ← f.decodeOne k p bs
    let (xs, bs) ← decode ks (f.after k p) bs
    return ((x, xs), bs)

/-- Reading within an end. -/
def decodeWithin (last : ℕ) : (ks : List Kind) → ℕ → List Byte → Option (Members ks × List Byte)
  | [], _, bs => some ((), bs)
  | k :: ks, p, bs =>
    if last ≤ p then some (Members.zero (k :: ks), bs)
    else do
      let (x, bs) ← f.decodeOne k p bs
      let (xs, bs) ← decodeWithin last ks (f.after k p) bs
      return ((x, xs), bs)

/-- Where reading within an end comes to. -/
def stopWithin (last : ℕ) : List Kind → ℕ → ℕ
  | [], p => p
  | k :: ks, p => if last ≤ p then p else stopWithin last ks (f.after k p)

theorem length_encode (ks : List Kind) (p : ℕ) (x : Members ks) :
    p + (f.encode ks p x).length = f.stop ks p := by
  induction ks generalizing p with
  | nil => rfl
  | cons k ks ih =>
    rw [encode, List.length_append, ← Nat.add_assoc, length_encodeOne]
    exact ih (f.after k p) x.2

/-- **Round trip.** -/
theorem decode_encode (ks : List Kind) (p : ℕ) (x : Members ks) (rest : List Byte) :
    f.decode ks p (f.encode ks p x ++ rest) = some (x, rest) := by
  induction ks generalizing p with
  | nil => rfl
  | cons k ks ih =>
    rw [encode, List.append_assoc, decode, decodeOne_encodeOne]
    change (f.decode ks (f.after k p) (f.encode ks (f.after k p) x.2 ++ rest)).bind _ = _
    rw [ih]
    rfl

theorem le_stop (ks : List Kind) (p : ℕ) : p ≤ f.stop ks p := by
  induction ks generalizing p with
  | nil => exact le_rfl
  | cons k ks ih => exact (f.lt_after k p).le.trans (ih (f.after k p))

theorem encode_append {ks ls : List Kind} (p : ℕ) (x : Members ks) (y : Members ls) :
    f.encode (ks ++ ls) p (x.append y) = f.encode ks p x ++ f.encode ls (f.stop ks p) y := by
  induction ks generalizing p with
  | nil => rfl
  | cons k ks ih =>
    change f.encodeOne k p x.1 ++ f.encode (ks ++ ls) (f.after k p) (Members.append x.2 y) = _
    rw [ih, encode, List.append_assoc]
    rfl

/-- A stream that ends within a structure is refused. -/
theorem decode_of_short {ks : List Kind} {p : ℕ} {bs : List Byte}
    (h : p + bs.length < f.stop ks p) : f.decode ks p bs = none := by
  induction ks generalizing p bs with
  | nil => exact absurd h (not_lt.mpr (Nat.le_add_right _ _))
  | cons k ks ih =>
    rw [decode]
    rcases hfirst : f.decodeOne k p bs with _ | ⟨x, rest⟩
    · rfl
    · have hrest : f.decode ks (f.after k p) rest = none :=
        ih ((f.decodeOne_some hfirst).trans_lt h)
      change (f.decode ks (f.after k p) rest).bind _ = none
      rw [hrest]
      rfl

theorem decodeWithin_of_le {last p : ℕ} (h : last ≤ p) (ks : List Kind) (bs : List Byte) :
    f.decodeWithin last ks p bs = some (Members.zero ks, bs) := by
  rcases ks with _ | ⟨k, ks⟩
  · rfl
  · rw [decodeWithin, if_pos h]

theorem stopWithin_of_le {last p : ℕ} (h : last ≤ p) (ks : List Kind) :
    f.stopWithin last ks p = p := by
  rcases ks with _ | ⟨k, ks⟩
  · rfl
  · rw [stopWithin, if_pos h]

theorem lt_stop (k : Kind) (ks : List Kind) (p : ℕ) : p < f.stop (k :: ks) p :=
  (f.lt_after k p).trans_le (f.le_stop ks _)

theorem decodeWithin_of_lt {last p : ℕ} (h : p < last) {k : Kind} (ks : List Kind) (x : k.Val)
    (bs : List Byte) :
    f.decodeWithin last (k :: ks) p (f.encodeOne k p x ++ bs)
      = (f.decodeWithin last ks (f.after k p) bs).map fun r ↦ ((x, r.1), r.2) := by
  rw [decodeWithin, if_neg (not_le.mpr h), decodeOne_encodeOne]
  change (f.decodeWithin last ks (f.after k p) bs).bind _ = _
  rcases f.decodeWithin last ks (f.after k p) bs with _ | _ <;> rfl

theorem stopWithin_of_lt {last p : ℕ} (h : p < last) (k : Kind) (ks : List Kind) :
    f.stopWithin last (k :: ks) p = f.stopWithin last ks (f.after k p) := by
  rw [stopWithin, if_neg (not_le.mpr h)]

/-- **Older versions.** Read within its end, a structure that lacks the last members gives zeros for
them. -/
theorem decodeWithin_encode_append {ks : List Kind} (ls : List Kind) {p last : ℕ} (x : Members ks)
    (rest : List Byte) (hlast : last = f.stop ks p) :
    f.decodeWithin last (ks ++ ls) p (f.encode ks p x ++ rest)
        = some (x.append (Members.zero ls), rest) ∧
      f.stopWithin last (ks ++ ls) p = last := by
  induction ks generalizing p with
  | nil => exact ⟨f.decodeWithin_of_le hlast.le ls rest, (f.stopWithin_of_le hlast.le ls).trans
      hlast.symm⟩
  | cons k ks ih =>
    have hlt : p < last := (f.lt_stop k ks p).trans_eq hlast.symm
    obtain ⟨hread, hstop⟩ := ih (p := f.after k p) x.2 hlast
    refine ⟨?_, (f.stopWithin_of_lt hlt k (ks ++ ls)).trans hstop⟩
    rw [encode, List.append_assoc]
    refine (f.decodeWithin_of_lt hlt (ks ++ ls) x.1 _).trans ?_
    rw [hread]
    rfl

/-- **Newer versions.** Where the end is further on, a structure is read as without an end. -/
theorem decodeWithin_encode {ks : List Kind} {p last : ℕ} (x : Members ks) (rest : List Byte)
    (hlast : f.stop ks p ≤ last) :
    f.decodeWithin last ks p (f.encode ks p x ++ rest) = some (x, rest) ∧
      f.stopWithin last ks p = f.stop ks p := by
  induction ks generalizing p with
  | nil => exact ⟨rfl, rfl⟩
  | cons k ks ih =>
    have hlt : p < last := (f.lt_stop k ks p).trans_le hlast
    obtain ⟨hread, hstop⟩ := ih (p := f.after k p) x.2 hlast
    refine ⟨?_, (f.stopWithin_of_lt hlt k ks).trans hstop⟩
    rw [encode, List.append_assoc, f.decodeWithin_of_lt hlt, hread]
    rfl

theorem decodeWithin_of_short {ks : List Kind} {p last : ℕ} {bs : List Byte}
    (hlast : f.stop ks p ≤ last) (h : p + bs.length < f.stop ks p) :
    f.decodeWithin last ks p bs = none := by
  induction ks generalizing p bs with
  | nil => exact absurd h (not_lt.mpr (Nat.le_add_right _ _))
  | cons k ks ih =>
    have hlt : p < last := (f.lt_stop k ks p).trans_le hlast
    rw [decodeWithin, if_neg (not_le.mpr hlt)]
    rcases hfirst : f.decodeOne k p bs with _ | ⟨x, rest⟩
    · rfl
    · have hrest : f.decodeWithin last ks (f.after k p) rest = none :=
        ih hlast ((f.decodeOne_some hfirst).trans_lt h)
      change (f.decodeWithin last ks (f.after k p) rest).bind _ = none
      rw [hrest]
      rfl

theorem padding_add {m : ℕ} (hdvd : ∀ k : Kind, min k.width f.maxAlign ∣ m) (k : Kind) (p : ℕ) :
    f.padding k (p + m) = f.padding k p := by
  rw [padding, padding]
  split_ifs
  · rfl
  · obtain ⟨c, rfl⟩ := hdvd k
    rw [Nat.add_mul_mod_self_left]

/-- A structure is laid out the same a multiple of all alignments further on. -/
theorem stop_add {m : ℕ} (hdvd : ∀ k : Kind, min k.width f.maxAlign ∣ m) (ks : List Kind)
    (p : ℕ) : f.stop ks (p + m) = f.stop ks p + m := by
  induction ks generalizing p with
  | nil => rfl
  | cons k ks ih =>
    have hafter : f.after k (p + m) = f.after k p + m := by
      rw [after, after, f.padding_add hdvd]
      ring
    rw [stop, hafter, ih]
    rfl

end Layout

end Cdr
