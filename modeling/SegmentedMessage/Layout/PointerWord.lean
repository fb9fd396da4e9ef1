import SegmentedMessage.Layout.ElementKind
import SegmentedMessage.Layout.StructShape

/-!
Pointer words: eight bytes in two halves. The low half tells the kind in its two lowest bits and,
above them, a signed word offset, a landing pad or an element count; the high half tells a struct
shape, the elements of a list, a segment or a capability. Each constructor is read back by its
getters on the range of its fields.
-/

namespace SegmentedMessage

structure PointerWord where
  low : UInt32
  high : UInt32
  deriving DecidableEq, Repr, Inhabited

namespace PointerWord

inductive Kind where
  | struct
  | list
  | far
  | other
  deriving DecidableEq, Repr

def Kind.code : Kind → Nat
  | struct => 0
  | list => 1
  | far => 2
  | other => 3

def Kind.ofCode (c : Nat) : Kind :=
  match c % 4 with
  | 0 => struct
  | 1 => list
  | 2 => far
  | _ => other

theorem Kind.code_ofCode (c : Nat) : (Kind.ofCode c).code = c % 4 := by
  have h : c % 4 < 4 := Nat.mod_lt _ (by decide)
  simp only [Kind.ofCode]
  generalize c % 4 = r at h ⊢
  match r, h with
  | 0, _ | 1, _ | 2, _ | 3, _ => rfl
  | n + 4, h => omega

def toNat (w : PointerWord) : Nat :=
  w.low.toNat + 0x100000000 * w.high.toNat

def ofNat (n : Nat) : PointerWord :=
  ⟨UInt32.ofNat n, UInt32.ofNat (n / 0x100000000)⟩

theorem toNat_lt (w : PointerWord) : w.toNat < 0x10000000000000000 := by
  have hl := w.low.toNat_lt
  have hh := w.high.toNat_lt
  simp only [toNat]; omega

theorem ofNat_toNat (w : PointerWord) : ofNat w.toNat = w := by
  obtain ⟨l, h⟩ := w
  have hl := l.toNat_lt
  have hh := h.toNat_lt
  simp only [ofNat, toNat, mk.injEq, ← UInt32.toNat_inj, UInt32.toNat_ofNat']
  omega

theorem toNat_ofNat (n : Nat) : (ofNat n).toNat = n % 0x10000000000000000 := by
  simp only [ofNat, toNat, UInt32.toNat_ofNat']
  omega

def null : PointerWord :=
  ⟨0, 0⟩

/-- A struct without content has offset minus one, so that it is not the null word. -/
def emptyStruct : PointerWord :=
  ⟨0xfffffffc, 0⟩

def isNull (w : PointerWord) : Bool :=
  w == null

def kind (w : PointerWord) : Kind :=
  Kind.ofCode w.low.toNat

def isCapability (w : PointerWord) : Bool :=
  w.low == 3

def offset (w : PointerWord) : Int :=
  let bits := w.low.toNat / 4
  if bits < 0x20000000 then bits else bits - 0x40000000

def shape (w : PointerWord) : StructShape :=
  ⟨w.high.toNat % 0x10000 * 8, UInt16.ofNat (w.high.toNat / 0x10000)⟩

def element (w : PointerWord) : ElementKind :=
  ElementKind.ofCode w.high.toNat

def count (w : PointerWord) : Nat :=
  w.high.toNat / 8

def tagLength (w : PointerWord) : Nat :=
  w.low.toNat / 4

def isDouble (w : PointerWord) : Bool :=
  w.low.toNat / 4 % 2 == 1

def padWord (w : PointerWord) : Nat :=
  w.low.toNat / 8

def padSegment (w : PointerWord) : Nat :=
  w.high.toNat

def capability (w : PointerWord) : UInt32 :=
  w.high

def offsetBits (off : Int) : Nat :=
  (off % 0x40000000).toNat * 4

def shapeBits (s : StructShape) : Nat :=
  s.dataWords + 0x10000 * s.slots.toNat

def setOffset (w : PointerWord) (off : Int) : PointerWord :=
  ⟨UInt32.ofNat (offsetBits off + w.low.toNat % 4), w.high⟩

def ofStruct (off : Int) (s : StructShape) : PointerWord :=
  ⟨UInt32.ofNat (offsetBits off), UInt32.ofNat (shapeBits s)⟩

def ofList (off : Int) (e : ElementKind) (n : Nat) : PointerWord :=
  ⟨UInt32.ofNat (offsetBits off + 1), UInt32.ofNat (8 * n + e.code)⟩

def ofTag (n : Nat) (s : StructShape) : PointerWord :=
  ⟨UInt32.ofNat (4 * n), UInt32.ofNat (shapeBits s)⟩

def ofFar (double : Bool) (pad seg : Nat) : PointerWord :=
  ⟨UInt32.ofNat (8 * pad + 4 * double.toNat + 2), UInt32.ofNat seg⟩

def ofCapability (i : UInt32) : PointerWord :=
  ⟨3, i⟩

theorem kind_of_low {w : PointerWord} {k : Kind} (h : w.low.toNat % 4 = k.code) : w.kind = k := by
  simp only [kind, Kind.ofCode, h]
  cases k <;> rfl

theorem low_of_kind {w : PointerWord} {k : Kind} (h : w.kind = k) : w.low.toNat % 4 = k.code := by
  rw [← Kind.code_ofCode, ← h, kind]

theorem offsetBits_lt (off : Int) : offsetBits off < 0x100000000 := by
  simp only [offsetBits]; omega

theorem offsetBits_mod (off : Int) : offsetBits off % 4 = 0 := by
  simp [offsetBits]

theorem offsetBits_offset (w : PointerWord) : offsetBits w.offset = w.low.toNat / 4 * 4 := by
  have hl := w.low.toNat_lt
  simp only [offset, offsetBits]
  split <;> omega

theorem shapeBits_shape (w : PointerWord) : shapeBits w.shape = w.high.toNat := by
  have hh := w.high.toNat_lt
  simp only [shape, shapeBits, StructShape.dataWords, UInt16.toNat_ofNat']
  omega

theorem low_setOffset (w : PointerWord) (off : Int) :
    (w.setOffset off).low.toNat = offsetBits off + w.low.toNat % 4 := by
  have hb := offsetBits_lt off
  have hm := offsetBits_mod off
  simp only [setOffset, UInt32.toNat_ofNat']
  omega

theorem kind_setOffset (w : PointerWord) (off : Int) : (w.setOffset off).kind = w.kind := by
  have hm := offsetBits_mod off
  apply kind_of_low
  rw [low_setOffset, ← low_of_kind rfl]
  omega

theorem offset_setOffset (w : PointerWord) {off : Int} (hl : -0x20000000 ≤ off)
    (hh : off < 0x20000000) : (w.setOffset off).offset = off := by
  simp only [offset, low_setOffset, offsetBits]
  split <;> omega

theorem kind_ofStruct (off : Int) (s : StructShape) : (ofStruct off s).kind = .struct := by
  have hm := offsetBits_mod off
  apply kind_of_low
  simp only [ofStruct, UInt32.toNat_ofNat', Kind.code]
  omega

theorem kind_ofList (off : Int) (e : ElementKind) (n : Nat) : (ofList off e n).kind = .list := by
  have hm := offsetBits_mod off
  apply kind_of_low
  simp only [ofList, UInt32.toNat_ofNat', Kind.code]
  omega

theorem kind_ofTag (n : Nat) (s : StructShape) : (ofTag n s).kind = .struct := by
  apply kind_of_low
  simp only [ofTag, UInt32.toNat_ofNat', Kind.code]
  omega

theorem kind_ofFar (double : Bool) (pad seg : Nat) : (ofFar double pad seg).kind = .far := by
  apply kind_of_low
  simp only [ofFar, UInt32.toNat_ofNat', Kind.code]
  omega

theorem shape_ofNat {s : StructShape} (hm : s.data % 8 = 0) (hv : s.isEncodable = true)
    (low : UInt32) : shape ⟨low, UInt32.ofNat (shapeBits s)⟩ = s := by
  obtain ⟨d, p⟩ := s
  have hp := p.toNat_lt
  rw [StructShape.isEncodable_iff, StructShape.longestData] at hv
  simp only [shape, shapeBits, StructShape.dataWords, UInt32.toNat_ofNat', StructShape.mk.injEq,
    ← UInt16.toNat_inj, UInt16.toNat_ofNat'] at *
  omega

theorem element_ofList (off : Int) (e : ElementKind) (n : Nat) : (ofList off e n).element = e := by
  have he := e.code_lt
  apply ElementKind.ofCode_eq
  simp only [ofList, UInt32.toNat_ofNat']
  omega

theorem count_ofList (off : Int) (e : ElementKind) {n : Nat} (h : n < 0x20000000) :
    (ofList off e n).count = n := by
  have he := e.code_lt
  simp only [ofList, count, UInt32.toNat_ofNat']
  omega

theorem tagLength_ofTag {n : Nat} (h : n < 0x40000000) (s : StructShape) :
    (ofTag n s).tagLength = n := by
  simp only [ofTag, tagLength, UInt32.toNat_ofNat']
  omega

theorem padWord_ofFar (double : Bool) {pad : Nat} (h : pad < 0x20000000) (seg : Nat) :
    (ofFar double pad seg).padWord = pad := by
  have hd : double.toNat ≤ 1 := Bool.toNat_le double
  simp only [ofFar, padWord, UInt32.toNat_ofNat']
  omega

theorem isDouble_ofFar (double : Bool) (pad seg : Nat) :
    (ofFar double pad seg).isDouble = double := by
  simp only [ofFar, isDouble, UInt32.toNat_ofNat']
  cases double
  · simp only [Bool.toNat_false, beq_eq_false_iff_ne, ne_eq]
    omega
  · simp only [Bool.toNat_true, beq_iff_eq]
    omega

theorem padSegment_ofFar (double : Bool) (pad : Nat) {seg : Nat} (h : seg < 0x100000000) :
    (ofFar double pad seg).padSegment = seg := by
  simp only [ofFar, padSegment, UInt32.toNat_ofNat']
  omega

end PointerWord

end SegmentedMessage
