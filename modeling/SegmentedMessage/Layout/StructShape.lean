import SegmentedMessage.Layout.Word

namespace SegmentedMessage

structure StructShape where
  data : Nat
  slots : UInt16
  deriving DecidableEq, Repr, Inhabited

namespace StructShape

def empty : StructShape :=
  ⟨0, 0⟩

def longestData : Nat :=
  0xffff * 8

def isEmpty (s : StructShape) : Bool :=
  s.data == 0 && s.slots == 0

def isEncodable (s : StructShape) : Bool :=
  decide (s.data ≤ longestData)

def roundUp (s : StructShape) : StructShape :=
  ⟨Layout.roundUp s.data, s.slots⟩

def slotBytes (s : StructShape) : Nat :=
  s.slots.toNat * 8

def bytes (s : StructShape) : Nat :=
  s.data + s.slotBytes

def dataWords (s : StructShape) : Nat :=
  s.data / 8 % 0x10000

theorem isEmpty_iff (s : StructShape) : s.isEmpty = true ↔ s = empty := by
  obtain ⟨d, p⟩ := s
  simp [isEmpty, empty]

theorem bytes_eq_zero (s : StructShape) : s.bytes = 0 ↔ s = empty := by
  obtain ⟨d, p⟩ := s
  simp only [bytes, slotBytes, empty, mk.injEq, ← UInt16.toNat_inj, UInt16.toNat_zero]
  omega

theorem roundUp_data_mod (s : StructShape) : s.roundUp.data % 8 = 0 :=
  Layout.roundUp_mod s.data

theorem isEncodable_iff (s : StructShape) : s.isEncodable = true ↔ s.data ≤ longestData := by
  simp [isEncodable]

theorem roundUp_encodable {s : StructShape} (h : s.isEncodable = true) :
    s.roundUp.isEncodable = true := by
  rw [isEncodable_iff, longestData] at h ⊢
  simp only [roundUp, Layout.roundUp]
  omega

theorem bytes_mod {s : StructShape} (h : s.data % 8 = 0) : s.bytes % 8 = 0 := by
  simp only [bytes, slotBytes]; omega

end StructShape

end SegmentedMessage
