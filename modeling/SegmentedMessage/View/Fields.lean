import SegmentedMessage.Pointer.Read
import SegmentedMessage.View.Number

namespace SegmentedMessage.StructView

def field? (v : StructView) (off n : Nat) : Option Location :=
  match v with
  | absent => none
  | backed loc shape _ => if off + n ≤ shape.data then some (loc.shift off) else none

def slot? (v : StructView) (i : Nat) : Option Location :=
  match v with
  | absent => none
  | backed loc shape _ =>
    if i < shape.slots.toNat then some (loc.shift (shape.data + i * 8)) else none

def outOfRange (v : StructView) (part : StructPart) (pos : Nat) : Fault :=
  .structRange part pos v.shape

def get (v : StructView) (w : Width) (off : Nat) (s : Store) : Except Abort Nat :=
  s.readAt? (v.field? off w.bytes) w

def set (v : StructView) (w : Width) (off val : Nat) : StoreM Unit :=
  Store.writeAt? (v.field? off w.bytes) (v.outOfRange .data off) w val

def getInt (v : StructView) (w : Width) (off : Nat) (s : Store) : Except Abort Int :=
  w.toSigned <$> v.get w off s

def setInt (v : StructView) (w : Width) (off : Nat) (val : Int) : StoreM Unit :=
  v.set w off (w.ofSigned val)

def getFloat32 (v : StructView) (off : Nat) (s : Store) : Except Abort Float32 :=
  (fun n => Float32.ofBits (UInt32.ofNat n)) <$> v.get .four off s

def setFloat32 (v : StructView) (off : Nat) (val : Float32) : StoreM Unit :=
  v.set .four off val.toBits.toNat

def getFloat (v : StructView) (off : Nat) (s : Store) : Except Abort Float :=
  (fun n => Float.ofBits (UInt64.ofNat n)) <$> v.get .eight off s

def setFloat (v : StructView) (off : Nat) (val : Float) : StoreM Unit :=
  v.set .eight off val.toBits.toNat

def getBit (v : StructView) (n : Nat) (s : Store) : Except Abort Bool :=
  s.readBitAt? (v.field? (Layout.bitByte n) 1) n

def setBit (v : StructView) (n : Nat) (val : Bool) : StoreM Unit :=
  Store.writeBitAt? (v.field? (Layout.bitByte n) 1) (v.outOfRange .bit n) n val

def pointerAt (v : StructView) (i : Nat) (s : Store) : Except Abort Pointer :=
  match v.slot? i with
  | some l => s.pointerAt l
  | none => .ok .null

theorem field?_eq_some {v : StructView} {off n : Nat} {l : Location} :
    v.field? off n = some l ↔
      ∃ loc shape member, v = backed loc shape member ∧ off + n ≤ shape.data ∧
        l = loc.shift off := by
  cases v with
  | absent => simp [field?]
  | backed loc shape member =>
      simp only [field?]
      split
      · rename_i hin
        constructor
        · intro h
          cases h
          exact ⟨loc, shape, member, rfl, hin, rfl⟩
        · rintro ⟨_, _, _, h, _, rfl⟩
          cases h
          rfl
      · rename_i hout
        constructor
        · intro h
          cases h
        · rintro ⟨_, _, _, h, hin, _⟩
          cases h
          exact absurd hin hout

theorem slot?_eq_some {v : StructView} {i : Nat} {l : Location} :
    v.slot? i = some l ↔
      ∃ loc shape member, v = backed loc shape member ∧ i < shape.slots.toNat ∧
        l = loc.shift (shape.data + i * 8) := by
  cases v with
  | absent => simp [slot?]
  | backed loc shape member =>
      simp only [slot?]
      split
      · rename_i hin
        constructor
        · intro h
          cases h
          exact ⟨loc, shape, member, rfl, hin, rfl⟩
        · rintro ⟨_, _, _, h, _, rfl⟩
          cases h
          rfl
      · rename_i hout
        constructor
        · intro h
          cases h
        · rintro ⟨_, _, _, h, hin, _⟩
          cases h
          exact absurd hin hout

end SegmentedMessage.StructView
