import SegmentedMessage.Message.Segment

namespace SegmentedMessage

def Width.limit (w : Width) : Nat :=
  LittleEndian.span w.bytes

def Width.toSigned (w : Width) (v : Nat) : Int :=
  Int.bmod v w.limit

def Width.ofSigned (w : Width) (v : Int) : Nat :=
  (v % w.limit).toNat

namespace Store

def readAt? (s : Store) (loc : Option Location) (w : Width) : Except Abort Nat :=
  match loc with
  | some l => s.read l w.bytes
  | none => .ok 0

def writeAt? (loc : Option Location) (fault : Fault) (w : Width) (v : Nat) : StoreM Unit :=
  match loc with
  | some l => write l w.bytes v
  | none => throw (.fault fault)

def readBitAt? (s : Store) (loc : Option Location) (n : Nat) : Except Abort Bool := do
  let b ← s.readAt? loc .one
  return Layout.testBit (UInt8.ofNat b) n

def writeBitAt? (loc : Option Location) (fault : Fault) (n : Nat) (v : Bool) : StoreM Unit :=
  match loc with
  | some l => do
    let b ← query (·.read l 1)
    write l 1 (Layout.assignBit (UInt8.ofNat b) n v).toNat
  | none => throw (.fault fault)

end Store

theorem Width.toSigned_eq (w : Width) (v : Nat) :
    w.toSigned v = (BitVec.ofNat (8 * w.bytes) v).toInt := by
  rw [BitVec.toInt_ofNat']
  cases w <;> rfl

theorem Width.ofSigned_eq (w : Width) (v : Int) :
    w.ofSigned v = (BitVec.ofInt (8 * w.bytes) v).toNat := by
  rw [BitVec.toNat_ofInt]
  cases w <;> rfl

end SegmentedMessage
