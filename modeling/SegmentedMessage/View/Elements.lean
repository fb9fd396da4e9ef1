import SegmentedMessage.Pointer.Read
import SegmentedMessage.View.Number

namespace SegmentedMessage.ListView

def dataBytes (v : ListView) : Nat :=
  match v.element with
  | .composite => v.shape.data
  | .pointer => 0
  | e => e.bits / 8

def element? (v : ListView) (i n : Nat) : Option Location :=
  match v.loc? with
  | some loc => if i < v.length ∧ n ≤ v.dataBytes then
      some { loc with address := Layout.elementAddress loc.address i v.pitch } else none
  | none => none

def bit? (v : ListView) (i : Nat) : Option Location :=
  match v with
  | backed loc len .bit _ => if i < len then some (loc.shift (Layout.bitByte i)) else none
  | _ => none

def slot? (v : ListView) (i : Nat) : Option Location :=
  match v with
  | backed loc len .pointer _ =>
    if i < len then some { loc with address := Layout.elementAddress loc.address i 8 } else none
  | _ => none

def outOfRange (v : ListView) (part : ListPart) (i : Nat) : Fault :=
  .listRange part i v.length v.element

def get (v : ListView) (w : Width) (i : Nat) (s : Store) : Except Abort Nat :=
  s.readAt? (v.element? i w.bytes) w

def set (v : ListView) (w : Width) (i val : Nat) : StoreM Unit :=
  Store.writeAt? (v.element? i w.bytes) (v.outOfRange .element i) w val

def getBit (v : ListView) (i : Nat) (s : Store) : Except Abort Bool :=
  s.readBitAt? (v.bit? i) i

def setBit (v : ListView) (i : Nat) (val : Bool) : StoreM Unit :=
  Store.writeBitAt? (v.bit? i) (v.outOfRange .bit i) i val

def pointerAt (v : ListView) (i : Nat) (s : Store) : Except Abort Pointer :=
  match v.slot? i with
  | some l => s.pointerAt l
  | none => .ok .null

def member (v : ListView) (i : Nat) : StructView :=
  match v with
  | backed loc len .composite shape =>
    if i < len then
      .backed { loc with address := Layout.elementAddress loc.address i shape.bytes } shape true
    else .absent
  | _ => .absent

end SegmentedMessage.ListView
