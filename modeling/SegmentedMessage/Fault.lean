import SegmentedMessage.Layout.ElementKind
import SegmentedMessage.Layout.StructShape

namespace SegmentedMessage

inductive ListPart where
  | element
  | bit
  | pointer
  deriving DecidableEq, Repr

inductive StructPart where
  | data
  | bit
  | pointer
  deriving DecidableEq, Repr

inductive Fault where
  | rawAccess
  | overflow
  | untaggedComposite
  | listRange (part : ListPart) (i len : Nat) (elem : ElementKind)
  | structRange (part : StructPart) (pos : Nat) (shape : StructShape)
  deriving DecidableEq, Repr

def ListPart.name : ListPart → String
  | element => "element"
  | bit => "bit"
  | pointer => "ptr"

def StructPart.name : StructPart → String
  | data => "data offset"
  | bit => "bit"
  | pointer => "ptr slot"

def Fault.message? : Fault → Option String
  | rawAccess => none
  | overflow => none
  | untaggedComposite => some "zmsg list alloc: composite lists need alloc_composite"
  | listRange part i len elem =>
      some s!"zmsg list {part.name} {i} out of range (len {len}, {elem.name})"
  | structRange part pos shape =>
      let extent := s!"(data {shape.data} bytes, {shape.slots.toNat} ptrs)"
      some s!"zmsg struct {part.name} {pos} out of range {extent}"

end SegmentedMessage
