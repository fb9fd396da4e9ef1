import SegmentedMessage.Message.Store

namespace SegmentedMessage

inductive StructView where
  | absent
  | backed (loc : Location) (shape : StructShape) (member : Bool)
  deriving DecidableEq, Repr, Inhabited

inductive ListView where
  | absent
  | backed (loc : Location) (length : Nat) (element : ElementKind) (shape : StructShape)
  deriving DecidableEq, Repr, Inhabited

inductive Pointer where
  | null
  | struct (view : StructView)
  | list (view : ListView)
  | capability (index : UInt32)
  deriving DecidableEq, Repr, Inhabited

namespace StructView

def loc? : StructView → Option Location
  | absent => none
  | backed loc _ _ => some loc

def shape : StructView → StructShape
  | absent => .empty
  | backed _ shape _ => shape

def isMember : StructView → Bool
  | absent => false
  | backed _ _ member => member

def isBacked (v : StructView) : Bool :=
  v.loc?.isSome

def isSized (v : StructView) : Bool :=
  !v.shape.isEmpty

end StructView

namespace ListView

def loc? : ListView → Option Location
  | absent => none
  | backed loc _ _ _ => some loc

def length : ListView → Nat
  | absent => 0
  | backed _ length _ _ => length

def element : ListView → ElementKind
  | absent => .void
  | backed _ _ element _ => element

def shape : ListView → StructShape
  | absent => .empty
  | backed _ _ _ shape => shape

def isBacked (v : ListView) : Bool :=
  v.loc?.isSome

def pitch (v : ListView) : Nat :=
  match v.element with
  | .composite => v.shape.bytes
  | e => e.bits / 8

def contentSize (v : ListView) : Nat :=
  match v.element with
  | .composite => v.length * v.shape.bytes
  | e => e.bytesFor v.length

end ListView

namespace Pointer

def isNull : Pointer → Bool
  | null => true
  | _ => false

def isBacked : Pointer → Bool
  | null => false
  | struct v => v.isBacked
  | list v => v.isBacked
  | capability _ => true

def struct? : Pointer → Option StructView
  | struct v => some v
  | _ => none

def list? : Pointer → Option ListView
  | list v => some v
  | _ => none

def toStruct (p : Pointer) : StructView :=
  p.struct?.getD .absent

def toList (p : Pointer) : ListView :=
  p.list?.getD .absent

def loc? : Pointer → Option Location
  | struct v => v.loc?
  | list v => v.loc?
  | _ => none

end Pointer

end SegmentedMessage
