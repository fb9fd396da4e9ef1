import SegmentedMessage.Copy.Deep

namespace SegmentedMessage

/-- Content that does not decode counts as absent. -/
def lenient (r : Except Abort Pointer) : Except Abort Pointer :=
  match r with
  | .error (.failure _) => .ok .null
  | r => r

def assign (slot : Location) (p : Pointer) : StoreM Unit :=
  withinLimits slot.segment.message (pointTo · slot p)

namespace StructView

def pointerOrNull (v : StructView) (i : Nat) (s : Store) : Except Abort Pointer :=
  lenient (v.pointerAt i s)

def assignSlot (v : StructView) (i : Nat) (p : Pointer) : StoreM Unit :=
  match v.slot? i with
  | some slot => assign slot p
  | none => throw (.fault (v.outOfRange .pointer i))

def replaceBy (dst src : StructView) : StoreM Unit :=
  match dst.loc? with
  | some loc => withinLimits loc.segment.message (fill · dst src)
  | none => pure ()

end StructView

namespace ListView

def pointerOrNull (v : ListView) (i : Nat) (s : Store) : Except Abort Pointer :=
  lenient (v.pointerAt i s)

def assignSlot (v : ListView) (i : Nat) (p : Pointer) : StoreM Unit :=
  match v.slot? i with
  | some slot => assign slot p
  | none => throw (.fault (v.outOfRange .pointer i))

end ListView

namespace Store

def rootSlot (msg : Nat) : Location :=
  ⟨⟨msg, 0⟩, 0⟩

def root (s : Store) (msg : Nat) : Except Abort Pointer :=
  s.pointerAt (rootSlot msg)

def rootView (s : Store) (msg : Nat) : Except Abort StructView :=
  Pointer.toStruct <$> lenient (s.root msg)

def rootInside (s : Store) (msg : Nat) : Except Abort Unit := do
  let _ ← s.checkRange (rootSlot msg).segment 0 8

def assignRoot (msg : Nat) (p : Pointer) : StoreM Unit :=
  whenOpen msg do
    query (·.rootInside msg)
    assign (rootSlot msg) p

end Store

def StructView.allocateRoot (r : SegmentRef) (shape : StructShape) : StoreM StructView := do
  let v ← StructView.allocate r shape
  Store.assignRoot r.message (.struct v)
  return v

end SegmentedMessage
