import SegmentedMessage.Pointer.Read

/-!
Writing a word that points to content of the same message. Content in the segment of the slot is
pointed to directly. Other content is reached over a landing pad: one word beside the content, or,
where its segment is full, two words elsewhere.
-/

namespace SegmentedMessage

def ListView.word (v : ListView) : PointerWord :=
  match v.element with
  | .composite => .ofList 0 .composite (v.contentSize / 8)
  | e => .ofList 0 e v.length

/-- A pointer to a composite list points to its tag. -/
def ListView.start? (v : ListView) : Option Location :=
  match v with
  | .absent => none
  | .backed loc _ .composite _ => some { loc with address := loc.address - 8 }
  | .backed loc _ _ _ => some loc

/-- The tag of a composite list has an address, and the size of its members fits 32 bits. -/
def ListView.isMeasurable (v : ListView) : Bool :=
  match v with
  | .backed loc _ .composite _ => decide (8 ≤ loc.address ∧ v.contentSize < 0x100000000)
  | _ => true

namespace Store

def linkNear (slot target : Location) (w : PointerWord) : StoreM Unit :=
  writeWord slot (w.setOffset (offsetTo slot.address target.address))

def linkOver (slot pad : Location) (double : Bool) : StoreM Unit :=
  writeWord slot (.ofFar double (Layout.wordIndex pad.address) pad.segment.index)

def linkSingle (slot pad target : Location) (w : PointerWord) : StoreM Unit := do
  linkNear pad target w
  linkOver slot pad false

def linkDouble (slot target : Location) (w : PointerWord) : StoreM Unit := do
  let pad ← allocate slot.segment 16
  linkOver pad target false
  writeWord (pad.shift 8) (w.setOffset 0)
  linkOver slot pad true

def linkFar (slot target : Location) (w : PointerWord) : StoreM Unit := do
  let pad ← allocateHere target.segment 8
  match pad with
  | some pad => linkSingle slot pad target w
  | none => linkDouble slot target w

def link (slot target : Location) (w : PointerWord) : StoreM Unit :=
  if target.segment = slot.segment then linkNear slot target w else linkFar slot target w

def linkList (slot : Location) (v : ListView) : StoreM Unit :=
  match v.start? with
  | some target =>
    if v.isMeasurable then link slot target v.word else throw (.fault .overflow)
  | none => writeWord slot .null

end Store

end SegmentedMessage
