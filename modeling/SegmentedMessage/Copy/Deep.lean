import SegmentedMessage.Copy.Budget
import SegmentedMessage.Copy.Link
import SegmentedMessage.View.Alloc
import SegmentedMessage.View.Elements
import SegmentedMessage.View.Fields

/-!
Copies between sizes and between messages. The common part of two structs is copied and the rest of
the destination is zeroed. Content of the same message is shared; content of another message, and a
member of a list, is copied first.

Each layer of the copy takes what writes the pointers one level deeper as an argument; `follow`
ties the layers together by recursion on the levels left.
-/

namespace SegmentedMessage

namespace Copy

open Store

abbrev Writer := Location → Pointer → CopyM Unit

def cloneSlot (deeper : Writer) (slot : Location) (p : Pointer) : CopyM Unit :=
  if p.isBacked then deeper slot p else onStore (writeWord slot .null)

def cloneSlots (deeper : Writer) (slots : Location) (src : StructView) : Nat → Nat → CopyM Unit
  | _, 0 => pure ()
  | j, n + 1 => do
    let p ← onStore (query (src.pointerAt j))
    cloneSlot deeper (slots.shift (j * 8)) p
    cloneSlots deeper slots src (j + 1) n

def pastePrefix (dst : Location) (src : Option Location) (n : Nat) : StoreM Unit :=
  match src with
  | some loc => copyBytes dst loc n
  | none => pure ()

def fillData (dst : Location) (space : Nat) (src : StructView) : StoreM Unit := do
  let n := min space src.shape.data
  pastePrefix dst src.loc? n
  clear (dst.shift n) (space - n)

def fillSlots (deeper : Writer) (slots : Location) (count : Nat) (src : StructView) :
    CopyM Unit := do
  let n := min count src.shape.slots.toNat
  cloneSlots deeper slots src 0 n
  onStore (clear (slots.shift (n * 8)) ((count - n) * 8))

def fillWith (deeper : Writer) (dst src : StructView) : CopyM Unit :=
  match dst with
  | .absent => pure ()
  | .backed loc shape _ => do
    spend (src.shape.bytes / 8)
    onStore (fillData loc shape.data src)
    fillSlots deeper (loc.shift shape.data) shape.slots.toNat src

def fillMembers (deeper : Writer) (dst src : ListView) : Nat → Nat → CopyM Unit
  | _, 0 => pure ()
  | i, n + 1 => do
    fillWith deeper (dst.member i) (src.member i)
    fillMembers deeper dst src (i + 1) n

def cloneElement (deeper : Writer) (slot : Option Location) (p : Pointer) : CopyM Unit :=
  match slot with
  | some slot => if p.isBacked then deeper slot p else pure ()
  | none => pure ()

def cloneElements (deeper : Writer) (dst src : ListView) : Nat → Nat → CopyM Unit
  | _, 0 => pure ()
  | i, n + 1 => do
    let p ← onStore (query (src.pointerAt i))
    cloneElement deeper (dst.slot? i) p
    cloneElements deeper dst src (i + 1) n

def fillContent (dst src : ListView) : StoreM Unit :=
  match dst.loc? with
  | some loc => pastePrefix loc src.loc? dst.contentSize
  | none => pure ()

/-- The members of a composite list are charged one by one, so only its tag is charged here. -/
def cloneListWith (deeper : Writer) (r : SegmentRef) (src : ListView) : CopyM ListView :=
  match src.element with
  | .composite => do
    spend 1
    let dst ← onStore (ListView.allocateComposite r src.shape src.length)
    fillMembers deeper dst src 0 src.length
    return dst
  | .pointer => do
    spend ((src.contentSize + 7) / 8)
    let dst ← onStore (ListView.allocate r .pointer src.length)
    cloneElements deeper dst src 0 src.length
    return dst
  | e => do
    spend ((src.contentSize + 7) / 8)
    let dst ← onStore (ListView.allocate r e src.length)
    onStore (fillContent dst src)
    return dst

def cloneStruct (deeper : Writer) (slot : Location) (shape : StructShape) (src : StructView) :
    CopyM Unit := do
  let target ← onStore (Store.allocate slot.segment shape.bytes)
  fillWith deeper (.backed target shape false) src
  onStore (link slot target (.ofStruct 0 shape))

def cloneList (deeper : Writer) (slot : Location) (src : ListView) : CopyM Unit := do
  let dst ← cloneListWith deeper slot.segment src
  onStore (linkList slot dst)

def writeStructWith (deeper : Writer) (slot loc : Location) (shape : StructShape) (member : Bool) :
    CopyM Unit :=
  if shape.isEmpty then onStore (writeWord slot .emptyStruct)
  else if loc.segment.message = slot.segment.message ∧ member = false then
    onStore (link slot loc (.ofStruct 0 shape))
  else cloneStruct deeper slot shape (.backed loc shape member)

def writeListWith (deeper : Writer) (slot loc : Location) (v : ListView) : CopyM Unit :=
  if loc.segment.message = slot.segment.message then onStore (linkList slot v)
  else cloneList deeper slot v

def writeWith (deeper : Writer) (slot : Location) (p : Pointer) : CopyM Unit :=
  match p with
  | .null => onStore (writeWord slot .null)
  | .capability i => onStore (writeWord slot (.ofCapability i))
  | .struct .absent => onStore (writeWord slot .null)
  | .struct (.backed loc shape member) => writeStructWith deeper slot loc shape member
  | .list .absent => onStore (writeWord slot .null)
  | .list (.backed loc len e shape) => writeListWith deeper slot loc (.backed loc len e shape)

def follow (limit : Nat) : Nat → Location → Pointer → CopyM Unit
  | 0, _, _ => throw (.failure (.tooDeep limit))
  | levels + 1, slot, p => writeWith (follow limit levels) slot p

end Copy

open Copy

/-- Makes the word at a slot point to `p`, copying what has to be copied. -/
def pointTo (c : CopyScope) (slot : Location) (p : Pointer) : CopyM Unit :=
  writeWith (follow c.limit c.levels) slot p

def fill (c : CopyScope) (dst src : StructView) : CopyM Unit :=
  fillWith (follow c.limit c.levels) dst src

theorem follow_levels {c d : CopyScope} (h : c.deeper = .ok d) (slot : Location) (p : Pointer) :
    follow c.limit c.levels slot p = pointTo d slot p := by
  obtain ⟨hlevels, hlimit⟩ := CopyScope.levels_deeper h
  rw [hlevels, pointTo, hlimit, follow]

theorem follow_deepest {c : CopyScope} {f : Failure} (h : c.deeper = .error f) (slot : Location)
    (p : Pointer) : follow c.limit c.levels slot p = throw (.failure f) := by
  simp only [CopyScope.deeper] at h
  split at h
  · rename_i hle
    cases h
    rw [CopyScope.levels, Nat.sub_eq_zero_of_le hle, follow]
  · cases h

end SegmentedMessage
