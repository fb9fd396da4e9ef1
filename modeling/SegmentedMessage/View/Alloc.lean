import SegmentedMessage.Pointer.Read

namespace SegmentedMessage

def StructView.allocate (r : SegmentRef) (shape : StructShape) : StoreM StructView :=
  if shape.isEncodable then do
    let loc ← Store.allocate r shape.roundUp.bytes
    return .backed loc shape.roundUp false
  else throw (.failure (.oversizedShape shape))

namespace ListView

def allocate (r : SegmentRef) (e : ElementKind) (len : Nat) : StoreM ListView :=
  if e = .composite then throw (.fault .untaggedComposite)
  else if longestList < len ∨ 0x100000000 ≤ e.bytesFor len then
    throw (.failure (.oversizedList len))
  else do
    let loc ← Store.allocate r (e.bytesFor len)
    return .backed loc len e .empty

def allocateTagged (r : SegmentRef) (shape : StructShape) (len : Nat) : StoreM ListView := do
  let tag ← Store.allocate r ((len * (shape.bytes / 8) + 1) * 8)
  Store.writeWord tag (.ofTag len shape)
  return .backed (tag.shift 8) len .composite shape

def compositeFits (shape : StructShape) (len : Nat) : Bool :=
  let words := len * (shape.bytes / 8)
  decide (len ≤ longestList ∧ words ≤ longestList ∧ (words + 1) * 8 < 0x100000000)

def allocateComposite (r : SegmentRef) (shape : StructShape) (len : Nat) : StoreM ListView :=
  if !shape.isEncodable then throw (.failure (.oversizedShape shape))
  else if !compositeFits shape.roundUp len then throw (.failure (.oversizedList len))
  else allocateTagged r shape.roundUp len

end ListView

end SegmentedMessage
