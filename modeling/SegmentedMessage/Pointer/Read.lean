import SegmentedMessage.Message.Segment
import SegmentedMessage.View.Basic

/-!
Following a pointer word to what it points to. The contents of a message are not trusted: every
range that a word, a landing pad or a tag tells is checked against the used bytes first.
-/

namespace SegmentedMessage

def longestList : Nat :=
  0x1fffffff

def targetFrom (address : Nat) (w : PointerWord) : Int :=
  address + 8 + w.offset * 8

def offsetTo (slot target : Nat) : Int :=
  Int.tdiv (target - slot - 8) 8

structure Target where
  segment : SegmentRef
  word : PointerWord
  address : Int
  deriving DecidableEq, Repr

namespace Store

def checkRange (s : Store) (r : SegmentRef) (address : Int) (len : Nat) : Except Abort Location :=
  let l : Location := ⟨r, address.toNat⟩
  if 0 ≤ address ∧ address < 0x100000000 ∧ s.covers l len then .ok l
  else .error (.failure (.outside r.index address len))

def padFailure (w : PointerWord) : Abort :=
  .failure (.brokenPad w.padSegment w.padWord)

def locateSingle (s : Store) (w : PointerWord) (pad : Location) : Except Abort Target :=
  if s.covers pad 8 then do
    let land ← s.readWord pad
    if land.kind = .far then .error (padFailure w)
    else .ok ⟨pad.segment, land, targetFrom pad.address land⟩
  else .error (padFailure w)

def locateDouble (s : Store) (w : PointerWord) (pad : Location) : Except Abort Target :=
  if s.covers pad 16 then do
    let land ← s.readWord pad
    let tag ← s.readWord (pad.shift 8)
    if land.kind ≠ .far ∨ land.isDouble ∨ tag.kind = .far then .error (padFailure w)
    else do
      let content ← s.segment pad.segment.message land.padSegment
      return ⟨content, tag, Layout.wordAddress land.padWord⟩
  else .error (padFailure w)

def locateFar (s : Store) (msg : Nat) (w : PointerWord) : Except Abort Target := do
  let padSeg ← s.segment msg w.padSegment
  let pad : Location := ⟨padSeg, Layout.wordAddress w.padWord⟩
  if w.isDouble then s.locateDouble w pad else s.locateSingle w pad

def locate (s : Store) (l : Location) (w : PointerWord) : Except Abort Target :=
  if w.kind = .far then s.locateFar l.segment.message w
  else .ok ⟨l.segment, w, targetFrom l.address w⟩

def readComposite (s : Store) (t : Target) : Except Abort ListView := do
  let words := t.word.count
  let loc ← s.checkRange t.segment t.address ((words + 1) * 8)
  let tag ← s.readWord loc
  let len := tag.tagLength
  let shape := tag.shape
  if tag.kind ≠ .struct ∨ longestList < len ∨ words * 8 < len * shape.bytes then
    .error (.failure (.brokenTag tag))
  else .ok (.backed (loc.shift 8) len .composite shape)

def readPlain (s : Store) (t : Target) (e : ElementKind) : Except Abort ListView := do
  let len := t.word.count
  let loc ← s.checkRange t.segment t.address (e.bytesFor len)
  return .backed loc len e .empty

def readList (s : Store) (t : Target) : Except Abort ListView :=
  match t.word.element with
  | .composite => s.readComposite t
  | e => s.readPlain t e

def readStruct (s : Store) (t : Target) : Except Abort StructView := do
  let shape := t.word.shape
  let loc ← s.checkRange t.segment t.address shape.bytes
  return .backed loc shape false

def readTarget (s : Store) (t : Target) : Except Abort Pointer :=
  match t.word.kind with
  | .struct => .struct <$> s.readStruct t
  | .list => .list <$> s.readList t
  | _ =>
    if t.word.isCapability then .ok (.capability t.word.capability)
    else .error (.failure (.unknownWord t.word))

def pointerAt (s : Store) (l : Location) : Except Abort Pointer :=
  if s.covers l 8 then do
    let w ← s.readWord l
    if w.isNull then .ok .null
    else do
      let t ← s.locate l w
      s.readTarget t
  else .error (.failure (.outside l.segment.index l.address 8))

end Store

end SegmentedMessage
