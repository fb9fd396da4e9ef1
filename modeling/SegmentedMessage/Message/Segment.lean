import SegmentedMessage.Message.Store

namespace SegmentedMessage

namespace Store

def arena (s : Store) (r : SegmentRef) : Arena :=
  (s.message r.message).arena

def length (s : Store) (r : SegmentRef) : Nat :=
  ((s.arena r).length? r.index).getD 0

def covers (s : Store) (l : Location) (len : Nat) : Bool :=
  (s.arena l.segment).covers l.segment.index l.address len

def segment (s : Store) (msg id : Nat) : Except Abort SegmentRef :=
  if id < (s.message msg).arena.count then .ok ⟨msg, id⟩
  else .error (.failure (.missingSegment id))

def orFault {α : Type} : Except Fault α → Except Abort α :=
  Except.mapError .fault

def read (s : Store) (l : Location) (w : Nat) : Except Abort Nat :=
  orFault ((s.arena l.segment).read l.segment.index l.address w)

def readWord (s : Store) (l : Location) : Except Abort PointerWord :=
  orFault ((s.arena l.segment).readWord l.segment.index l.address)

def slice (s : Store) (l : Location) (n : Nat) : Except Abort ByteArray :=
  orFault ((s.arena l.segment).slice l.segment.index l.address n)

def write (l : Location) (w v : Nat) : StoreM Unit :=
  onArena l.segment.message .fault (Arena.write l.segment.index l.address w v)

def writeWord (l : Location) (w : PointerWord) : StoreM Unit :=
  onArena l.segment.message .fault (Arena.writeWord l.segment.index l.address w)

/-- The address of an empty range is computed too, and has to fit 32 bits. -/
def clear (l : Location) (n : Nat) : StoreM Unit :=
  if l.address < 0x100000000 then
    onArena l.segment.message .fault (Arena.clear l.segment.index l.address n)
  else throw (.fault .overflow)

def paste (l : Location) (src : ByteArray) : StoreM Unit :=
  onArena l.segment.message .fault (Arena.paste l.segment.index l.address src)

def copyBytes (dst src : Location) (n : Nat) : StoreM Unit := fun s =>
  let other := if src.segment.message = dst.segment.message then none
    else some (s.arena src.segment)
  onArena dst.segment.message .fault (Arena.copy dst.segment.index dst.address other
    src.segment.index src.address n) s

def whenOpen {α : Type} (id : Nat) (act : StoreM α) : StoreM α := fun s =>
  if (s.message id).isSealed then .error (.failure .isSealed) s else act s

def allocate (r : SegmentRef) (n : Nat) : StoreM Location :=
  whenOpen r.message do
    let (id, addr) ← onArena r.message .ofArena (Arena.allocate r.index n)
    return ⟨⟨r.message, id⟩, addr⟩

def allocateHere (r : SegmentRef) (n : Nat) : StoreM (Option Location) :=
  whenOpen r.message do
    let addr ← onArena r.message .ofArena (Arena.allocateIn r.index n)
    return addr.map (⟨r, ·⟩)

end Store

end SegmentedMessage
