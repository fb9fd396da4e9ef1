import SegmentedMessage.Message.Options
import SegmentedMessage.Message.Store

namespace SegmentedMessage

namespace Message

def ofArena (c : MessageSettings) (arena : Arena) : Message :=
  ⟨arena, c.depthLimit, c.copyBudget, false⟩

def create (opts : List MessageOption) : Except Failure Message :=
  let c := MessageSettings.ofOptions opts
  match Arena.allocate 0 8 (Arena.empty c.limits) with
  | .ok _ arena => .ok (ofArena c arena)
  | .error e _ => .error (.arena e)

def ofBuffers (bufs : List ByteArray) (opts : List MessageOption) : Except Failure Message :=
  let c := MessageSettings.ofOptions opts
  if bufs.isEmpty then .error (.missingSegment 0)
  else match Arena.ofBuffers bufs c.limits with
    | .ok arena => .ok (ofArena c arena)
    | .error e => .error (.arena e)

def buffers (m : Message) : List ByteArray :=
  m.arena.buffers

theorem buffers_ofBuffers {bufs : List ByteArray} {opts : List MessageOption} {m : Message}
    (h : ofBuffers bufs opts = .ok m) : m.buffers = bufs := by
  simp only [ofBuffers] at h
  split at h
  · cases h
  · split at h
    · rename_i arena ha
      cases h
      exact Arena.buffers_ofBuffers ha
    · cases h

end Message

namespace Store

def addOrFail (m : Except Failure Message) : StoreM Nat := fun s =>
  match m with
  | .ok m => add m s
  | .error e => .error (.failure e) s

def newMessage (opts : List MessageOption) : StoreM Nat :=
  addOrFail (Message.create opts)

def openMessage (bufs : List ByteArray) (opts : List MessageOption) : StoreM Nat :=
  addOrFail (Message.ofBuffers bufs opts)

def sealMessage (id : Nat) : StoreM Unit := fun s =>
  .ok () (s.setMessage id { s.message id with isSealed := true })

end Store

end SegmentedMessage
