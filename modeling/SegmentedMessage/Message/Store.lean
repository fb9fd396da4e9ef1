import SegmentedMessage.Arena.Access
import SegmentedMessage.Arena.Alloc
import SegmentedMessage.Failure

/-!
Messages side by side. Views of a message name it by its place in the store, so that one operation
can read from one message and write to another; a place is never given to a second message.
-/

namespace SegmentedMessage

structure Message where
  arena : Arena
  depthLimit : Nat
  copyBudget : Nat
  isSealed : Bool
  deriving Inhabited

structure SegmentRef where
  message : Nat
  index : Nat
  deriving DecidableEq, Repr

structure Location where
  segment : SegmentRef
  address : Nat
  deriving DecidableEq, Repr

def Location.shift (l : Location) (n : Nat) : Location :=
  { l with address := l.address + n }

@[simp] theorem Location.shift_segment (l : Location) (n : Nat) :
    (l.shift n).segment = l.segment := rfl

@[simp] theorem Location.shift_address (l : Location) (n : Nat) :
    (l.shift n).address = l.address + n := rfl

structure Store where
  messages : Array Message
  deriving Inhabited

abbrev StoreM := EStateM Abort Store

namespace Store

variable {ε α : Type}

def empty : Store :=
  ⟨#[]⟩

def message (s : Store) (id : Nat) : Message :=
  s.messages[id]?.getD default

def setMessage (s : Store) (id : Nat) (m : Message) : Store :=
  { s with messages := s.messages.setIfInBounds id m }

def add (m : Message) : StoreM Nat := fun s =>
  let id := s.messages.size
  .ok id { s with messages := s.messages.push m }

theorem message_setMessage_self {s : Store} {id : Nat} (m : Message)
    (h : id < s.messages.size) : (s.setMessage id m).message id = m := by
  simp [message, setMessage, h]

theorem message_setMessage_ne {s : Store} {id k : Nat} (m : Message) (h : id ≠ k) :
    (s.setMessage id m).message k = s.message k := by
  simp [message, setMessage, h]

@[simp] theorem size_setMessage (s : Store) (id : Nat) (m : Message) :
    (s.setMessage id m).messages.size = s.messages.size := by
  simp [setMessage]

theorem setMessage_setMessage (s : Store) (id : Nat) (m n : Message) :
    (s.setMessage id m).setMessage id n = s.setMessage id n := by
  simp [setMessage]

/-- The message leaves the store while its arena changes, so that the change is made in place. -/
@[inline] def onArena (id : Nat) (abort : ε → Abort) (act : EStateM ε Arena α) : StoreM α :=
  fun s =>
    match s.message id, s.setMessage id default with
    | ⟨arena, depth, limit, isSealed⟩, s =>
      match act arena with
      | .ok a arena => .ok a (s.setMessage id ⟨arena, depth, limit, isSealed⟩)
      | .error e arena => .error (abort e) (s.setMessage id ⟨arena, depth, limit, isSealed⟩)

theorem onArena_run (id : Nat) (abort : ε → Abort) (act : EStateM ε Arena α) (s : Store) :
    onArena id abort act s =
      match act (s.message id).arena with
      | .ok a arena => .ok a (s.setMessage id { s.message id with arena })
      | .error e arena => .error (abort e) (s.setMessage id { s.message id with arena }) := by
  simp only [onArena, setMessage_setMessage]

def query (f : Store → Except Abort α) : StoreM α := fun s =>
  match f s with
  | .ok a => .ok a s
  | .error e => .error e s

end Store

end SegmentedMessage
