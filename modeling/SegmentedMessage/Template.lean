import SegmentedMessage.Message.Basic
import SegmentedMessage.Pointer.Assign

/-!
Defaults for absent pointers: a small sealed message of one segment whose root struct stands in.
Bytes that are no message leave the reason with the template, and asking for its struct fails.
-/

namespace SegmentedMessage

inductive Template where
  | empty
  | opened (msg : Nat)
  | malformed (cause : Failure)
  deriving DecidableEq, Repr

namespace Template

def ofBytes (bytes : ByteArray) : StoreM Template := fun s =>
  if bytes.isEmpty then .ok .empty s
  else match Message.ofBuffers [bytes] [] with
    | .ok m =>
      match Store.add { m with isSealed := true } s with
      | .ok msg s => .ok (.opened msg) s
      | .error e s => .error e s
    | .error e => .ok (.malformed e) s

def isEmpty : Template → Bool
  | empty => true
  | _ => false

def root (t : Template) (s : Store) : Except Abort StructView :=
  match t with
  | empty => .ok .absent
  | malformed cause => .error (.failure (.brokenTemplate cause))
  | opened msg =>
    match s.root msg with
    | .ok p => .ok p.toStruct
    | .error (.failure cause) => .error (.failure (.brokenTemplate cause))
    | .error (.fault f) => .error (.fault f)

end Template

def StructView.orDefault (p : Pointer) (t : Template) (s : Store) : Except Abort StructView :=
  if p.toStruct.isBacked then .ok p.toStruct else t.root s

end SegmentedMessage
