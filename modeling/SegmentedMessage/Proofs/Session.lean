import Mathlib.Logic.Relation
import SegmentedMessage.Message.Basic
import SegmentedMessage.Pointer.Assign

/-!
Sessions. A session is a store together with the pointers that its calls have given so far; a call
can use these pointers and those that nothing backs. Calls follow each other in any order, and the
session goes on after a call that has failed.
-/

namespace SegmentedMessage

inductive Query where
  | pointerAt (slot : Location)
  | root (msg : Nat)
  | rootView (msg : Nat)
  | field (v : StructView) (i : Nat)
  | fieldOrNull (v : StructView) (i : Nat)
  | element (v : ListView) (i : Nat)
  | elementOrNull (v : ListView) (i : Nat)
  | member (v : ListView) (i : Nat)

inductive Reading where
  | field (v : StructView) (w : Width) (off : Nat)
  | fieldBit (v : StructView) (n : Nat)
  | element (v : ListView) (w : Width) (i : Nat)
  | elementBit (v : ListView) (i : Nat)

inductive Edit where
  | write (l : Location) (w v : Nat)
  | writeWord (l : Location) (w : PointerWord)
  | clear (l : Location) (n : Nat)
  | copyBytes (dst src : Location) (n : Nat)
  | pointTo (c : CopyScope) (budget : Nat) (slot : Location) (p : Pointer)
  | sealMessage (msg : Nat)
  | setField (v : StructView) (w : Width) (off val : Nat)
  | setFieldBit (v : StructView) (n : Nat) (val : Bool)
  | setElement (v : ListView) (w : Width) (i val : Nat)
  | setElementBit (v : ListView) (i : Nat) (val : Bool)
  | assignField (v : StructView) (i : Nat) (p : Pointer)
  | assignElement (v : ListView) (i : Nat) (p : Pointer)
  | assignRoot (msg : Nat) (p : Pointer)
  | replace (dst src : StructView)
  | fill (c : CopyScope) (budget : Nat) (dst src : StructView)

inductive Creation where
  | message (opts : List MessageOption)
  | opened (bufs : List ByteArray) (opts : List MessageOption)
  | bytes (r : SegmentRef) (n : Nat)
  | bytesHere (r : SegmentRef) (n : Nat)
  | struct (r : SegmentRef) (shape : StructShape)
  | root (r : SegmentRef) (shape : StructShape)
  | list (r : SegmentRef) (elem : ElementKind) (len : Nat)
  | composite (r : SegmentRef) (shape : StructShape) (len : Nat)

inductive Call where
  | query (q : Query)
  | reading (r : Reading)
  | edit (e : Edit)
  | creation (c : Creation)

def withBudget (budget : Nat) (act : CopyM Unit) : StoreM Unit := fun s =>
  match act ⟨s, budget⟩ with
  | .ok u st => .ok u st.store
  | .error e st => .error e st.store

def Query.answer (s : Store) : Query → Except Abort Pointer
  | pointerAt slot => s.pointerAt slot
  | root msg => s.root msg
  | rootView msg => .struct <$> s.rootView msg
  | field v i => v.pointerAt i s
  | fieldOrNull v i => v.pointerOrNull i s
  | element v i => v.pointerAt i s
  | elementOrNull v i => v.pointerOrNull i s
  | member v i => .ok (.struct (v.member i))

def Reading.answer (s : Store) : Reading → Except Abort Nat
  | field v w off => v.get w off s
  | fieldBit v n => Bool.toNat <$> v.getBit n s
  | element v w i => v.get w i s
  | elementBit v i => Bool.toNat <$> v.getBit i s

def Edit.run : Edit → StoreM Unit
  | write l w v => Store.write l w v
  | writeWord l w => Store.writeWord l w
  | clear l n => Store.clear l n
  | copyBytes dst src n => Store.copyBytes dst src n
  | pointTo c budget slot p => withBudget budget (SegmentedMessage.pointTo c slot p)
  | sealMessage msg => Store.sealMessage msg
  | setField v w off val => v.set w off val
  | setFieldBit v n val => v.setBit n val
  | setElement v w i val => v.set w i val
  | setElementBit v i val => v.setBit i val
  | assignField v i p => v.assignSlot i p
  | assignElement v i p => v.assignSlot i p
  | assignRoot msg p => Store.assignRoot msg p
  | replace dst src => dst.replaceBy src
  | fill c budget dst src => withBudget budget (SegmentedMessage.fill c dst src)

def Creation.run : Creation → StoreM Pointer
  | message opts => do
    let _ ← Store.newMessage opts
    return .null
  | opened bufs opts => do
    let _ ← Store.openMessage bufs opts
    return .null
  | bytes r n => do
    let _ ← Store.allocate r n
    return .null
  | bytesHere r n => do
    let _ ← Store.allocateHere r n
    return .null
  | struct r shape => .struct <$> StructView.allocate r shape
  | root r shape => .struct <$> StructView.allocateRoot r shape
  | list r elem len => .list <$> ListView.allocate r elem len
  | composite r shape len => .list <$> ListView.allocateComposite r shape len

def Call.run : Call → StoreM Pointer
  | query q => Store.query q.answer
  | reading r => do
    let _ ← Store.query r.answer
    return .null
  | edit e => do
    e.run
    return .null
  | creation c => c.run

def Call.refusal? : Call → Option Fault
  | edit (.setField v w off _) =>
    if (v.field? off w.bytes).isSome then none else some (v.outOfRange .data off)
  | edit (.setFieldBit v n _) =>
    if (v.field? (Layout.bitByte n) 1).isSome then none else some (v.outOfRange .bit n)
  | edit (.setElement v w i _) =>
    if (v.element? i w.bytes).isSome then none else some (v.outOfRange .element i)
  | edit (.setElementBit v i _) =>
    if (v.bit? i).isSome then none else some (v.outOfRange .bit i)
  | edit (.assignField v i _) =>
    if (v.slot? i).isSome then none else some (v.outOfRange .pointer i)
  | edit (.assignElement v i _) =>
    if (v.slot? i).isSome then none else some (v.outOfRange .pointer i)
  | creation (.list _ .composite _) => some .untaggedComposite
  | _ => none

structure Session where
  store : Store
  views : List Pointer

namespace Session

def empty : Session :=
  ⟨.empty, []⟩

def Holds (σ : Session) (p : Pointer) : Prop :=
  p.loc? = none ∨ p ∈ σ.views

def Queries (σ : Session) : Query → Prop
  | .field v _ => σ.Holds (.struct v)
  | .fieldOrNull v _ => σ.Holds (.struct v)
  | .element v _ => σ.Holds (.list v)
  | .elementOrNull v _ => σ.Holds (.list v)
  | .member v _ => σ.Holds (.list v)
  | _ => True

def Reads (σ : Session) : Reading → Prop
  | .field v _ _ => σ.Holds (.struct v)
  | .fieldBit v _ => σ.Holds (.struct v)
  | .element v _ _ => σ.Holds (.list v)
  | .elementBit v _ => σ.Holds (.list v)

def Edits (σ : Session) : Edit → Prop
  | .write l w _ => σ.store.covers l w = true
  | .writeWord l _ => σ.store.covers l 8 = true
  | .clear l n => σ.store.covers l n = true
  | .copyBytes dst src n => σ.store.covers dst n = true ∧ σ.store.covers src n = true
  | .pointTo _ _ slot p => σ.store.covers slot 8 = true ∧ σ.Holds p
  | .sealMessage _ => True
  | .setField v _ _ _ => σ.Holds (.struct v)
  | .setFieldBit v _ _ => σ.Holds (.struct v)
  | .setElement v _ _ _ => σ.Holds (.list v)
  | .setElementBit v _ _ => σ.Holds (.list v)
  | .assignField v _ p => σ.Holds (.struct v) ∧ σ.Holds p
  | .assignElement v _ p => σ.Holds (.list v) ∧ σ.Holds p
  | .assignRoot _ p => σ.Holds p
  | .replace dst src => σ.Holds (.struct dst) ∧ σ.Holds (.struct src)
  | .fill _ _ dst src => σ.Holds (.struct dst) ∧ σ.Holds (.struct src)

def Creates (σ : Session) : Creation → Prop
  | .bytes r _ => r.message < σ.store.messages.size
  | .bytesHere r _ => r.message < σ.store.messages.size
  | .struct r _ => r.message < σ.store.messages.size
  | .root r _ => r.message < σ.store.messages.size
  | .list r _ _ => r.message < σ.store.messages.size
  | .composite r _ _ => r.message < σ.store.messages.size
  | _ => True

/-- Messages exist, raw writes are in bounds, and views are ones that the session holds. -/
def Allows (σ : Session) : Call → Prop
  | .query q => σ.Queries q
  | .reading r => σ.Reads r
  | .edit e => σ.Edits e
  | .creation c => σ.Creates c

def after (σ : Session) (c : Call) : Session :=
  match c.run σ.store with
  | .ok p t => ⟨t, p :: σ.views⟩
  | .error _ t => ⟨t, σ.views⟩

def Step (rule : Session → Call → Prop) (σ τ : Session) : Prop :=
  ∃ c, rule σ c ∧ τ = σ.after c

def Reaches (rule : Session → Call → Prop) : Session → Session → Prop :=
  Relation.ReflTransGen (Step rule)

end Session

end SegmentedMessage
