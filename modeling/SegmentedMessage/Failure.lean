import SegmentedMessage.Arena.Basic
import SegmentedMessage.Fault
import SegmentedMessage.Layout.PointerWord

namespace SegmentedMessage

inductive Failure where
  | arena (cause : ArenaFailure)
  | oversizedShape (shape : StructShape)
  | isSealed
  | brokenTemplate (cause : Failure)
  | tooDeep (limit : Nat)
  | overBudget
  | outside (seg : Nat) (addr : Int) (len : Nat)
  | missingSegment (id : Nat)
  | brokenPad (seg word : Nat)
  | unknownWord (word : PointerWord)
  | brokenTag (word : PointerWord)
  | oversizedList (len : Nat)
  deriving DecidableEq, Repr

def hexText (digits n : Nat) : String :=
  let text := String.ofList (Nat.toDigits 16 n)
  "0x" ++ "".pushn '0' (digits - text.length) ++ text

def PointerWord.text (w : PointerWord) : String :=
  hexText 16 w.toNat

def Failure.message : Failure → String
  | arena cause => s!"alloc: {cause.message}"
  | oversizedShape shape =>
      s!"invalid object size: data {shape.data} bytes, {shape.slots.toNat} ptrs"
  | isSealed => "message sealed"
  | brokenTemplate cause => s!"malformed default: {cause.message}"
  | tooDeep limit => s!"copy nesting too deep: limit {limit}"
  | overBudget => "copy exceeds traverse limit"
  | outside seg addr len =>
      s!"pointer target out of bounds: seg {seg}, addr {addr}, len {len}"
  | missingSegment id => s!"no such segment: {id}"
  | brokenPad seg word => s!"bad landing pad at seg {seg}, word {word}"
  | unknownWord word => s!"unknown pointer word: {word.text}"
  | brokenTag word => s!"composite list tag is not a struct: {word.text}"
  | oversizedList len => s!"list too long: {len}"

inductive Abort where
  | failure (f : Failure)
  | fault (f : Fault)
  deriving DecidableEq, Repr

def Abort.ofArena (e : ArenaFailure) : Abort :=
  .failure (.arena e)

end SegmentedMessage
