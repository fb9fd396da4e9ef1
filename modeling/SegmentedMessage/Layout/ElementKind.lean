namespace SegmentedMessage

inductive ElementKind where
  | void
  | bit
  | bits8
  | bits16
  | bits32
  | bits64
  | pointer
  | composite
  deriving DecidableEq, Repr, Inhabited

namespace ElementKind

def code : ElementKind → Nat
  | void => 0
  | bit => 1
  | bits8 => 2
  | bits16 => 3
  | bits32 => 4
  | bits64 => 5
  | pointer => 6
  | composite => 7

def ofCode (c : Nat) : ElementKind :=
  match c % 8 with
  | 0 => void
  | 1 => bit
  | 2 => bits8
  | 3 => bits16
  | 4 => bits32
  | 5 => bits64
  | 6 => pointer
  | _ => composite

theorem code_lt (e : ElementKind) : e.code < 8 := by
  cases e <;> decide

theorem ofCode_eq {c : Nat} {e : ElementKind} (h : c % 8 = e.code) : ofCode c = e := by
  simp only [ofCode, h]
  cases e <;> rfl

theorem code_ofCode (c : Nat) : (ofCode c).code = c % 8 := by
  have h : c % 8 < 8 := Nat.mod_lt _ (by decide)
  simp only [ofCode]
  generalize c % 8 = r at h ⊢
  match r, h with
  | 0, _ | 1, _ | 2, _ | 3, _ | 4, _ | 5, _ | 6, _ | 7, _ => rfl
  | n + 8, h => omega

def bits : ElementKind → Nat
  | void => 0
  | bit => 1
  | bits8 => 8
  | bits16 => 16
  | bits32 => 32
  | bits64 => 64
  | pointer => 64
  | composite => 0

def bytesFor (e : ElementKind) (n : Nat) : Nat :=
  (e.bits * n + 63) / 64 * 8

theorem bytesFor_mod (e : ElementKind) (n : Nat) : e.bytesFor n % 8 = 0 := by
  simp [bytesFor]

theorem bits_le_bytesFor (e : ElementKind) (n : Nat) : e.bits * n ≤ e.bytesFor n * 8 := by
  simp only [bytesFor]; omega

def name : ElementKind → String
  | void => "Void"
  | bit => "Bit"
  | bits8 => "Byte"
  | bits16 => "TwoBytes"
  | bits32 => "FourBytes"
  | bits64 => "EightBytes"
  | pointer => "Ptr"
  | composite => "Composite"

end ElementKind

inductive Width where
  | one
  | two
  | four
  | eight
  deriving DecidableEq, Repr

def Width.bytes : Width → Nat
  | one => 1
  | two => 2
  | four => 4
  | eight => 8

theorem Width.bytes_pos (w : Width) : 0 < w.bytes := by
  cases w <;> decide

end SegmentedMessage
