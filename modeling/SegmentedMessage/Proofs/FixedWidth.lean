import SegmentedMessage.Proofs.Link

namespace SegmentedMessage

theorem offsetTo_bounds (slot target : Nat) :
    -(slot + 8 : Int) ≤ offsetTo slot target * 8 ∧
      offsetTo slot target * 8 ≤ (target - 8 : Nat) := by
  have hsign : (8 : Int).sign = 1 := rfl
  rw [offsetTo, Int.tdiv_eq_ediv, hsign]
  split <;> omega

theorem PointerWord.offset_bounds (w : PointerWord) :
    -0x20000000 ≤ w.offset ∧ w.offset < 0x20000000 := by
  have hlow := w.low.toNat_lt
  rw [PointerWord.offset]
  split <;> omega

namespace FixedWidth

def widen (a : UInt32) : Int64 :=
  a.toUInt64.toInt64

def offsetTo (slot target : UInt32) : Int32 :=
  ((widen target - widen slot - 8) / 8).toInt32

def offset (w : PointerWord) : Int32 :=
  w.low.toInt32 >>> 2

def setOffset (w : PointerWord) (off : Int32) : PointerWord :=
  ⟨off.toUInt32 <<< 2 ||| w.low &&& 3, w.high⟩

def targetFrom (slot : UInt32) (w : PointerWord) : Int64 :=
  widen slot + 8 + (offset w).toInt64 * 8

def wordIndex (a : UInt32) : UInt32 :=
  a / 8

def wordAddress (n : UInt32) : UInt32 :=
  n * 8

def ofFar (double : Bool) (pad seg : UInt32) : PointerWord :=
  ⟨pad <<< 3 ||| double.toUInt32 <<< 2 ||| 2, seg⟩

def padWord (w : PointerWord) : UInt32 :=
  w.low >>> 3

def isDouble (w : PointerWord) : Bool :=
  w.low >>> 2 &&& 1 != 0

theorem toInt_widen (a : UInt32) : (widen a).toInt = a.toNat := by
  have hlt := a.toNat_lt
  have hwide : a.toUInt64.toInt64 = Int64.ofNat a.toNat := by
    rw [← UInt64.toInt64_ofNat', ← UInt32.toNat_toUInt64, UInt64.ofNat_toNat]
  rw [widen, hwide, Int64.toInt_ofNat_of_lt (by omega)]

theorem toInt_eight : (8 : Int64).toInt = 8 := rfl

theorem toInt_offsetTo (slot target : UInt32) :
    (offsetTo slot target).toInt = SegmentedMessage.offsetTo slot.toNat target.toNat := by
  have hs := slot.toNat_lt
  have ht := target.toNat_lt
  have hdifference : (widen target - widen slot - 8).toInt = target.toNat - slot.toNat - 8 := by
    simp (disch := omega) only [Int64.toInt_sub, toInt_widen, toInt_eight, Int.bmod_eq_of_le]
  obtain ⟨hlo, hhi⟩ := offsetTo_bounds slot.toNat target.toNat
  rw [SegmentedMessage.offsetTo] at hlo hhi ⊢
  rw [offsetTo, Int64.toInt_toInt32, Int64.toInt_div, hdifference, toInt_eight]
  -- the quotient has thirty bits whatever the addresses are, so the cut to 32 bits takes nothing
  simp (disch := omega) only [Int.bmod_eq_of_le]

theorem toInt_offset (w : PointerWord) : (offset w).toInt = w.offset := by
  have hlow := w.low.toNat_lt
  have hshift : (offset w).toInt = w.low.toInt32.toInt / 4 := by
    change (w.low.toBitVec.sshiftRight 2).toInt = _
    rw [BitVec.toInt_sshiftRight, Int.shiftRight_eq_div_pow]
    rfl
  have hsigned : w.low.toInt32.toInt =
      if 2 * w.low.toNat < 0x100000000 then (w.low.toNat : Int)
      else w.low.toNat - 0x100000000 := BitVec.toInt_eq_toNat_cond _
  rw [hshift, hsigned, PointerWord.offset]
  split <;> split <;> omega

theorem toInt_targetFrom (slot : UInt32) (w : PointerWord) :
    (targetFrom slot w).toInt = SegmentedMessage.targetFrom slot.toNat w := by
  have hs := slot.toNat_lt
  obtain ⟨hlo, hhi⟩ := w.offset_bounds
  rw [targetFrom, SegmentedMessage.targetFrom]
  simp (disch := omega) only [Int64.toInt_add, Int64.toInt_mul, Int32.toInt_toInt64, toInt_widen,
    toInt_offset, toInt_eight, Int.bmod_eq_of_le]

theorem toNat_shiftLeft_or {k : Nat} {a b : UInt32} (hk : k < 32) (hb : b.toNat < 1 <<< k) :
    (a <<< UInt32.ofNat k ||| b).toNat = a.toNat <<< k % 0x100000000 + b.toNat := by
  have hshift : (UInt32.ofNat k).toNat % 32 = k := by
    rw [UInt32.toNat_ofNat']
    omega
  have hfield : a.toNat <<< k % 0x100000000 = (a.toNat % 2 ^ (32 - k)) <<< k := by
    rw [Nat.shiftLeft_eq, Nat.shiftLeft_eq, ← Nat.mul_mod_mul_right, ← Nat.pow_add,
      Nat.sub_add_cancel (Nat.le_of_lt hk)]
  rw [Nat.one_shiftLeft] at hb
  rw [UInt32.toNat_or, UInt32.toNat_shiftLeft, hshift, hfield, Nat.shiftLeft_add_eq_or_of_lt hb,
    ← hfield]

theorem toNat_toUInt32 (off : Int32) : (off.toUInt32.toNat : Int) = off.toInt % 0x100000000 := by
  have hlt := off.toUInt32.toNat_lt
  have hsigned : off.toInt = if 2 * off.toUInt32.toNat < 0x100000000 then
      (off.toUInt32.toNat : Int) else off.toUInt32.toNat - 0x100000000 :=
    BitVec.toInt_eq_toNat_cond _
  rw [hsigned]
  split <;> omega

theorem setOffset_eq (w : PointerWord) (off : Int32) : setOffset w off = w.setOffset off.toInt := by
  have hkind : (w.low &&& 3).toNat = w.low.toNat % 4 := by
    rw [UInt32.toNat_and]
    exact Nat.and_two_pow_sub_one_eq_mod w.low.toNat 2
  have hoff := toNat_toUInt32 off
  have hlow : (off.toUInt32 <<< 2 ||| w.low &&& 3).toNat = (w.setOffset off.toInt).low.toNat := by
    have hbelow : (w.low &&& 3).toNat < 1 <<< 2 := by omega
    refine (toNat_shiftLeft_or (by decide) hbelow).trans ?_
    rw [PointerWord.low_setOffset, PointerWord.offsetBits, hkind]
    -- the shift loses the two highest bits of the offset, which its remainder drops as well
    omega
  rw [setOffset, UInt32.toNat_inj.mp hlow]
  rfl

theorem ofFar_eq (double : Bool) (pad seg : UInt32) :
    ofFar double pad seg = .ofFar double pad.toNat seg.toNat := by
  have hle := Bool.toNat_le double
  have hflag : (double.toUInt32 <<< 2 ||| 2).toNat = 4 * double.toNat + 2 := by
    cases double <;> rfl
  have hlow : pad <<< 3 ||| double.toUInt32 <<< 2 ||| 2 =
      UInt32.ofNat (8 * pad.toNat + 4 * double.toNat + 2) := by
    have hbelow : (double.toUInt32 <<< 2 ||| 2).toNat < 1 <<< 3 := by omega
    rw [UInt32.or_assoc, ← UInt32.toNat_inj, UInt32.toNat_ofNat']
    refine (toNat_shiftLeft_or (by decide) hbelow).trans ?_
    rw [hflag]
    omega
  rw [ofFar, hlow, PointerWord.ofFar, UInt32.ofNat_toNat]

theorem toNat_padWord (w : PointerWord) : (padWord w).toNat = w.padWord := by
  rw [padWord, UInt32.toNat_shiftRight, Nat.shiftRight_eq_div_pow]
  rfl

theorem isDouble_eq (w : PointerWord) : isDouble w = w.isDouble := by
  have hbit : (w.low >>> 2 &&& 1).toNat = w.low.toNat / 4 % 2 := by
    rw [UInt32.toNat_and, UInt32.toNat_shiftRight, Nat.shiftRight_eq_div_pow]
    exact Nat.and_two_pow_sub_one_eq_mod _ 1
  rw [isDouble, PointerWord.isDouble, Bool.eq_iff_iff, bne_iff_ne, beq_iff_eq, ne_eq,
    ← UInt32.toNat_inj, hbit, UInt32.toNat_zero]
  omega

theorem toNat_wordIndex (a : UInt32) : (wordIndex a).toNat = Layout.wordIndex a.toNat := rfl

theorem wordAddress_wordIndex {a : UInt32} (h : a.toNat % 8 = 0) :
    wordAddress (wordIndex a) = a := by
  have hlt := a.toNat_lt
  rw [← UInt32.toNat_inj, wordAddress, UInt32.toNat_mul, toNat_wordIndex, Layout.wordIndex]
  change a.toNat / 8 * 8 % 0x100000000 = a.toNat
  omega

end FixedWidth

end SegmentedMessage
