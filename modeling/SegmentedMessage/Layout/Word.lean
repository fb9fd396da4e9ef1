namespace SegmentedMessage.Layout

def wordSize : Nat := 8

def roundUp (n : Nat) : Nat :=
  (n + 7) / 8 * 8

theorem le_roundUp (n : Nat) : n ≤ roundUp n := by
  simp only [roundUp]; omega

theorem roundUp_lt (n : Nat) : roundUp n < n + 8 := by
  simp only [roundUp]; omega

theorem roundUp_mod (n : Nat) : roundUp n % 8 = 0 := by
  simp [roundUp]

theorem roundUp_least (n : Nat) : roundUp n % 8 = 0 ∧ n ≤ roundUp n ∧ roundUp n < n + 8 :=
  ⟨roundUp_mod n, le_roundUp n, roundUp_lt n⟩

theorem roundUp_of_aligned {n : Nat} (h : n % 8 = 0) : roundUp n = n := by
  simp only [roundUp]; omega

def roundUp? (n : Nat) : Option Nat :=
  if n + 7 < 0x100000000 then some (roundUp n) else none

theorem roundUp?_eq_some {n p : Nat} :
    roundUp? n = some p ↔ n + 7 < 0x100000000 ∧ p = roundUp n := by
  simp only [roundUp?]
  split
  · rename_i hfits
    constructor
    · intro h
      exact ⟨hfits, (Option.some.inj h).symm⟩
    · rintro ⟨_, rfl⟩
      rfl
  · rename_i hover
    constructor
    · intro h
      cases h
    · rintro ⟨hfits, _⟩
      exact absurd hfits hover

def wordAddress (w : Nat) : Nat :=
  w * 8

def wordIndex (addr : Nat) : Nat :=
  addr / 8

theorem wordAddress_wordIndex {addr : Nat} (h : addr % 8 = 0) :
    wordAddress (wordIndex addr) = addr := by
  simp only [wordIndex, wordAddress]; omega

def elementAddress (base i size : Nat) : Nat :=
  base + i * size

def bitByte (n : Nat) : Nat :=
  n / 8

def bitMask (n : Nat) : UInt8 :=
  1 <<< UInt8.ofNat (n % 8)

def testBit (b : UInt8) (n : Nat) : Bool :=
  b &&& bitMask n != 0

def assignBit (b : UInt8) (n : Nat) (v : Bool) : UInt8 :=
  if v then b ||| bitMask n else b &&& ~~~ bitMask n

theorem getLsbD_bitMask (n i : Nat) :
    (bitMask n).toBitVec.getLsbD i = decide (i = n % 8) := by
  have hn : n % 8 < 8 := Nat.mod_lt n (by decide)
  have hmask : bitMask n = 1 <<< UInt8.ofNat (n % 8) := rfl
  rw [hmask]
  generalize n % 8 = r at hn
  rcases Nat.lt_or_ge i 8 with hi | hi
  · have hall : ∀ r i : Fin 8, (1 <<< UInt8.ofNat r.val : UInt8).toBitVec.getLsbD i.val =
        decide (i.val = r.val) := by decide
    exact hall ⟨r, hn⟩ ⟨i, hi⟩
  · rw [BitVec.getLsbD_of_ge _ i hi]
    exact (decide_eq_false (by omega)).symm

theorem testBit_eq (b : UInt8) (n : Nat) : testBit b n = b.toBitVec.getLsbD (n % 8) := by
  have hand (i : Nat) : (b &&& bitMask n).toBitVec.getLsbD i =
      (b.toBitVec.getLsbD i && decide (i = n % 8)) := by
    rw [UInt8.toBitVec_and, BitVec.getLsbD_and, getLsbD_bitMask]
  unfold testBit
  cases hb : b.toBitVec.getLsbD (n % 8) with
  | true =>
      have hne : b &&& bitMask n ≠ 0 := by
        intro hzero
        have hbit := hand (n % 8)
        rw [hzero, hb] at hbit
        simp at hbit
      exact bne_iff_ne.mpr hne
  | false =>
      have hzero : b &&& bitMask n = 0 := by
        apply UInt8.eq_of_toBitVec_eq
        apply BitVec.eq_of_getLsbD_eq
        intro i _
        rw [hand]
        by_cases hi : i = n % 8
        · simp [hi, hb]
        · simp [hi]
      rw [hzero]
      rfl

theorem testBit_assignBit (b : UInt8) (n k : Nat) (v : Bool) :
    testBit (assignBit b n v) k = if k % 8 = n % 8 then v else testBit b k := by
  have hk : k % 8 < 8 := Nat.mod_lt k (by decide)
  rw [testBit_eq, testBit_eq]
  cases v with
  | true =>
      rw [assignBit, if_pos rfl, UInt8.toBitVec_or, BitVec.getLsbD_or, getLsbD_bitMask]
      split <;> simp [*]
  | false =>
      rw [assignBit, if_neg Bool.false_ne_true, UInt8.toBitVec_and, BitVec.getLsbD_and,
        UInt8.toBitVec_not, BitVec.getLsbD_not, getLsbD_bitMask]
      split <;> simp [*]

end SegmentedMessage.Layout
