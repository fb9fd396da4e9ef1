import SegmentedMessage.Layout.PointerCodec
import SegmentedMessage.Proofs.Decoding

namespace SegmentedMessage

namespace PointerWord

theorem of_halves {w : PointerWord} {low high : Nat} (hl : low = w.low.toNat)
    (hh : high = w.high.toNat) : ⟨UInt32.ofNat low, UInt32.ofNat high⟩ = w := by
  subst hl hh
  rw [UInt32.ofNat_toNat, UInt32.ofNat_toNat]

theorem offset_of_low {w : PointerWord} {off : Int} {k : Nat}
    (hw : w.low.toNat = offsetBits off + k) (hk : k < 4) (hl : -0x20000000 ≤ off)
    (hh : off < 0x20000000) : w.offset = off := by
  simp only [offset, hw, offsetBits]
  split <;> omega

theorem offset_ofStruct {off : Int} (hl : -0x20000000 ≤ off) (hh : off < 0x20000000)
    (s : StructShape) : (ofStruct off s).offset = off := by
  have hb := offsetBits_lt off
  refine offset_of_low (k := 0) ?_ (by decide) hl hh
  simp only [ofStruct, UInt32.toNat_ofNat']
  omega

theorem offset_ofList {off : Int} (hl : -0x20000000 ≤ off) (hh : off < 0x20000000)
    (e : ElementKind) (n : Nat) : (ofList off e n).offset = off := by
  have hb := offsetBits_lt off
  have hm := offsetBits_mod off
  refine offset_of_low (k := 1) ?_ (by decide) hl hh
  simp only [ofList, UInt32.toNat_ofNat']
  omega

theorem ofStruct_offset {w : PointerWord} (h : w.kind = .struct) :
    ofStruct w.offset w.shape = w := by
  have hlow := low_of_kind h
  simp only [Kind.code] at hlow
  refine of_halves ?_ (shapeBits_shape w)
  rw [offsetBits_offset]
  omega

theorem ofList_offset {w : PointerWord} (h : w.kind = .list) :
    ofList w.offset w.element w.count = w := by
  have hlow := low_of_kind h
  simp only [Kind.code] at hlow
  refine of_halves ?_ ?_
  · rw [offsetBits_offset]
    omega
  · rw [element, ElementKind.code_ofCode, count]
    omega

theorem ofFar_padWord {w : PointerWord} (h : w.kind = .far) :
    ofFar w.isDouble w.padWord w.padSegment = w := by
  have hlow := low_of_kind h
  simp only [Kind.code] at hlow
  have hdouble : w.isDouble.toNat = w.low.toNat / 4 % 2 := by
    rw [isDouble]
    rcases Nat.mod_two_eq_zero_or_one (w.low.toNat / 4) with hbit | hbit <;> rw [hbit] <;> rfl
  refine of_halves ?_ rfl
  rw [hdouble, padWord]
  omega

theorem ofCapability_capability {w : PointerWord} (h : w.isCapability = true) :
    ofCapability w.capability = w := by
  obtain ⟨low, high⟩ := w
  obtain rfl : low = 3 := eq_of_beq h
  rfl

theorem kind_ofCapability (i : UInt32) : (ofCapability i).kind = .other := rfl

theorem isCapability_ofCapability (i : UInt32) : (ofCapability i).isCapability = true := rfl

theorem decode?_eq {b : ByteArray} (h : 8 ≤ b.size) :
    decode? b = some (ofNat (LittleEndian.decode ((Buffer.bytes b).take 8))) := by
  rw [decode?, if_pos h, Buffer.getLE_eq_decode (by omega), Buffer.bytes_slice, List.drop_zero]

theorem encodeInto_eq (w : PointerWord) {b : ByteArray} (h : 8 ≤ b.size) :
    ∃ c, w.encodeInto b = .ok c ∧
      Buffer.bytes c = LittleEndian.encode 8 w.toNat ++ (Buffer.bytes b).drop 8 := by
  refine ⟨Buffer.putLE b 0 8 w.toNat, if_pos h, ?_⟩
  rw [Buffer.putLE, Buffer.bytes_overwrite, Buffer.bytes_ofLE, Buffer.size_ofLE]
  rfl

theorem encodeInto_drop (w : PointerWord) {b : ByteArray} (h : 8 ≤ b.size) :
    ∃ c, w.encodeInto b = .ok c ∧ decode? c = some w ∧ c.size = b.size ∧
      (Buffer.bytes c).drop 8 = (Buffer.bytes b).drop 8 := by
  obtain ⟨c, hc, hbytes⟩ := w.encodeInto_eq h
  have hword : (LittleEndian.encode 8 w.toNat).length = 8 := LittleEndian.length_encode ..
  refine ⟨c, hc, decode?_encodeInto hc, ?_, ?_⟩
  · rw [← Buffer.length_bytes, ← Buffer.length_bytes, hbytes, List.length_append, hword,
      List.length_drop, Buffer.length_bytes]
    omega
  · rw [hbytes, List.drop_left' hword]

theorem encodeInto_decode? {b c : ByteArray} (hb : 8 ≤ b.size) (hc : 8 ≤ c.size) :
    ∃ w d, decode? b = some w ∧ w.encodeInto c = .ok d ∧
      Buffer.bytes d = (Buffer.bytes b).take 8 ++ (Buffer.bytes c).drop 8 := by
  obtain ⟨d, hd, hbytes⟩ :=
    (ofNat (LittleEndian.decode ((Buffer.bytes b).take 8))).encodeInto_eq hc
  have hlen : ((Buffer.bytes b).take 8).length = 8 := by
    rw [List.length_take, Buffer.length_bytes]
    omega
  have hlt := LittleEndian.decode_lt ((Buffer.bytes b).take 8)
  have hback := LittleEndian.encode_decode ((Buffer.bytes b).take 8)
  rw [hlen] at hlt hback
  have hnat := (toNat_ofNat (LittleEndian.decode ((Buffer.bytes b).take 8))).trans
    (Nat.mod_eq_of_lt hlt)
  refine ⟨_, d, decode?_eq hb, hd, ?_⟩
  rw [hbytes, hnat, hback]

theorem decode?_short {b : ByteArray} (h : b.size < 8) : decode? b = none :=
  if_neg (Nat.not_le.mpr h)

theorem encodeInto_short (w : PointerWord) {b : ByteArray} (h : b.size < 8) :
    w.encodeInto b = .error .rawAccess :=
  if_neg (Nat.not_le.mpr h)

end PointerWord

open PointerWord in
/-- Pointer words are the same thing as their fields, and as the eight bytes that hold them. -/
theorem pointerWord_format :
    (∀ w : PointerWord,
      (w.kind = .struct → ofStruct w.offset w.shape = w ∧ ofTag w.tagLength w.shape = w) ∧
      (w.kind = .list → ofList w.offset w.element w.count = w) ∧
      (w.kind = .far → ofFar w.isDouble w.padWord w.padSegment = w) ∧
      (w.isCapability = true → ofCapability w.capability = w)) ∧
    (∀ off : Int, -0x20000000 ≤ off → off < 0x20000000 →
      (∀ s : StructShape, s.Regular →
        (ofStruct off s).kind = .struct ∧ (ofStruct off s).offset = off ∧
          (ofStruct off s).shape = s) ∧
      (∀ (e : ElementKind) (n : Nat), n < 0x20000000 →
        (ofList off e n).kind = .list ∧ (ofList off e n).offset = off ∧
          (ofList off e n).element = e ∧ (ofList off e n).count = n) ∧
      ∀ w : PointerWord,
        (w.setOffset off).offset = off ∧ (w.setOffset off).kind = w.kind ∧
          (w.setOffset off).high = w.high) ∧
    (∀ (n : Nat) (s : StructShape), n < 0x40000000 → s.Regular →
      (ofTag n s).kind = .struct ∧ (ofTag n s).tagLength = n ∧ (ofTag n s).shape = s) ∧
    (∀ (double : Bool) (pad seg : Nat), pad < 0x20000000 → seg < 0x100000000 →
      (ofFar double pad seg).kind = .far ∧ (ofFar double pad seg).isDouble = double ∧
        (ofFar double pad seg).padWord = pad ∧ (ofFar double pad seg).padSegment = seg) ∧
    (∀ i : UInt32,
      (ofCapability i).kind = .other ∧ (ofCapability i).isCapability = true ∧
        (ofCapability i).capability = i) ∧
    (∀ (w : PointerWord) (b : ByteArray), 8 ≤ b.size →
      ∃ c, w.encodeInto b = .ok c ∧ decode? c = some w ∧ c.size = b.size ∧
        (Buffer.bytes c).drop 8 = (Buffer.bytes b).drop 8) ∧
    (∀ b c : ByteArray, 8 ≤ b.size → 8 ≤ c.size →
      ∃ w d, decode? b = some w ∧ w.encodeInto c = .ok d ∧
        Buffer.bytes d = (Buffer.bytes b).take 8 ++ (Buffer.bytes c).drop 8) ∧
    ∀ b : ByteArray, b.size < 8 →
      decode? b = none ∧ ∀ w : PointerWord, w.encodeInto b = .error .rawAccess := by
  refine ⟨fun w => ⟨fun h => ⟨ofStruct_offset h, ofTag_tagLength h⟩, ofList_offset, ofFar_padWord,
    ofCapability_capability⟩, ?_, ?_, ?_, ?_, ?_, ?_, ?_⟩
  · intro off hl hh
    refine ⟨fun s hs => ?_, fun e n hn => ?_, fun w => ?_⟩
    · exact ⟨kind_ofStruct off s, offset_ofStruct hl hh s, shape_ofStruct hs off⟩
    · exact ⟨kind_ofList off e n, offset_ofList hl hh e n, element_ofList off e n,
        count_ofList off e hn⟩
    · exact ⟨offset_setOffset w hl hh, kind_setOffset w off, rfl⟩
  · intro n s hn hs
    exact ⟨kind_ofTag n s, tagLength_ofTag hn s, shape_ofTag hs n⟩
  · intro double pad seg hpad hseg
    exact ⟨kind_ofFar double pad seg, isDouble_ofFar double pad seg, padWord_ofFar double hpad seg,
      padSegment_ofFar double pad hseg⟩
  · exact fun i => ⟨kind_ofCapability i, isCapability_ofCapability i, rfl⟩
  · exact fun w b hb => w.encodeInto_drop hb
  · exact fun b c hb hc => encodeInto_decode? hb hc
  · exact fun b hb => ⟨decode?_short hb, fun w => w.encodeInto_short hb⟩

open PointerWord in
/-- One word of each kind, with the least offset there is, and a word in a buffer of nine bytes. -/
theorem pointerWord_format_words :
    ofTag (⟨0xfffffffc, 0x30002⟩ : PointerWord).tagLength ⟨16, 3⟩ = ⟨0xfffffffc, 0x30002⟩ ∧
    ofList (-2) .bits16 5 = ⟨0xfffffff9, 43⟩ ∧ ofFar true 4 9 = ⟨38, 9⟩ ∧
    ofCapability 7 = ⟨3, 7⟩ ∧ (ofStruct (-0x20000000) ⟨24, 1⟩).offset = -0x20000000 ∧
    (ofTag 0x3fffffff ⟨0, 2⟩).tagLength = 0x3fffffff ∧
    (ofFar false 0x1fffffff 0xffffffff).padWord = 0x1fffffff ∧
    (∃ c, (ofCapability 7).encodeInto ⟨#[9, 9, 9, 9, 9, 9, 9, 9, 5]⟩ = .ok c ∧
      decode? c = some (ofCapability 7) ∧ (Buffer.bytes c).drop 8 = [5]) ∧
    decode? ⟨#[3]⟩ = none := by
  obtain ⟨hwords, hoffsets, htags, hfars, -, hencode, -, hshort⟩ := pointerWord_format
  obtain ⟨c, hc, hword, -, hrest⟩ :=
    hencode (ofCapability 7) ⟨#[9, 9, 9, 9, 9, 9, 9, 9, 5]⟩ (by decide)
  exact ⟨((hwords ⟨0xfffffffc, 0x30002⟩).1 (by decide)).2,
    (hwords ⟨0xfffffff9, 43⟩).2.1 (by decide), (hwords ⟨38, 9⟩).2.2.1 (by decide),
    (hwords ⟨3, 7⟩).2.2.2 (by decide),
    ((hoffsets (-0x20000000) (by decide) (by decide)).1 ⟨24, 1⟩ ⟨by decide, by decide⟩).2.1,
    (htags 0x3fffffff ⟨0, 2⟩ (by decide) ⟨by decide, by decide⟩).2.1,
    (hfars false 0x1fffffff 0xffffffff (by decide) (by decide)).2.2.1,
    ⟨c, hc, hword, hrest⟩, (hshort ⟨#[3]⟩ (by decide)).1⟩

end SegmentedMessage
