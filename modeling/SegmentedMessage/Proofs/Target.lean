import SegmentedMessage.Proofs.Link
import SegmentedMessage.Proofs.Region

namespace SegmentedMessage

open Store

theorem ListView.start_eq (tag : Location) (len : Nat) (shape : StructShape) :
    (ListView.backed (tag.shift 8) len .composite shape).start? = some tag := by
  simp only [ListView.start?, Location.shift, Nat.add_sub_cancel]

theorem ListView.start_plain {elem : ElementKind} (h : elem ≠ .composite) (loc : Location) (len : Nat)
    (shape : StructShape) : (ListView.backed loc len elem shape).start? = some loc := by
  cases elem with
  | composite => exact absurd rfl h
  | _ => rfl

theorem ListView.word_plain {elem : ElementKind} (h : elem ≠ .composite) (loc : Location) (len : Nat)
    (shape : StructShape) : (ListView.backed loc len elem shape).word = .ofList 0 elem len := by
  cases elem with
  | composite => exact absurd rfl h
  | _ => rfl

namespace PointerWord

theorem shape_congr {v w : PointerWord} (h : v.high = w.high) : v.shape = w.shape := by
  rw [shape, shape, h]

theorem element_congr {v w : PointerWord} (h : v.high = w.high) : v.element = w.element := by
  rw [element, element, h]

theorem count_congr {v w : PointerWord} (h : v.high = w.high) : v.count = w.count := by
  rw [count, count, h]

theorem shape_ofStruct {shape : StructShape} (h : shape.Regular) (off : Int) :
    (ofStruct off shape).shape = shape :=
  shape_ofNat h.1 ((StructShape.isEncodable_iff _).mpr h.2) _

theorem shape_ofTag {shape : StructShape} (h : shape.Regular) (len : Nat) :
    (ofTag len shape).shape = shape :=
  shape_ofNat h.1 ((StructShape.isEncodable_iff _).mpr h.2) _

theorem direct_ofStruct {shape : StructShape} (h : shape.Regular) (hne : shape.isEmpty = false)
    (off : Int) : (ofStruct off shape).Direct where
  near := by
    rw [kind_ofStruct]
    exact fun hk => nomatch hk
  visible := by
    refine .inr fun hh => ?_
    have hs : (ofStruct off shape).shape = null.shape := shape_congr hh
    rw [shape_ofStruct h] at hs
    rw [hs] at hne
    cases hne

theorem direct_ofList (off : Int) (elem : ElementKind) (len : Nat) :
    (ofList off elem len).Direct where
  near := by
    rw [kind_ofList]
    exact fun hk => nomatch hk
  visible := by
    rw [kind_ofList]
    exact .inl fun hk => nomatch hk

end PointerWord

namespace Store

variable {s : Store} {l slot target : Location} {v : PointerWord} {shape : StructShape}
  {elem : ElementKind} {len n : Nat}

theorem checkRange_eq (hc : s.covers l n = true) (hl : l.address < 0x100000000) :
    s.checkRange l.segment l.address n = .ok l := by
  have hcond : (0 : Int) ≤ l.address ∧ (l.address : Int) < 0x100000000 ∧ s.covers l n = true :=
    ⟨by omega, by omega, hc⟩
  rw [checkRange, Int.toNat_natCast, if_pos hcond]

theorem Valid.address_lt_of_covers (h : s.Valid) (hc : s.covers l n = true) :
    l.address < 0x100000000 := by
  have hle := h.covers_le hc
  rw [largestSegment] at hle
  omega

theorem readTarget_struct (hk : v.kind = .struct) (hs : v.shape = shape)
    (hc : s.covers l shape.bytes = true) (hl : l.address < 0x100000000) :
    s.readTarget ⟨l.segment, v, l.address⟩ = .ok (.struct (.backed l shape false)) := by
  simp only [readTarget, readStruct, hk, hs, checkRange_eq hc hl]
  rfl

theorem readTarget_plain (hk : v.kind = .list) (he : v.element = elem) (hne : elem ≠ .composite)
    (hn : v.count = len) (hc : s.covers l (elem.bytesFor len) = true)
    (hl : l.address < 0x100000000) :
    s.readTarget ⟨l.segment, v, l.address⟩ = .ok (.list (.backed l len elem .empty)) := by
  have hread : s.readList ⟨l.segment, v, l.address⟩ = s.readPlain ⟨l.segment, v, l.address⟩ elem := by
    unfold readList
    split
    · rename_i hcomp
      exact absurd (he.symm.trans hcomp) hne
    · rw [he]
  simp only [readTarget, hk, hread, readPlain, hn, checkRange_eq hc hl]
  rfl

theorem readTarget_composite (hk : v.kind = .list) (he : v.element = .composite)
    (hn : v.count * 8 = len * shape.bytes) (hr : shape.Regular) (hlen : len ≤ longestList)
    (hc : s.covers l (8 + len * shape.bytes) = true) (htag : s.wordAt l = .ofTag len shape)
    (hl : l.address < 0x100000000) :
    s.readTarget ⟨l.segment, v, l.address⟩ =
      .ok (.list (.backed (l.shift 8) len .composite shape)) := by
  have hsize : (v.count + 1) * 8 = 8 + len * shape.bytes := by omega
  have hword : s.readWord l = .ok (.ofTag len shape) := by
    rw [readWord_eq (covers_take hc (by omega)), htag]
  have hlength : (PointerWord.ofTag len shape).tagLength = len := by
    apply PointerWord.tagLength_ofTag
    rw [longestList] at hlen
    omega
  have hgood : ¬ ((PointerWord.ofTag len shape).kind ≠ .struct ∨ longestList < len ∨
      v.count * 8 < len * shape.bytes) := by
    rw [PointerWord.kind_ofTag, hn]
    simp only [ne_eq, not_true_eq_false, false_or]
    omega
  have hread : s.readList ⟨l.segment, v, l.address⟩ = s.readComposite ⟨l.segment, v, l.address⟩ := by
    unfold readList
    split
    · rfl
    · rename_i hcomp
      exact absurd he hcomp
  simp only [readTarget, hk, hread, readComposite, hsize, checkRange_eq hc hl]
  change (Pointer.list <$> (s.readWord l >>= _)) = _
  rw [hword]
  change (Pointer.list <$> (if _ then _ else _)) = _
  rw [PointerWord.shape_ofTag hr, hlength, if_neg hgood]
  rfl

theorem pointerAt_word (hc : s.covers slot 8 = true) : s.pointerAt slot =
    if (s.wordAt slot).isNull then .ok .null
    else s.locate slot (s.wordAt slot) >>= s.readTarget := by
  rw [pointerAt, if_pos hc, readWord_eq hc]
  rfl

theorem pointerAt_direct (hc : s.covers slot 8 = true) (hw : s.wordAt slot = v)
    (hnull : v.isNull = false) (hnear : v.kind ≠ .far) :
    s.pointerAt slot = s.readTarget ⟨slot.segment, v, targetFrom slot.address v⟩ := by
  rw [pointerAt_word hc, hw, hnull, locate_direct hnear]
  rfl

theorem pointerAt_null (hc : s.covers slot 8 = true) (hw : s.wordAt slot = .null) :
    s.pointerAt slot = .ok .null := by
  rw [pointerAt_word hc, hw]
  rfl

theorem pointerAt_capability {i : UInt32} (hc : s.covers slot 8 = true)
    (hw : s.wordAt slot = .ofCapability i) : s.pointerAt slot = .ok (.capability i) := by
  have hk : (PointerWord.ofCapability i).kind = .other := rfl
  have hnear : (PointerWord.ofCapability i).kind ≠ .far := by
    rw [hk]
    exact fun h => nomatch h
  have hnull : (PointerWord.ofCapability i).isNull = false := by
    apply PointerWord.isNull_of_kind
    rw [hk]
    exact fun h => nomatch h
  rw [pointerAt_direct hc hw hnull hnear]
  rfl

theorem pointerAt_emptyStruct (hc : s.covers slot 8 = true) (hl : slot.address < 0x100000000)
    (hw : s.wordAt slot = .emptyStruct) :
    s.pointerAt slot = .ok (.struct (.backed slot .empty false)) := by
  have htarget : targetFrom slot.address .emptyStruct = slot.address := by
    have hoffset : PointerWord.emptyStruct.offset = -1 := by decide
    rw [targetFrom, hoffset]
    omega
  have hnull : PointerWord.emptyStruct.isNull = false := by decide
  have hk : PointerWord.emptyStruct.kind = .struct := by decide
  have hnear : PointerWord.emptyStruct.kind ≠ .far := by decide
  have hshape : PointerWord.emptyStruct.shape = .empty := by decide
  have hempty : s.covers slot StructShape.empty.bytes = true :=
    covers_take hc (Nat.zero_le 8)
  rw [pointerAt_direct hc hw hnull hnear, htarget]
  exact readTarget_struct hk hshape hempty hl

theorem Leads.struct (h : s.Leads slot target (.ofStruct 0 shape)) (hr : shape.Regular)
    (hc : s.covers target shape.bytes = true) (hl : target.address < 0x100000000) :
    s.pointerAt slot = .ok (.struct (.backed target shape false)) := by
  obtain ⟨v, hk, hh, hread⟩ := h.pointerAt
  rw [hread]
  apply readTarget_struct _ _ hc hl
  · rw [hk, PointerWord.kind_ofStruct]
  · rw [PointerWord.shape_congr hh, PointerWord.shape_ofStruct hr]

theorem Leads.plain (h : s.Leads slot target (.ofList 0 elem len)) (hne : elem ≠ .composite)
    (hlen : len ≤ longestList) (hc : s.covers target (elem.bytesFor len) = true)
    (hl : target.address < 0x100000000) :
    s.pointerAt slot = .ok (.list (.backed target len elem .empty)) := by
  obtain ⟨v, hk, hh, hread⟩ := h.pointerAt
  rw [hread]
  apply readTarget_plain _ _ hne _ hc hl
  · rw [hk, PointerWord.kind_ofList]
  · rw [PointerWord.element_congr hh, PointerWord.element_ofList]
  · rw [PointerWord.count_congr hh, PointerWord.count_ofList]
    rw [longestList] at hlen
    omega

theorem Leads.composite (h : s.Leads slot target (.ofList 0 .composite (len * shape.bytes / 8)))
    (hr : shape.Regular) (hlen : len ≤ longestList) (hwords : len * shape.bytes / 8 ≤ longestList)
    (hc : s.covers target (8 + len * shape.bytes) = true)
    (htag : s.wordAt target = .ofTag len shape) (hl : target.address < 0x100000000) :
    s.pointerAt slot = .ok (.list (.backed (target.shift 8) len .composite shape)) := by
  obtain ⟨v, hk, hh, hread⟩ := h.pointerAt
  rw [hread]
  have hmod := hr.mul_bytes_mod len
  refine readTarget_composite ?_ ?_ ?_ hr hlen hc htag hl
  · rw [hk, PointerWord.kind_ofList]
  · rw [PointerWord.element_congr hh, PointerWord.element_ofList]
  · rw [PointerWord.count_congr hh, PointerWord.count_ofList]
    · omega
    · rw [longestList] at hwords
      omega

/-- A slot that is linked to `target` shows `p`, as long as changes of message `m` keep to `free`. -/
structure Placed (m : Nat) (free : Location → Prop) (t : Store) (target : Location)
    (w : PointerWord) (p : Pointer) : Prop where
  message : target.segment.message = m
  segment : target.segment.index < t.count m
  aligned : Aligned target.address
  direct : w.Direct
  shown : ∀ u slot, t.Grows m free u → u.Leads slot target w → u.pointerAt slot = .ok p

section Placed

variable {m : Nat} {free : Location → Prop} {t : Store}

theorem Placed.struct (hm : target.segment.message = m) (ha : Aligned target.address)
    (hr : shape.Regular) (hne : shape.isEmpty = false) (hc : t.covers target shape.bytes = true) :
    Placed m free t target (.ofStruct 0 shape) (.struct (.backed target shape false)) := by
  subst hm
  refine ⟨rfl, (covers_iff.mp hc).1, ha, PointerWord.direct_ofStruct hr hne 0, ?_⟩
  intro u slot hu h
  exact h.struct hr (hu.covers rfl hc) ha.lt

theorem Placed.plain (hm : target.segment.message = m) (ha : Aligned target.address)
    (hne : elem ≠ .composite) (hlen : len ≤ longestList)
    (hc : t.covers target (elem.bytesFor len) = true) :
    Placed m free t target (.ofList 0 elem len) (.list (.backed target len elem .empty)) := by
  subst hm
  refine ⟨rfl, (covers_iff.mp hc).1, ha, PointerWord.direct_ofList 0 elem len, ?_⟩
  intro u slot hu h
  exact h.plain hne hlen (hu.covers rfl hc) ha.lt

theorem Placed.composite (hm : target.segment.message = m) (ha : Aligned target.address)
    (hr : shape.Regular) (hlen : len ≤ longestList) (hwords : len * shape.bytes / 8 ≤ longestList)
    (hc : t.covers target (8 + len * shape.bytes) = true)
    (htag : t.wordAt target = .ofTag len shape) (hfree : ∀ l, target.Extent 8 l → ¬ free l) :
    Placed m free t target (.ofList 0 .composite (len * shape.bytes / 8))
      (.list (.backed (target.shift 8) len .composite shape)) := by
  subst hm
  refine ⟨rfl, (covers_iff.mp hc).1, ha, PointerWord.direct_ofList 0 .composite _, ?_⟩
  intro u slot hu h
  have hfirst : t.covers target 8 = true := covers_take hc (by omega)
  have hkept : u.wordAt target = .ofTag len shape := by
    rw [hu.wordAt_eq rfl hfirst hfree, htag]
  exact h.composite hr hlen hwords (hu.covers rfl hc) hkept ha.lt

end Placed

end Store

end SegmentedMessage
