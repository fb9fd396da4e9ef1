import SegmentedMessage.Proofs.Settled

namespace SegmentedMessage

open Store Observation

namespace Observation

theorem ofPointer_struct (k : Nat) (v : StructView) : ofPointer (k + 1) (.struct v) = ofStruct k v := by
  simp only [ofPointer, ofStruct, tree?, treeWith, Store.regions, regionsWith]

theorem ofPointer_list (k : Nat) (v : ListView) : ofPointer (k + 1) (.list v) =
    ⟨fun u => u.listTree (u.tree? k) v, fun u => u.listRegions (u.regions k) v⟩ := by
  simp only [ofPointer, tree?, treeWith, Store.regions, regionsWith]

end Observation

theorem Location.shift_shift (l : Location) (i j : Nat) : (l.shift i).shift j = l.shift (i + j) := by
  simp only [Location.shift, Nat.add_assoc]

theorem StructView.pointerAt_eq {loc : Location} {shape : StructShape} {member : Bool} {i : Nat}
    (hi : i < shape.slots.toNat) (u : Store) : (StructView.backed loc shape member).pointerAt i u
      = u.pointerAt ((loc.shift shape.data).shift (i * 8)) := by
  simp only [StructView.pointerAt, StructView.slot?, if_pos hi, Location.shift_shift]

theorem ListView.pointerAt_eq {loc : Location} {shape : StructShape} {len i : Nat} (hi : i < len)
    (u : Store) :
    (ListView.backed loc len .pointer shape).pointerAt i u = u.pointerAt (loc.shift (i * 8)) := by
  simp only [ListView.pointerAt, ListView.slot?, if_pos hi, Layout.elementAddress]
  rfl

namespace Settled

variable {m k len : Nat} {s t : Store} {loc : Location} {shape : StructShape} {content : List UInt8}
  {Ts : List Tree}

theorem struct {member : Bool} (hm : loc.segment.message = m)
    (hs : s.covers loc shape.bytes = true) (ht : t.covers loc shape.bytes = true)
    (hgrow : ∀ l, l.segment.message = m → s.Used l → t.Used l)
    (hdata : t.range loc shape.data = content)
    (hparts : Settled m untouched (s.Outside loc shape.bytes) s t
      (gathered (fun i => ofSlot k ((loc.shift shape.data).shift (i * 8))) 0 shape.slots.toNat) Ts) :
    Settled m (loc.Extent shape.bytes) (s.Outside loc shape.bytes) s t
      (ofStruct k (.backed loc shape member)) (.struct shape content Ts) := by
  refine hparts.object (r := ⟨loc, shape.bytes⟩) hm hgrow ?_ (fun _ h => h.elim) ?_ ?_
  · exact fun l hl => ⟨used_of_extent hs hl, hl, fun h => h.elim⟩
  · intro u hu hval
    have hlen : t.covers loc shape.data = true :=
      covers_take ht (Nat.le_add_right _ _)
    have hrange : u.range loc shape.data = content := by
      rw [hu.range_eq hm (covers_iff.mp hlen).2 fun l hl hfree =>
        hfree.2 (hl.mono (Nat.le_add_right _ _)), hdata]
    have hgather : gather (fun j => slotTree (u.tree? k)
        ((StructView.backed loc shape member).pointerAt j u)) 0 shape.slots.toNat = some Ts := by
      rw [← hval]
      refine gather_congr fun i _ hi => ?_
      rw [StructView.pointerAt_eq (by omega)]
      rfl
    simp only [ofStruct, structTree, hgather, hrange, Option.map_some]
  · intro u
    have hspread : spread (fun j => slotRegions (u.regions k)
        ((StructView.backed loc shape member).pointerAt j u)) 0 shape.slots.toNat =
        spread (fun i => (ofSlot k ((loc.shift shape.data).shift (i * 8))).regions u) 0
          shape.slots.toNat := by
      refine spread_congr fun i _ hi => ?_
      rw [StructView.pointerAt_eq (by omega)]
      rfl
    simp only [ofStruct, structRegions, hspread]
    rfl

theorem plain {elem : ElementKind} (hc : elem ≠ .composite) (hp : elem ≠ .pointer)
    (hm : loc.segment.message = m) (hs : s.covers loc (elem.bytesFor len) = true)
    (ht : t.covers loc (elem.bytesFor len) = true)
    (hgrow : ∀ l, l.segment.message = m → s.Used l → t.Used l)
    (hcontent : t.range loc (elem.bytesFor len) = content) :
    Settled m (loc.Extent (elem.bytesFor len)) (s.Outside loc (elem.bytesFor len)) s t
      (ofPointer (k + 1) (.list (.backed loc len elem shape))) (.plain elem len content) := by
  have hnone : Settled m untouched (s.Outside loc (elem.bytesFor len)) s t
      (gathered (fun i => ofSlot k (loc.shift (i * 8))) 0 0) [] := .nil _ 0
  rw [ofPointer_list]
  refine hnone.object (r := ⟨loc, elem.bytesFor len⟩) hm hgrow ?_ (fun _ h => h.elim) ?_ ?_
  · exact fun l hl => ⟨used_of_extent hs hl, hl, fun h => h.elim⟩
  · intro u hu _
    have hrange : u.range loc (elem.bytesFor len) = content := by
      rw [hu.range_eq hm (covers_iff.mp ht).2 fun l hl hfree => hfree.2 hl, hcontent]
    rw [← hrange]
    exact listTree_plain u (u.tree? k) hc hp loc len shape
  · exact fun u => listRegions_plain u (u.regions k) hc hp loc len shape

theorem pointers (hm : loc.segment.message = m) (hs : s.covers loc (len * 8) = true)
    (hgrow : ∀ l, l.segment.message = m → s.Used l → t.Used l)
    (hparts : Settled m untouched (s.Outside loc (len * 8)) s t
      (gathered (fun i => ofSlot k (loc.shift (i * 8))) 0 len) Ts) :
    Settled m (loc.Extent (len * 8)) (s.Outside loc (len * 8)) s t
      (ofPointer (k + 1) (.list (.backed loc len .pointer shape))) (.pointers len Ts) := by
  rw [ofPointer_list]
  refine hparts.object (r := ⟨loc, len * 8⟩) hm hgrow ?_ (fun _ h => h.elim) ?_ ?_
  · exact fun l hl => ⟨used_of_extent hs hl, hl, fun h => h.elim⟩
  · intro u hu hval
    have hgather : gather (fun i => slotTree (u.tree? k)
        ((ListView.backed loc len .pointer shape).pointerAt i u)) 0 len = some Ts := by
      rw [← hval]
      refine gather_congr fun i _ hi => ?_
      rw [ListView.pointerAt_eq (by omega)]
      rfl
    simp only [listTree, hgather, Option.map_some]
  · intro u
    have hspread : spread (fun i => slotRegions (u.regions k)
        ((ListView.backed loc len .pointer shape).pointerAt i u)) 0 len =
        spread (fun i => (ofSlot k (loc.shift (i * 8))).regions u) 0 len := by
      refine spread_congr fun i _ hi => ?_
      rw [ListView.pointerAt_eq (by omega)]
      rfl
    simp only [listRegions, hspread, ElementKind.bytesFor_pointer]
    rfl

theorem composite {tag : Location} {own : Location → Prop} (hm : tag.segment.message = m)
    (hs : s.covers tag (8 + len * shape.bytes) = true)
    (hgrow : ∀ l, l.segment.message = m → s.Used l → t.Used l)
    (hown : ∀ l, own l → (tag.shift 8).Extent (len * shape.bytes) l)
    (hparts : Settled m own (s.Outside tag (8 + len * shape.bytes)) s t
      (gathered (fun i => ofStruct k
        ((ListView.backed (tag.shift 8) len .composite shape).member i)) 0 len) Ts) :
    Settled m (tag.Extent (8 + len * shape.bytes)) (s.Outside tag (8 + len * shape.bytes)) s t
      (ofPointer (k + 1) (.list (.backed (tag.shift 8) len .composite shape)))
      (.composite shape len Ts) := by
  rw [ofPointer_list]
  refine hparts.object (r := ⟨tag, 8⟩) hm hgrow ?_ (fun l hl => (hown l hl).of_shift) ?_ ?_
  · intro l hl
    have hwhole : tag.Extent (8 + len * shape.bytes) l := hl.mono (Nat.le_add_right _ _)
    refine ⟨used_of_extent hs hwhole, hwhole, fun h => ?_⟩
    obtain ⟨_, _, hhi⟩ := hl
    obtain ⟨_, hlo, _⟩ := hown l h
    rw [Location.shift_address] at hlo
    exact absurd hhi (Nat.not_lt.mpr hlo)
  · intro u _ hval
    change gather _ _ _ = _ at hval
    simp only [ofStruct] at hval
    simp only [listTree, hval, Option.map_some]
  · intro u
    rfl

end Settled

end SegmentedMessage
