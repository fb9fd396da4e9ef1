import SegmentedMessage.Proofs.Atomicity
import SegmentedMessage.Proofs.Region

namespace SegmentedMessage

open Store Copy

section Sound

variable {σ α β : Type} {act : EStateM Abort σ α} {s : σ}

def Sound (act : EStateM Abort σ α) (s : σ) : Prop :=
  Outcome act s (fun _ _ => True) fun e _ => failed e

theorem Outcome.sound {P : α → σ → Prop} {E : Abort → σ → Prop} (h : Outcome act s P E)
    (hE : ∀ e t, E e t → failed e) : Sound act s :=
  h.mono (fun _ _ _ => trivial) hE

theorem Sound.pure (a : α) (s : σ) : Sound (Pure.pure a : EStateM Abort σ α) s :=
  Outcome.pure trivial

theorem Sound.bind {f : α → EStateM Abort σ β} {P : α → σ → Prop} {E : Abort → σ → Prop}
    (h : Sound act s) (hp : Outcome act s P E) (hf : ∀ a t, P a t → Sound (f a) t) :
    Sound (act >>= f) s :=
  Outcome.bind_of (hp.and h) (fun _ _ he => he.2) fun a t ht => hf a t ht.1

theorem Sound.on_store {act : StoreM α} {st : CopyState} (h : Sound act st.store) :
    Sound (onStore act) st :=
  (outcome_onStore h).sound fun _ _ he => he.1

end Sound

theorem Store.Valid.address_lt {s : Store} (h : s.Valid) {l : Location} {n : Nat}
    (hc : s.covers l n = true) : l.address + n < 0x100000000 :=
  Nat.lt_of_le_of_lt (h.covers_le hc) (by decide)

namespace Store

variable {s : Store} {l slot target : Location} {n : Nat}

theorem writeWord_sound (h : s.covers l 8 = true) (w : PointerWord) : Sound (writeWord l w) s := by
  refine (outcome_writeWord l w s).sound ?_
  rintro e t ⟨_, _, hc⟩
  rw [h] at hc
  cases hc

theorem write_sound {w : Nat} (h : s.covers l w = true) (v : Nat) : Sound (write l w v) s := by
  refine (outcome_write l w v s).sound ?_
  rintro e t ⟨_, _, hc⟩
  rw [h] at hc
  cases hc

theorem clear_sound (hv : s.Valid) (h : s.covers l n = true) : Sound (clear l n) s := by
  refine (outcome_clear l n s).sound ?_
  rintro e t ⟨_, ⟨_, hl⟩ | ⟨_, _, hc⟩⟩
  · have hlt := hv.address_lt h
    omega
  · rw [h] at hc
    cases hc

theorem copyBytes_sound {dst src : Location} (hd : s.covers dst n = true)
    (hs : s.covers src n = true) : Sound (copyBytes dst src n) s := by
  refine (outcome_copyBytes dst src n s).sound ?_
  rintro e t ⟨_, _, _, hc | hc⟩
  · rw [hs] at hc
    cases hc
  · rw [hd] at hc
    cases hc

theorem linkSingle_sound {pad : Location} (w : PointerWord) (hp : s.covers pad 8 = true)
    (hs : s.covers slot 8 = true) : Sound (linkSingle slot pad target w) s :=
  (writeWord_sound hp _).bind (linkNear_writesOnly pad target w s) fun _ _ ht =>
    writeWord_sound (ht.covers hs) _

theorem linkDouble_sound (w : PointerWord) (hs : s.covers slot 8 = true) :
    Sound (linkDouble slot target w) s := by
  refine Outcome.bind_of (outcome_allocate slot.segment 16 s) (fun _ _ he => he.2) ?_
  intro pad t ht
  have hpad := ht.covers (lt_size_of_covers hs)
  have hfirst : t.covers pad 8 = true := covers_take hpad (by omega)
  have hsecond : t.covers (pad.shift 8) 8 = true := covers_shift hpad (Nat.le_refl 16)
  have hslot := ht.extends_.covers hs
  refine (writeWord_sound hfirst _).bind (linkOver_writesOnly pad target false t) fun _ u hu => ?_
  refine (writeWord_sound (hu.covers hsecond) _).bind (writeWord_writesOnly (pad.shift 8) _ u)
    fun _ v hv => ?_
  exact writeWord_sound (hv.covers (hu.covers hslot)) _

theorem linkFar_sound (w : PointerWord) (hs : s.covers slot 8 = true)
    (hm : target.segment.message = slot.segment.message) : Sound (linkFar slot target w) s := by
  refine Outcome.bind_of (outcome_allocateHere target.segment 8 s) (fun _ _ he => he.2) ?_
  rintro pad? t (⟨rfl, rfl⟩ | ⟨pad, rfl, _, ht⟩)
  · exact linkDouble_sound w hs
  · have hsize : target.segment.message < s.messages.size := by
      rw [hm]
      exact lt_size_of_covers hs
    exact linkSingle_sound w (ht.covers hsize) (ht.extends_.covers hs)

theorem link_sound (w : PointerWord) (hs : s.covers slot 8 = true)
    (hm : target.segment.message = slot.segment.message) : Sound (link slot target w) s := by
  unfold link
  split
  · exact writeWord_sound hs _
  · exact linkFar_sound w hs hm

end Store

theorem ListView.Inside.measurable {s : Store} {v : ListView} (hv : s.Valid) (h : v.Inside s) :
    v.isMeasurable = true := by
  cases v with
  | absent => rfl
  | backed loc len elem shape =>
      cases elem with
      | composite =>
          obtain ⟨_, _, tag, rfl, hc⟩ := h
          have hlt := hv.address_lt hc
          refine decide_eq_true ⟨Nat.le_add_left 8 _, ?_⟩
          change len * shape.bytes < 0x100000000
          omega
      | _ => rfl

theorem ListView.start?_segment {v : ListView} {target : Location} (h : v.start? = some target) :
    ∃ loc, v.loc? = some loc ∧ target.segment = loc.segment := by
  unfold ListView.start? at h
  split at h
  · cases h
  · cases h
    exact ⟨_, rfl, rfl⟩
  · cases h
    exact ⟨_, rfl, rfl⟩

theorem Store.linkList_sound {s : Store} {slot : Location} {v : ListView} (hv : s.Valid)
    (hs : s.covers slot 8 = true) (hin : v.Inside s)
    (hm : ∀ l, v.loc? = some l → l.segment.message = slot.segment.message) :
    Sound (linkList slot v) s := by
  unfold linkList
  split
  · rename_i target htarget
    obtain ⟨loc, hloc, hseg⟩ := ListView.start?_segment htarget
    rw [if_pos (hin.measurable hv)]
    exact link_sound _ hs (by rw [hseg, hm loc hloc])
  · exact writeWord_sound hs _

namespace Copy

def Careful (w : Writer) : Prop :=
  ∀ slot p st, st.store.Valid → st.store.covers slot 8 = true → p.Inside st.store →
    Sound (w slot p) st

theorem spend_sound (words : Nat) (st : CopyState) : Sound (spend words) st :=
  (outcome_spend words st).mono (fun _ _ _ => trivial) fun _ _ he => ⟨_, he.1⟩

variable {deeper : Writer}

theorem outcome_pointerQuery {f : Store → Except Abort Pointer} {P : Pointer → Prop}
    {st : CopyState} (h : Answers (f st.store) P failed) :
    Outcome (onStore (query f)) st (fun p t => t = st ∧ P p) fun e _ => failed e :=
  (outcome_onQuery f st).mono (fun _ _ hp => ⟨hp.1, h.of_ok hp.2⟩) fun _ _ he => h.of_error he.2

theorem cloneSlot_sound (hc : Careful deeper) {slot : Location} {p : Pointer} {st : CopyState}
    (hv : st.store.Valid) (hs : st.store.covers slot 8 = true) (hp : p.Inside st.store) :
    Sound (cloneSlot deeper slot p) st := by
  unfold cloneSlot
  split
  · exact hc slot p st hv hs hp
  · exact (writeWord_sound hs _).on_store

theorem cloneSlots_sound (hw : Atomic deeper) (hc : Careful deeper) {slots : Location}
    {src : StructView} {j n : Nat} {st : CopyState} (hv : st.store.Valid)
    (hs : st.store.covers (slots.shift (j * 8)) (n * 8) = true) :
    Sound (cloneSlots deeper slots src j n) st := by
  induction n generalizing j st with
  | zero => exact .pure () st
  | succ n ih =>
      have hslot : st.store.covers (slots.shift (j * 8)) 8 = true :=
        covers_take hs (by omega)
      have hrest : st.store.covers (slots.shift ((j + 1) * 8)) (n * 8) = true :=
        covers_within hs (by omega)
      unfold cloneSlots
      refine Outcome.bind (outcome_pointerQuery (src.pointerAt_answers j st.store)) ?_
      rintro p t ⟨rfl, hp⟩
      refine (cloneSlot_sound hc hv hslot hp.1).bind (cloneSlot_confined hw _ p t) ?_
      intro _ u hu
      exact ih (hu.valid hv) (hu.covers hrest)

theorem pastePrefix_sound {dst : Location} {src : Option Location} {n : Nat} {s : Store}
    (hd : s.covers dst n = true) (hs : ∀ l, src = some l → s.covers l n = true) :
    Sound (pastePrefix dst src n) s := by
  cases src with
  | none => exact .pure () s
  | some l => exact copyBytes_sound hd (hs l rfl)

theorem fillData_sound {dst : Location} {space : Nat} {src : StructView} {s : Store}
    (hv : s.Valid) (hd : s.covers dst space = true) (hs : src.Inside s) :
    Sound (fillData dst space src) s := by
  have hprefix : s.covers dst (min space src.shape.data) = true :=
    covers_take hd (Nat.min_le_left _ _)
  have hrest : s.covers (dst.shift (min space src.shape.data))
      (space - min space src.shape.data) = true :=
    covers_shift hd (by omega)
  have hsrc (l : Location) (hl : src.loc? = some l) :
      s.covers l (min space src.shape.data) = true :=
    covers_take (hs.data hl) (Nat.min_le_right _ _)
  unfold fillData
  refine (pastePrefix_sound hprefix hsrc).bind (pastePrefix_overwrites dst _ _ s) ?_
  intro _ t ht
  exact clear_sound (ht.1.valid hv) (ht.1.covers hrest)

theorem fillSlots_sound (hw : Atomic deeper) (hc : Careful deeper) {slots : Location}
    {count : Nat} {src : StructView} {st : CopyState} (hv : st.store.Valid)
    (hs : st.store.covers slots (count * 8) = true) :
    Sound (fillSlots deeper slots count src) st := by
  have hprefix : st.store.covers (slots.shift (0 * 8)) (min count src.shape.slots.toNat * 8) = true :=
    covers_shift hs (by omega)
  have hrest : st.store.covers (slots.shift (min count src.shape.slots.toNat * 8))
      ((count - min count src.shape.slots.toNat) * 8) = true :=
    covers_shift hs (by omega)
  unfold fillSlots
  refine (cloneSlots_sound hw hc hv hprefix).bind (cloneSlots_confined hw slots src 0 _ st) ?_
  intro _ t ht
  exact (clear_sound (ht.valid hv) (ht.covers hrest)).on_store

theorem fillWith_sound (hw : Atomic deeper) (hc : Careful deeper) {dst src : StructView}
    {st : CopyState} (hv : st.store.Valid) (hd : dst.Inside st.store) (hs : src.Inside st.store) :
    Sound (fillWith deeper dst src) st := by
  cases dst with
  | absent => exact .pure () st
  | backed loc shape member =>
      have hdata : st.store.covers loc shape.data = true :=
        covers_take hd.2 (Nat.le_add_right _ _)
      have hslots : st.store.covers (loc.shift shape.data) (shape.slots.toNat * 8) = true :=
        covers_shift hd.2 (Nat.le_refl _)
      unfold fillWith
      have hspend : Confined loc.segment.message untouched (spend (src.shape.bytes / 8)) := .spend _
      refine (spend_sound _ st).bind (hspend st) fun _ t ht => ?_
      refine (fillData_sound (ht.valid hv) (ht.covers hdata) (hs.mono ht)).on_store.bind
        (fillData_confined loc shape.data src t) fun _ u hu => ?_
      exact fillSlots_sound hw hc (hu.valid (ht.valid hv)) (hu.covers (ht.covers hslots))

theorem fillMembers_sound (hw : Atomic deeper) (hc : Careful deeper) {loc : Location}
    {len : Nat} {shape : StructShape} {src : ListView} {i n : Nat} {st : CopyState}
    (hv : st.store.Valid) (hd : (ListView.backed loc len .composite shape).Inside st.store)
    (hs : src.Inside st.store) :
    Sound (fillMembers deeper (.backed loc len .composite shape) src i n) st := by
  induction n generalizing i st with
  | zero => exact .pure () st
  | succ n ih =>
      unfold fillMembers
      refine (fillWith_sound hw hc hv (hd.member i) (hs.member i)).bind
        (fillMember_confined hw loc len shape i (src.member i) st) fun _ t ht => ?_
      exact ih (ht.valid hv) (hd.mono ht) (hs.mono ht)

theorem cloneElements_sound (hw : Atomic deeper) (hc : Careful deeper) {loc : Location}
    {len : Nat} {shape : StructShape} {src : ListView} {i n : Nat}
    {st : CopyState} (hv : st.store.Valid)
    (hd : (ListView.backed loc len .pointer shape).Inside st.store) :
    Sound (cloneElements deeper (.backed loc len .pointer shape) src i n) st := by
  induction n generalizing i st with
  | zero => exact .pure () st
  | succ n ih =>
      unfold cloneElements
      refine Outcome.bind (outcome_pointerQuery (src.pointerAt_answers i st.store)) ?_
      rintro p t ⟨rfl, hp⟩
      have hone : Sound (cloneElement deeper ((ListView.backed loc len .pointer shape).slot? i) p) t := by
        unfold cloneElement
        split
        · rename_i slot hslot
          split
          · exact hc slot p t hv (hd.slot hslot) hp.1
          · exact .pure () t
        · exact .pure () t
      refine hone.bind (cloneElement_confined hw loc len shape i p t) fun _ u hu => ?_
      exact ih (hu.valid hv) (hd.mono hu)

theorem inside_after {α : Type} {m : Nat} {own : Location → Prop} {act : CopyM α} {v : ListView}
    {st : CopyState} (h : Sound act st) (hc : Confined m own act) (hin : v.Inside st.store) :
    Outcome (act >>= fun _ => pure v) st (fun w t => w.Inside t.store) fun e _ => failed e :=
  Outcome.bind_of ((hc st).and h) (fun _ _ he => he.2) fun _ _ ht => Outcome.pure (hin.mono ht.1)

theorem cloneListWith_inside (hw : Atomic deeper) (hc : Careful deeper) {r : SegmentRef}
    {src : ListView} {st : CopyState} (hv : st.store.Valid) (hs : src.Inside st.store)
    (hm : r.message < st.store.messages.size) :
    Outcome (cloneListWith deeper r src) st (fun v t => v.Inside t.store) fun e _ => failed e := by
  have hover (t : CopyState) (_ : t.store = st.store) : failed (.failure .overBudget) := ⟨_, rfl⟩
  unfold cloneListWith
  split
  · refine outcome_charged (ListView.outcome_allocateComposite r src.shape src.length st.store)
      hover (fun _ _ he => (he.2 hm).2) ?_
    rintro v t ⟨tag, u, rfl, henc, hfits, ht⟩
    have hin := ht.inside hm (StructShape.regular_roundUp henc)
      (ListView.compositeFits_length hfits)
    exact inside_after (fillMembers_sound hw hc (ht.extends_.valid hv) hin (hs.mono ht.extends_))
      (fillMembers_confined hw _ _ _ src 0 _) hin
  · refine outcome_charged (ListView.outcome_allocate r .pointer src.length st.store) hover ?_ ?_
    · rintro e t ⟨_, hf | ⟨hp, _⟩⟩
      · exact hf
      · cases hp
    · rintro v t ⟨l, rfl, hne, hlen, ht⟩
      have hin := ht.list_inside hm hne hlen
      exact inside_after (cloneElements_sound hw hc (ht.extends_.valid hv) hin)
        (cloneElements_confined hw _ _ _ src 0 _) hin
  · rename_i hcomp _
    refine outcome_charged (ListView.outcome_allocate r src.element src.length st.store) hover
      ?_ ?_
    · rintro e t ⟨_, hf | ⟨hp, _⟩⟩
      · exact hf
      · exact absurd hp hcomp
    · rintro v t ⟨l, rfl, hne, hlen, ht⟩
      have hin := ht.list_inside hm hne hlen
      have hsize : (ListView.backed l src.length src.element .empty).contentSize
          = src.contentSize := by
        rw [ListView.contentSize_plain hcomp]
        exact ListView.contentSize_plain hne
      have hfill : Sound (fillContent (.backed l src.length src.element .empty) src) t.store := by
        refine pastePrefix_sound (hin.content rfl) fun k hk => ?_
        rw [hsize]
        exact (hs.mono ht.extends_).content hk
      exact inside_after hfill.on_store (fillContent_confined _ _ _ _ src) hin

theorem cloneStruct_sound (hw : Atomic deeper) (hc : Careful deeper) {slot : Location}
    {shape : StructShape} {src : StructView} {st : CopyState} (hv : st.store.Valid)
    (hslot : st.store.covers slot 8 = true) (hr : shape.Regular) (hs : src.Inside st.store) :
    Sound (cloneStruct deeper slot shape src) st := by
  unfold cloneStruct
  refine Outcome.bind_of (outcome_onStore (outcome_allocate slot.segment shape.bytes st.store))
    (fun _ _ he => he.1.2) ?_
  rintro l t ⟨ht, _⟩
  have hin := ht.struct_inside (lt_size_of_covers hslot) hr false
  have he := ht.extends_
  refine (fillWith_sound hw hc (he.valid hv) hin (hs.mono he)).bind
    (fillWith_confined hw l shape false src t) fun _ u hu => ?_
  exact (link_sound _ (hu.covers (he.covers hslot)) ht.message).on_store

theorem cloneList_sound (hw : Atomic deeper) (hc : Careful deeper) {slot : Location}
    {src : ListView} {st : CopyState} (hv : st.store.Valid)
    (hslot : st.store.covers slot 8 = true) (hs : src.Inside st.store) :
    Sound (cloneList deeper slot src) st := by
  unfold cloneList
  refine Outcome.bind_of ((cloneListWith_atomic hw slot.segment src st).and
    (cloneListWith_inside hw hc hv hs (lt_size_of_covers hslot))) (fun _ _ he => he.2) ?_
  rintro v t ⟨⟨he, hm⟩, hin⟩
  exact (linkList_sound (he.valid hv) (he.covers hslot) hin hm).on_store

theorem writeWith_careful (hw : Atomic deeper) (hc : Careful deeper) :
    Careful (writeWith deeper) := by
  intro slot p st hv hslot hp
  unfold writeWith
  split
  · exact (writeWord_sound hslot _).on_store
  · exact (writeWord_sound hslot _).on_store
  · exact (writeWord_sound hslot _).on_store
  · unfold writeStructWith
    split
    · exact (writeWord_sound hslot _).on_store
    · split
      · rename_i hshared
        exact (link_sound _ hslot hshared.1).on_store
      · exact cloneStruct_sound hw hc hv hslot hp.1 hp
  · exact (writeWord_sound hslot _).on_store
  · unfold writeListWith
    split
    · rename_i hshared
      refine (linkList_sound hv hslot hp ?_).on_store
      rintro l hl
      cases hl
      exact hshared
    · exact cloneList_sound hw hc hv hslot hp

theorem follow_careful (limit levels : Nat) : Careful (follow limit levels) := by
  induction levels with
  | zero =>
      intro slot p st _ _ _
      exact Outcome.throw ⟨_, rfl⟩
  | succ levels ih => exact writeWith_careful (follow_atomic limit levels) ih

end Copy

theorem pointTo_careful (c : CopyScope) : Careful (pointTo c) :=
  writeWith_careful (follow_atomic c.limit c.levels) (follow_careful c.limit c.levels)

theorem fill_sound (c : CopyScope) {dst src : StructView} {st : CopyState} (hv : st.store.Valid)
    (hd : dst.Inside st.store) (hs : src.Inside st.store) : Sound (fill c dst src) st :=
  fillWith_sound (follow_atomic c.limit c.levels) (follow_careful c.limit c.levels) hv hd hs

end SegmentedMessage
