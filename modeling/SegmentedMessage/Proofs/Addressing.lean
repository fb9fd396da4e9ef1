import SegmentedMessage.Proofs.Containment
import SegmentedMessage.Proofs.Decoding
import SegmentedMessage.Proofs.FixedWidth
import SegmentedMessage.Proofs.Target

namespace SegmentedMessage

open Store Copy

theorem offsetTo_near {slot target : Nat} (hs : slot + 8 ≤ largestSegment)
    (ht : target ≤ largestSegment) :
    -0x10000000 ≤ offsetTo slot target ∧ offsetTo slot target < 0x10000000 := by
  obtain ⟨hlo, hhi⟩ := offsetTo_bounds slot target
  rw [largestSegment] at hs ht
  omega

theorem offset_survives {slot target : UInt32} (hs : slot.toNat % 8 = 0)
    (hslot : slot.toNat + 8 ≤ largestSegment) (ht : Aligned target.toNat) (w : PointerWord) :
    let off := offsetTo slot.toNat target.toNat
    FixedWidth.setOffset w (FixedWidth.offsetTo slot target) = w.setOffset off ∧
      (w.setOffset off).offset = off ∧
      targetFrom slot.toNat (w.setOffset off) = target.toNat ∧
      (FixedWidth.targetFrom slot (w.setOffset off)).toInt = target.toNat := by
  obtain ⟨hlo, hhi⟩ := offsetTo_near hslot ht.2
  have hback := targetFrom_offsetTo ⟨hs, Nat.le_trans (Nat.le_add_right _ 8) hslot⟩ ht w
  refine ⟨?_, PointerWord.offset_setOffset w (by omega) (by omega), hback, ?_⟩
  · rw [FixedWidth.setOffset_eq, FixedWidth.toInt_offsetTo]
  · rw [FixedWidth.toInt_targetFrom, hback]

theorem pad_survives {pad : UInt32} (h : Aligned pad.toNat) (double : Bool) (seg : UInt32) :
    let w := PointerWord.ofFar double (Layout.wordIndex pad.toNat) seg.toNat
    FixedWidth.ofFar double (FixedWidth.wordIndex pad) seg = w ∧
      Layout.wordAddress w.padWord = pad.toNat ∧
      FixedWidth.wordAddress (FixedWidth.padWord w) = pad ∧
      w.isDouble = double ∧ FixedWidth.isDouble w = double ∧ w.padSegment = seg.toNat := by
  have hpad := PointerWord.padWord_ofFar double h.wordIndex_lt seg.toNat
  have hdouble := PointerWord.isDouble_ofFar double (Layout.wordIndex pad.toNat) seg.toNat
  refine ⟨FixedWidth.ofFar_eq double _ seg, ?_, ?_, hdouble, ?_,
    PointerWord.padSegment_ofFar double _ seg.toNat_lt⟩
  · rw [hpad, h.wordAddress]
  · have hindex : FixedWidth.padWord
        (.ofFar double (Layout.wordIndex pad.toNat) seg.toNat) = FixedWidth.wordIndex pad := by
      rw [← UInt32.toNat_inj, FixedWidth.toNat_padWord, hpad, FixedWidth.toNat_wordIndex]
    rw [hindex, FixedWidth.wordAddress_wordIndex h.1]
  · rw [FixedWidth.isDouble_eq, hdouble]

namespace PointerWord

theorem Direct.setOffset {w : PointerWord} (h : w.Direct) (off : Int) : (w.setOffset off).Direct :=
  ⟨h.near_setOffset off, by rw [kind_setOffset]; exact h.visible⟩

theorem Direct.isNull {w : PointerWord} (h : w.Direct) : w.isNull = false :=
  h.visible.elim isNull_of_kind isNull_of_high

end PointerWord

namespace ListView

theorem word_eq (v : ListView) : ∃ n, v.word = .ofList 0 v.element n := by
  unfold word
  cases v.element with
  | composite => exact ⟨_, rfl⟩
  | _ => exact ⟨_, rfl⟩

theorem direct_word (v : ListView) : v.word.Direct := by
  obtain ⟨n, hn⟩ := v.word_eq
  rw [hn]
  exact PointerWord.direct_ofList 0 v.element n

theorem kind_word (v : ListView) : v.word.kind = .list := by
  obtain ⟨n, hn⟩ := v.word_eq
  rw [hn, PointerWord.kind_ofList]

end ListView

/-- The word for content, before it has an offset. An empty struct has a word of its own, and null
tells what nothing backs. -/
def Pointer.word? : Pointer → Option PointerWord
  | .struct (.backed _ shape _) => if shape.isEmpty then none else some (.ofStruct 0 shape)
  | .list (.backed loc len elem shape) => some (ListView.backed loc len elem shape).word
  | _ => none

theorem Pointer.direct_word {s : Store} {p : Pointer} {w : PointerWord} (hp : p.Inside s)
    (h : p.word? = some w) : w.Direct := by
  match p, hp, h with
  | .struct (.backed _ shape _), hp, h =>
    cases hempty : shape.isEmpty with
    | true =>
      rw [Pointer.word?, if_pos hempty] at h
      cases h
    | false =>
      rw [Pointer.word?, hempty] at h
      cases h
      exact PointerWord.direct_ofStruct hp.1 hempty 0
  | .list (.backed _ _ _ _), _, h =>
    cases h
    exact ListView.direct_word _

namespace Store

/-- The word that tells the content behind a slot: the slot's own, that of a landing pad, or the tag
after one. -/
def contentWord (s : Store) (slot : Location) : PointerWord :=
  let w := s.wordAt slot
  let pad := w.pad slot.segment.message
  if w.kind = .far then s.wordAt (if w.isDouble then pad.shift 8 else pad) else w

variable {s t : Store} {slot pad target : Location} {w : PointerWord}

theorem contentWord_near (h : (s.wordAt slot).kind ≠ .far) :
    s.contentWord slot = s.wordAt slot :=
  if_neg h

theorem contentWord_pad (h : (s.wordAt slot).kind = .far) :
    s.contentWord slot = s.wordAt (if (s.wordAt slot).isDouble then
      ((s.wordAt slot).pad slot.segment.message).shift 8
      else (s.wordAt slot).pad slot.segment.message) :=
  if_pos h

theorem locate_contentWord (s : Store) (slot : Location) :
    Answers (s.locate slot (s.wordAt slot))
      (fun x => x.word = s.contentWord slot ∧ x.word.kind ≠ .far) failed := by
  refine (locate_follows s slot _).mono (fun x hx => ?_) fun _ h => h
  cases hx with
  | near hnear => exact ⟨(contentWord_near hnear).symm, hnear⟩
  | single pad hfar hsingle hpad hland =>
    subst hpad
    rw [contentWord_pad hfar, hsingle]
    exact ⟨rfl, hland⟩
  | double pad hfar hdouble hpad htag =>
    subst hpad
    rw [contentWord_pad hfar, hdouble]
    exact ⟨rfl, htag⟩

theorem contentWord_ofFar {double : Bool} (hm : pad.segment.message = slot.segment.message)
    (ha : Aligned pad.address) (hid : pad.segment.index < 0x100000000)
    (hw : s.wordAt slot = .ofFar double (Layout.wordIndex pad.address) pad.segment.index) :
    s.contentWord slot = s.wordAt (if double then pad.shift 8 else pad) := by
  have hpad : (s.wordAt slot).pad slot.segment.message = pad := by
    rw [hw, PointerWord.pad, PointerWord.padSegment_ofFar _ _ hid,
      PointerWord.padWord_ofFar _ ha.wordIndex_lt, ha.wordAddress, ← hm]
  have hdouble : (s.wordAt slot).isDouble = double := by
    rw [hw, PointerWord.isDouble_ofFar]
  rw [contentWord_pad (by rw [hw, PointerWord.kind_ofFar]), hpad, hdouble]

/-- The slot is not null, and the word that tells its content is of kind `k`, neither null nor far. -/
structure Marks (s : Store) (slot : Location) (k : PointerWord.Kind) : Prop where
  visible : (s.wordAt slot).isNull = false
  kind : (s.contentWord slot).kind = k
  direct : (s.contentWord slot).Direct

theorem Marks.near (hw : w.Direct) (h : s.wordAt slot = w) : s.Marks slot w.kind := by
  subst h
  have hcontent := contentWord_near hw.near
  exact ⟨hw.isNull, by rw [hcontent], by rwa [hcontent]⟩

theorem Marks.far {double : Bool} (hw : w.Direct) (hm : pad.segment.message = slot.segment.message)
    (ha : Aligned pad.address) (hid : pad.segment.index < 0x100000000)
    (hslot : s.wordAt slot = .ofFar double (Layout.wordIndex pad.address) pad.segment.index)
    (hpad : s.wordAt (if double then pad.shift 8 else pad) = w) : s.Marks slot w.kind := by
  have hcontent := (contentWord_ofFar hm ha hid hslot).trans hpad
  refine ⟨?_, by rw [hcontent], by rwa [hcontent]⟩
  rw [hslot]
  exact isNull_ofFar _ _ _

theorem Linked.marks (h : Linked s slot target w t) (hv : s.Valid) (hw : w.Direct)
    (hm : target.segment.message = slot.segment.message)
    (hids : t.Numbered slot.segment.message) : t.Marks slot w.kind := by
  cases h with
  | near _ _ hwords =>
    obtain ⟨_, hslot⟩ := hwords t (.refl _ _ _)
    rw [← w.kind_setOffset (offsetTo slot.address target.address)]
    exact .near (hw.setOffset _) hslot
  | single pad _ _ hpad _ hwords =>
    obtain ⟨_, hc, hslot, hland⟩ := hwords t (.refl _ _ _)
    have hpm := hpad.message.trans hm
    rw [← w.kind_setOffset (offsetTo pad.address target.address)]
    exact .far (hw.setOffset _) hpm (hpad.address_aligned hv) (hids.index_lt hpm hc) hslot hland
  | double pad _ hpad _ hwords =>
    obtain ⟨_, hc, hslot, _, htag⟩ := hwords t (.refl _ _ _)
    rw [← w.kind_setOffset 0]
    exact .far (hw.setOffset 0) hpad.message (hpad.address_aligned hv)
      (hids.index_lt hpad.message hc) hslot htag

theorem link_marks (hv : s.Valid) (hc : s.covers slot 8 = true)
    (hm : target.segment.message = slot.segment.message) (hw : w.Direct) :
    Outcome (link slot target w) s
      (fun _ t => t.Numbered slot.segment.message → t.Marks slot w.kind) fun _ _ => True :=
  (link_linked hc hm).mono (fun _ _ hl hids => hl.marks hv hw hm hids) fun _ _ _ => trivial

theorem linkList_marks {v : ListView} (hv : s.Valid) (hc : s.covers slot 8 = true)
    (hb : v.isBacked = true) (hm : ∀ l, v.loc? = some l → l.segment.message = slot.segment.message) :
    Outcome (linkList slot v) s
      (fun _ t => t.Numbered slot.segment.message → t.Marks slot .list) fun _ _ => True := by
  unfold linkList
  split
  · rename_i target hstart
    obtain ⟨loc, hloc, hseg⟩ := ListView.start?_segment hstart
    split
    · rw [← v.kind_word]
      exact link_marks hv hc (hseg ▸ hm loc hloc) v.direct_word
    · exact Outcome.throw trivial
  · rename_i hnone
    match v, hb with
    | .backed _ _ elem _, _ => cases elem <;> cases hnone

end Store

namespace Copy

variable {deeper : Writer} {slot loc : Location} {st : CopyState}

theorem cloneListWith_backed (deeper : Writer) (r : SegmentRef) (src : ListView) (st : CopyState) :
    Outcome (cloneListWith deeper r src) st (fun v _ => v.isBacked = true) fun _ _ => True := by
  unfold cloneListWith
  split
  · refine outcome_charged (ListView.outcome_allocateComposite r src.shape src.length st.store)
      (fun _ _ => trivial) (fun _ _ _ => trivial) ?_
    rintro v t ⟨_, _, rfl, _⟩
    exact (Outcome.any _ t).map fun _ _ _ => rfl
  · refine outcome_charged (ListView.outcome_allocate r .pointer src.length st.store)
      (fun _ _ => trivial) (fun _ _ _ => trivial) ?_
    rintro v t ⟨_, rfl, _⟩
    exact (Outcome.any _ t).map fun _ _ _ => rfl
  · refine outcome_charged (ListView.outcome_allocate r src.element src.length st.store)
      (fun _ _ => trivial) (fun _ _ _ => trivial) ?_
    rintro v t ⟨_, rfl, _⟩
    exact (Outcome.any _ t).map fun _ _ _ => rfl

def Marking (slot : Location) (k : PointerWord.Kind) (act : CopyM Unit) (st : CopyState) : Prop :=
  Outcome act st (fun _ t => t.store.Numbered slot.segment.message → t.store.Marks slot k)
    fun _ _ => True

theorem Marking.of_store {k : PointerWord.Kind} {act : StoreM Unit}
    (h : Outcome act st.store (fun _ t => t.Numbered slot.segment.message → t.Marks slot k)
      fun _ _ => True) : Marking slot k (onStore act) st :=
  (outcome_onStore h).mono (fun _ _ ht => ht.1) fun _ _ _ => trivial

theorem writeStruct_marks (hw : Atomic deeper) {shape : StructShape} {member : Bool}
    (hv : st.store.Valid) (hc : st.store.covers slot 8 = true) (hr : shape.Regular)
    (hne : shape.isEmpty = false) :
    Marking slot .struct (writeStructWith deeper slot loc shape member) st := by
  have hdirect := PointerWord.direct_ofStruct hr hne 0
  rw [← PointerWord.kind_ofStruct 0 shape, writeStructWith, if_neg (by simp [hne])]
  split
  · rename_i hshared
    exact .of_store (link_marks hv hc hshared.1 hdirect)
  · unfold cloneStruct
    refine Outcome.bind_of (outcome_onStore (outcome_allocate slot.segment shape.bytes st.store))
      (fun _ _ _ => trivial) ?_
    rintro target t ⟨ht, _⟩
    refine Outcome.bind_of (fillWith_confined hw target shape false _ t) (fun _ _ _ => trivial) ?_
    rintro _ u hu
    exact Marking.of_store (link_marks (hu.valid (ht.extends_.valid hv))
      (hu.covers (ht.extends_.covers hc)) ht.message hdirect)

theorem writeList_marks (hw : Atomic deeper) {len : Nat} {elem : ElementKind} {shape : StructShape}
    (hv : st.store.Valid) (hc : st.store.covers slot 8 = true) :
    Marking slot .list (writeListWith deeper slot loc (.backed loc len elem shape)) st := by
  unfold writeListWith
  split
  · rename_i hshared
    refine .of_store (linkList_marks hv hc rfl ?_)
    rintro _ ⟨⟩
    exact hshared
  · unfold cloneList
    refine Outcome.bind_of ((cloneListWith_atomic hw slot.segment _ st).and
      (cloneListWith_backed deeper slot.segment _ st)) (fun _ _ _ => trivial) ?_
    rintro v t ⟨⟨ht, hm⟩, hb⟩
    exact Marking.of_store (linkList_marks (ht.valid hv) (ht.covers hc) hb hm)

theorem writeWith_marks (hw : Atomic deeper) {p : Pointer} {w : PointerWord}
    (hv : st.store.Valid) (hc : st.store.covers slot 8 = true) (hp : p.Inside st.store)
    (hword : p.word? = some w) : Marking slot w.kind (writeWith deeper slot p) st := by
  match p, hp, hword with
  | .struct (.backed loc shape member), hp, hword =>
    cases hempty : shape.isEmpty with
    | true =>
      rw [Pointer.word?, if_pos hempty] at hword
      cases hword
    | false =>
      rw [Pointer.word?, hempty] at hword
      cases hword
      rw [PointerWord.kind_ofStruct]
      exact writeStruct_marks hw hv hc hp.1 hempty
  | .list (.backed loc len elem shape), _, hword =>
    cases hword
    rw [ListView.kind_word]
    exact writeList_marks hw hv hc

end Copy

/-- The offset between any two words of a segment and the place of any landing pad are read back as
they were encoded, in registers too. The word for a struct that is not empty or for a list is neither
null nor far, whatever its offset; so once such a pointer has been written, what tells the content,
in the slot or behind it, is never taken for something else. -/
theorem addresses_survive :
    (∀ slot target : UInt32, slot.toNat % 8 = 0 → slot.toNat + 8 ≤ largestSegment →
      Aligned target.toNat →
      let off := offsetTo slot.toNat target.toNat
      (FixedWidth.offsetTo slot target).toInt = off ∧ -0x10000000 ≤ off ∧ off < 0x10000000 ∧
      ∀ w : PointerWord,
        FixedWidth.setOffset w (FixedWidth.offsetTo slot target) = w.setOffset off ∧
        (w.setOffset off).offset = off ∧
        targetFrom slot.toNat (w.setOffset off) = target.toNat ∧
        (FixedWidth.targetFrom slot (w.setOffset off)).toInt = target.toNat ∧
        (w.setOffset off).kind = w.kind ∧ (w.setOffset off).high = w.high) ∧
    (∀ pad : UInt32, Aligned pad.toNat → ∀ (double : Bool) (seg : UInt32),
      let w := PointerWord.ofFar double (Layout.wordIndex pad.toNat) seg.toNat
      FixedWidth.ofFar double (FixedWidth.wordIndex pad) seg = w ∧
      Layout.wordAddress w.padWord = pad.toNat ∧
      FixedWidth.wordAddress (FixedWidth.padWord w) = pad ∧
      w.isDouble = double ∧ FixedWidth.isDouble w = double ∧ w.padSegment = seg.toNat) ∧
    ∀ σ : Session, Session.Reaches Session.Allows Session.empty σ → ∀ p : Pointer, σ.Holds p →
      ∀ w, p.word? = some w →
        (∀ off, (w.setOffset off).isNull = false ∧ (w.setOffset off).kind ≠ .far) ∧
        ∀ slot, σ.store.covers slot 8 = true → ∀ (c : CopyScope) (budget : Nat) (t : CopyState),
          pointTo c slot p ⟨σ.store, budget⟩ = .ok () t → t.store.Numbered slot.segment.message →
          (∀ x, t.store.locate slot (t.store.wordAt slot) = .ok x →
            x.word = t.store.contentWord slot) ∧
          (t.store.wordAt slot).isNull = false ∧
          (t.store.contentWord slot).kind = w.kind ∧ (t.store.contentWord slot).kind ≠ .far ∧
          (t.store.contentWord slot).isNull = false := by
  refine ⟨fun slot target hs hslot ht => ?_, fun pad h double seg => pad_survives h double seg, ?_⟩
  · obtain ⟨hlo, hhi⟩ := offsetTo_near hslot ht.2
    refine ⟨FixedWidth.toInt_offsetTo slot target, hlo, hhi, fun w => ?_⟩
    obtain ⟨hword, hoffset, htarget, hregister⟩ := offset_survives hs hslot ht w
    exact ⟨hword, hoffset, htarget, hregister, w.kind_setOffset _, rfl⟩
  · intro σ h p hp w hword
    have hsafe : σ.Safe := h.safe Session.safe_empty
    have hinside : p.Inside σ.store := hsafe.holds hp
    have hdirect := Pointer.direct_word hinside hword
    refine ⟨fun off => ⟨hdirect.isNull_setOffset off, hdirect.near_setOffset off⟩, ?_⟩
    intro slot hc c budget t ht hids
    have hrun : Marking slot w.kind (pointTo c slot p) ⟨σ.store, budget⟩ :=
      writeWith_marks (follow_atomic c.limit c.levels) hsafe.valid hc hinside hword
    have hmarks := hrun.of_ok ht hids
    exact ⟨fun x hx => ((locate_contentWord t.store slot).of_ok hx).1, hmarks.visible, hmarks.kind,
      hmarks.direct.near, hmarks.direct.isNull⟩

/-- The last word of the largest segment leads to its first and its first to its end, where a landing
pad could begin. The list is told by the tag of a pad in a third segment. -/
theorem addresses_survive_farthest :
    let σ := (Session.empty.after (.creation (.opened
      [⟨#[0, 0, 0, 0, 0, 0, 0, 0]⟩, ⟨#[1, 0, 0, 0, 66, 0, 0, 0, 1, 2, 3, 4, 5, 6, 7, 8]⟩] []))).after
      (.query (.pointerAt ⟨⟨0, 1⟩, 0⟩))
    let p := Pointer.list (.backed ⟨⟨0, 1⟩, 8⟩ 8 .bits8 .empty)
    let w := PointerWord.ofList 0 .bits8 8
    targetFrom 0x7ffffff8 (w.setOffset (offsetTo 0x7ffffff8 0)) = 0 ∧
    (FixedWidth.targetFrom 0 (w.setOffset (offsetTo 0 0x80000000))).toInt = 0x80000000 ∧
    FixedWidth.wordAddress (FixedWidth.padWord
      (.ofFar true (Layout.wordIndex 0x80000000) 0xffffffff)) = 0x80000000 ∧
    p ∈ σ.views ∧ p.word? = some w ∧
    ∃ t, pointTo (.top 0) (rootSlot 0) p ⟨σ.store, 0⟩ = .ok () t ∧
      (t.store.wordAt (rootSlot 0)).isDouble = true ∧
      (t.store.wordAt (rootSlot 0)).isNull = false ∧
      (t.store.contentWord (rootSlot 0)).kind = .list := by
  intro σ p w
  obtain ⟨hoffsets, hpads, hcontent⟩ := addresses_survive
  have hback := (hoffsets 0x7ffffff8 0 (by decide) (by decide) ⟨by decide, by decide⟩).2.2.2 w
  have hon := (hoffsets 0 0x80000000 (by decide) (by decide) ⟨by decide, by decide⟩).2.2.2 w
  have hpad := hpads 0x80000000 ⟨by decide, by decide⟩ true 0xffffffff
  have hreach : Session.Reaches Session.Allows Session.empty σ :=
    .tail (.single ⟨.creation (.opened _ []), trivial, rfl⟩)
      ⟨.query (.pointerAt ⟨⟨0, 1⟩, 0⟩), trivial, rfl⟩
  have hp : p ∈ σ.views := by decide
  have hwell : Outcome.endsIn (pointTo (.top 0) (rootSlot 0) p) ⟨σ.store, 0⟩
      (fun t => decide (t.store.Numbered 0) && (t.store.wordAt (rootSlot 0)).isDouble) = true := by
    decide +kernel
  obtain ⟨_, t, hrun, hfinal⟩ := Outcome.endsIn_iff.mp hwell
  obtain ⟨hids, hdouble⟩ := Bool.and_eq_true_iff.mp hfinal
  obtain ⟨_, hvisible, hkind, _⟩ := (hcontent σ hreach p (.inr hp) w rfl).2 (rootSlot 0) (by decide)
    (.top 0) 0 t hrun (of_decide_eq_true hids)
  exact ⟨hback.2.2.1, hon.2.2.2.1, hpad.2.2.1, hp, rfl, t, hrun, hdouble, hvisible,
    hkind.trans (by decide)⟩

end SegmentedMessage
