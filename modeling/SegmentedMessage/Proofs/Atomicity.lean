import SegmentedMessage.Proofs.Confinement

namespace SegmentedMessage

open Store Copy

namespace Store

def WritesOnly {α : Type} (slot : Location) (act : StoreM α) : Prop :=
  ∀ s, Outcome act s (fun _ t => s.Extends slot.segment.message (slot.Extent 8) t)
    fun _ t => s.Extends slot.segment.message untouched t

def WritesAt {α : Type} (slot : Option Location) (act : StoreM α) : Prop :=
  match slot with
  | some slot => WritesOnly slot act
  | none => ∀ s, Outcome act s (fun _ _ => False) fun _ t => t = s

theorem writeWord_writesOnly (slot : Location) (w : PointerWord) :
    WritesOnly slot (writeWord slot w) := by
  intro s
  refine (outcome_writeWord slot w s).mono ?_ ?_
  · rintro _ t ⟨ht, _⟩
    simpa only [LittleEndian.length_encode] using ht.extends_
  · rintro e t ⟨rfl, _⟩
    exact .refl _ _ t

theorem WritesOnly.onward {slot l : Location} {α : Type} {act : StoreM α} (h : WritesOnly slot act)
    (hs : slot.segment = l.segment) (hle : l.address ≤ slot.address) (s : Store) :
    Outcome act s (fun _ t => s.Extends slot.segment.message l.Onward t)
      fun _ t => s.Extends slot.segment.message l.Onward t := by
  refine (h s).mono ?_ fun _ _ ht => ht.of_untouched
  intro _ t ht
  exact ht.weaken fun k _ _ hk => .of_extent hk hs hle

theorem WritesOnly.after {slot : Location} {α : Type} {act : StoreM α} {s t : Store}
    (h : WritesOnly slot act) (ht : s.Extends slot.segment.message untouched t) :
    Outcome act t (fun _ u => s.Extends slot.segment.message (slot.Extent 8) u)
      fun _ u => s.Extends slot.segment.message untouched u :=
  (h t).mono (fun _ _ hu => ht.of_untouched.trans hu) fun _ _ hu => ht.trans hu

theorem linkNear_writesOnly (slot target : Location) (w : PointerWord) :
    WritesOnly slot (linkNear slot target w) :=
  writeWord_writesOnly slot _

theorem linkOver_writesOnly (slot pad : Location) (double : Bool) :
    WritesOnly slot (linkOver slot pad double) :=
  writeWord_writesOnly slot _

theorem linkSingle_writesOnly {slot pad target : Location} {w : PointerWord} {s t : Store}
    (hm : pad.segment.message = slot.segment.message) (hf : s.Fresh pad)
    (h : s.Extends slot.segment.message untouched t) :
    Outcome (linkSingle slot pad target w) t
      (fun _ u => s.Extends slot.segment.message (slot.Extent 8) u)
      fun _ u => s.Extends slot.segment.message untouched u := by
  have hpad := (linkNear_writesOnly pad target w).onward (l := pad) rfl (Nat.le_refl _) t
  rw [hm] at hpad
  refine Outcome.bind_of hpad ?_ ?_
  · intro _ u hu
    exact h.into_fresh hf hu fun _ hk => hk
  · intro _ u hu
    exact (linkOver_writesOnly slot pad false).after (h.into_fresh hf hu fun _ hk => hk)

theorem linkDouble_writesOnly (slot target : Location) (w : PointerWord) :
    WritesOnly slot (linkDouble slot target w) := by
  intro s
  refine Outcome.bind_of (outcome_allocate slot.segment 16 s) ?_ ?_
  · rintro e t ⟨rfl, _⟩
    exact .refl _ _ t
  · intro pad t ht
    have hpad : pad.segment.message = slot.segment.message := ht.message
    have step (u : Store) (hu : s.Extends slot.segment.message untouched u)
        (act : StoreM Unit) (at_ : Location) (hat : WritesOnly at_ act)
        (hs : at_.segment = pad.segment) (hle : pad.address ≤ at_.address) :
        Outcome act u (fun _ v => s.Extends slot.segment.message untouched v)
          fun _ v => s.Extends slot.segment.message untouched v := by
      have h := hat.onward (l := pad) hs hle u
      rw [hs, hpad] at h
      exact h.mono (fun _ _ hv => hu.into_fresh ht.fresh hv fun _ hk => hk)
        fun _ _ hv => hu.into_fresh ht.fresh hv fun _ hk => hk
    refine Outcome.bind (step t ht.extends_ _ pad (linkOver_writesOnly pad target false) rfl
      (Nat.le_refl _)) fun _ u hu => ?_
    refine Outcome.bind (step u hu _ (pad.shift 8) (writeWord_writesOnly _ _) rfl
      (Nat.le_add_right _ _)) fun _ v hv => ?_
    exact (linkOver_writesOnly slot pad true).after hv

theorem linkFar_writesOnly {slot target : Location} (w : PointerWord)
    (hm : target.segment.message = slot.segment.message) :
    WritesOnly slot (linkFar slot target w) := by
  intro s
  refine Outcome.bind_of (outcome_allocateHere target.segment 8 s) ?_ ?_
  · rintro e t ⟨rfl, _⟩
    exact .refl _ _ t
  · rintro pad? t (⟨rfl, rfl⟩ | ⟨pad, rfl, hpad, ht⟩)
    · exact linkDouble_writesOnly slot target w t
    · have he := ht.extends_
      rw [hm] at he
      exact linkSingle_writesOnly (ht.message.trans hm) ht.fresh he

theorem link_writesOnly {slot target : Location} (w : PointerWord)
    (hm : target.segment.message = slot.segment.message) :
    WritesOnly slot (link slot target w) := by
  unfold link
  split
  · exact linkNear_writesOnly slot target w
  · exact linkFar_writesOnly w hm

theorem linkList_writesOnly {slot : Location} {v : ListView}
    (hm : ∀ l, v.loc? = some l → l.segment.message = slot.segment.message) :
    WritesOnly slot (linkList slot v) := by
  unfold linkList
  split
  · rename_i target htarget
    split
    · apply link_writesOnly
      unfold ListView.start? at htarget
      split at htarget
      · cases htarget
      · rename_i loc _ _ _
        cases htarget
        exact hm loc rfl
      · cases htarget
        exact hm _ rfl
    · intro s
      exact Outcome.throw (.refl _ _ s)
  · exact writeWord_writesOnly slot .null

end Store

namespace Copy

variable {deeper : Writer}

theorem atomic_of_store {slot : Location} {act : StoreM Unit} (h : WritesOnly slot act)
    (st : CopyState) : Outcome (onStore act) st
      (fun _ t => st.store.Extends slot.segment.message (slot.Extent 8) t.store)
      fun _ t => st.store.Extends slot.segment.message untouched t.store :=
  (outcome_onStore (h st.store)).mono (fun _ _ ht => ht.1) fun _ _ ht => ht.1

theorem atomic_of_store_after {slot : Location} {act : StoreM Unit} (h : WritesOnly slot act)
    {s : Store} {st : CopyState} (hs : s.Extends slot.segment.message untouched st.store) :
    Outcome (onStore act) st
      (fun _ t => s.Extends slot.segment.message (slot.Extent 8) t.store)
      fun _ t => s.Extends slot.segment.message untouched t.store :=
  (outcome_onStore (h.after hs)).mono (fun _ _ ht => ht.1) fun _ _ ht => ht.1

theorem cloneStruct_atomic (hw : Atomic deeper) (slot : Location) (shape : StructShape)
    (src : StructView) (st : CopyState) : Outcome (cloneStruct deeper slot shape src) st
      (fun _ t => st.store.Extends slot.segment.message (slot.Extent 8) t.store)
      fun _ t => st.store.Extends slot.segment.message untouched t.store := by
  unfold cloneStruct
  refine Outcome.bind_of (outcome_onStore (outcome_allocate slot.segment shape.bytes st.store)) ?_ ?_
  · rintro e t ⟨⟨ht, _⟩, _⟩
    rw [ht]
    exact .refl _ _ _
  · rintro target t ⟨ht, _⟩
    have hfill := fillWith_confined hw target shape false src t
    rw [ht.message] at hfill
    have hinto (u : CopyState) (hu : t.store.Extends slot.segment.message
        (target.Extent shape.bytes) u.store) :
        st.store.Extends slot.segment.message untouched u.store :=
      ht.extends_.into_fresh ht.fresh hu fun _ hk => hk.onward
    refine Outcome.bind_of hfill (fun _ u hu => hinto u hu) fun _ u hu => ?_
    exact atomic_of_store_after (link_writesOnly _ ht.message) (hinto u hu)

theorem cloneList_atomic (hw : Atomic deeper) (slot : Location) (src : ListView)
    (st : CopyState) : Outcome (cloneList deeper slot src) st
      (fun _ t => st.store.Extends slot.segment.message (slot.Extent 8) t.store)
      fun _ t => st.store.Extends slot.segment.message untouched t.store := by
  unfold cloneList
  refine Outcome.bind (cloneListWith_atomic hw slot.segment src st) ?_
  rintro v t ⟨ht, hm⟩
  exact atomic_of_store_after (linkList_writesOnly hm) ht

theorem writeStructWith_atomic (hw : Atomic deeper) (slot loc : Location) (shape : StructShape)
    (member : Bool) (st : CopyState) : Outcome (writeStructWith deeper slot loc shape member) st
      (fun _ t => st.store.Extends slot.segment.message (slot.Extent 8) t.store)
      fun _ t => st.store.Extends slot.segment.message untouched t.store := by
  unfold writeStructWith
  split
  · exact atomic_of_store (writeWord_writesOnly slot _) st
  · split
    · rename_i hshared
      exact atomic_of_store (link_writesOnly _ hshared.1) st
    · exact cloneStruct_atomic hw slot shape _ st

theorem writeListWith_atomic (hw : Atomic deeper) (slot loc : Location) (len : Nat)
    (elem : ElementKind) (shape : StructShape) (st : CopyState) :
    Outcome (writeListWith deeper slot loc (.backed loc len elem shape)) st
      (fun _ t => st.store.Extends slot.segment.message (slot.Extent 8) t.store)
      fun _ t => st.store.Extends slot.segment.message untouched t.store := by
  unfold writeListWith
  split
  · rename_i hshared
    refine atomic_of_store (linkList_writesOnly ?_) st
    intro l hl
    cases hl
    exact hshared
  · exact cloneList_atomic hw slot _ st

theorem writeWith_atomic (hw : Atomic deeper) : Atomic (writeWith deeper) := by
  intro slot p st
  unfold writeWith
  split
  · exact atomic_of_store (writeWord_writesOnly slot _) st
  · exact atomic_of_store (writeWord_writesOnly slot _) st
  · exact atomic_of_store (writeWord_writesOnly slot _) st
  · exact writeStructWith_atomic hw slot _ _ _ st
  · exact atomic_of_store (writeWord_writesOnly slot _) st
  · exact writeListWith_atomic hw slot _ _ _ _ st

theorem follow_atomic (limit levels : Nat) : Atomic (follow limit levels) := by
  induction levels with
  | zero =>
      intro slot p st
      exact Outcome.throw (.refl _ _ _)
  | succ levels ih => exact writeWith_atomic ih

end Copy

theorem pointTo_atomic (c : CopyScope) : Atomic (pointTo c) :=
  writeWith_atomic (follow_atomic c.limit c.levels)

theorem assign_writesOnly (slot : Location) (p : Pointer) : WritesOnly slot (assign slot p) := by
  intro s
  exact outcome_withinLimits (pointTo_atomic _ slot p _)

theorem StructView.assignSlot_writesAt (v : StructView) (i : Nat) (p : Pointer) :
    WritesAt (v.slot? i) (v.assignSlot i p) := by
  unfold StructView.assignSlot
  cases v.slot? i with
  | some slot => exact assign_writesOnly slot p
  | none => exact fun s => Outcome.throw rfl

theorem ListView.assignSlot_writesAt (v : ListView) (i : Nat) (p : Pointer) :
    WritesAt (v.slot? i) (v.assignSlot i p) := by
  unfold ListView.assignSlot
  cases v.slot? i with
  | some slot => exact assign_writesOnly slot p
  | none => exact fun s => Outcome.throw rfl

theorem assignRoot_writesOnly (msg : Nat) (p : Pointer) :
    WritesOnly (rootSlot msg) (assignRoot msg p) := by
  intro s
  apply outcome_whenOpen
  · intro _
    exact .refl _ _ s
  · intro _
    refine Outcome.bind (P := fun _ t => t = s) ?_ ?_
    · exact outcome_query (fun _ _ => rfl) fun _ _ => .refl _ _ s
    · rintro _ t rfl
      exact assign_writesOnly (rootSlot msg) p t

theorem allocateRoot_writesOnly (r : SegmentRef) (shape : StructShape) :
    WritesOnly (rootSlot r.message) (StructView.allocateRoot r shape) := by
  intro s
  refine Outcome.bind_of (StructView.outcome_allocate r shape s) ?_ ?_
  · rintro e t ⟨rfl, _⟩
    exact .refl _ _ t
  · rintro v t ⟨l, _, _, ht⟩
    refine Outcome.map ((assignRoot_writesOnly r.message (.struct v)).after ?_) fun _ _ hu => hu
    exact ht.extends_

/-- Whatever a pointer leads to, assigning it changes no old byte outside the slot, and a failed
assignment changes no old byte. -/
theorem assignment_changes_slot_only (p : Pointer) :
    (∀ c, ∀ slot st, Outcome (pointTo c slot p) st
      (fun _ t => st.store.Extends slot.segment.message (slot.Extent 8) t.store)
      fun _ t => st.store.Extends slot.segment.message untouched t.store) ∧
    (∀ (v : StructView) i, WritesAt (v.slot? i) (v.assignSlot i p)) ∧
    (∀ (v : ListView) i, WritesAt (v.slot? i) (v.assignSlot i p)) ∧
    (∀ msg, WritesOnly (rootSlot msg) (assignRoot msg p)) ∧
    ∀ r shape, WritesOnly (rootSlot r.message) (StructView.allocateRoot r shape) :=
  ⟨fun c slot st => pointTo_atomic c slot p st, fun v i => v.assignSlot_writesAt i p,
    fun v i => v.assignSlot_writesAt i p, fun msg => assignRoot_writesOnly msg p,
    allocateRoot_writesOnly⟩

end SegmentedMessage
