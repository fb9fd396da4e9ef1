import SegmentedMessage.Proofs.HeapCopy

namespace SegmentedMessage

open Store Copy

namespace Heap

variable {H : Heap} {m : Nat} {s t : Store} {p : Pointer}

theorem WellFormed.message_lt (h : H.WellFormed m s) : m < s.messages.size :=
  lt_size_of_covers (h.sound _ h.root).covers

theorem Known.of_object (h : H.Object p) (hp : p.Inside s) : H.Known m s p :=
  ⟨hp, fun _ _ _ => .inl (.inr (.inr (.inr h)))⟩

def Grown (H : Heap) (m : Nat) (p : Pointer) (t : Store) : Prop :=
  ∃ new : Heap, Heap.WellFormed (new ++ H) m t ∧ Known (new ++ H) m t p

def Gives (H : Heap) (m : Nat) (p : Pointer) (t : Store) : Prop :=
  t.Numbered m → H.Grown m p t

theorem Gives.further {new : Heap} (h : Gives (new ++ H) m p t) : H.Gives m p t := by
  intro hids
  obtain ⟨more, hmore⟩ := h hids
  exact ⟨more ++ new, by rwa [List.append_assoc]⟩

theorem Kept.gives (h : H.Kept m t) (hp : H.Known m s p) (ht : s.Retains t) : H.Gives m p t := by
  intro hids
  obtain ⟨new, hnew⟩ := h hids
  exact ⟨new, hnew, hp.mono ht⟩

structure Adds (H : Heap) (m : Nat) (a : Place) (p : Pointer) (s t : Store) : Prop where
  wellFormed : Heap.WellFormed ([a] ++ H) m t
  object : Object ([a] ++ H) p
  inside : p.Inside t
  retains : s.Retains t

theorem Adds.known {a : Place} (h : H.Adds m a p s t) : Known ([a] ++ H) m t p :=
  .of_object h.object h.inside

theorem Adds.grown {a : Place} (h : H.Adds m a p s t) : H.Grown m p t :=
  ⟨[a], h.wellFormed, h.known⟩

section Allocate

variable {r : SegmentRef} (h : H.WellFormed m s) (hr : r.message = m)

include h hr

theorem WellFormed.outcome_allocateStruct (shape : StructShape) :
    Outcome (StructView.allocate r shape) s
      (fun v t => ∃ l, v = .backed l shape.roundUp false ∧
        H.Adds m ⟨l, .struct shape.roundUp⟩ (.struct v) s t)
      fun _ t => t = s := by
  subst hr
  refine (StructView.outcome_allocate r shape s).mono ?_ fun _ _ he => he.1
  rintro v t ⟨l, rfl, henc, ht⟩
  have hshape := StructShape.regular_roundUp henc
  exact ⟨l, rfl, h.allocated_struct rfl h.message_lt ht hshape, ⟨rfl, List.mem_cons_self⟩,
    ht.struct_inside h.message_lt hshape false, ht.extends_.retains⟩

theorem WellFormed.outcome_allocateList (elem : ElementKind) (len : Nat) :
    Outcome (ListView.allocate r elem len) s
      (fun v t => ∃ l, v = .backed l len elem .empty ∧ H.Adds m ⟨l, .list elem len⟩ (.list v) s t)
      fun _ t => t = s := by
  subst hr
  refine (ListView.outcome_allocate r elem len s).mono ?_ fun _ _ he => he.1
  rintro v t ⟨l, rfl, hne, hlen, ht⟩
  refine ⟨l, rfl, h.allocated_list rfl h.message_lt ht hne hlen, ?_,
    ht.list_inside h.message_lt hne hlen, ht.extends_.retains⟩
  cases elem with
  | composite => exact absurd rfl hne
  | _ => exact ⟨rfl, List.mem_cons_self⟩

theorem WellFormed.outcome_allocateComposite (shape : StructShape) (len : Nat) :
    Outcome (ListView.allocateComposite r shape len) s
      (fun v t => ∃ tag, v = .backed (tag.shift 8) len .composite shape.roundUp ∧
        H.Adds m ⟨tag, .composite shape.roundUp len⟩ (.list v) s t)
      fun _ t => t = s := by
  subst hr
  refine (ListView.outcome_allocateComposite r shape len s).mono ?_
    fun _ _ he => (he.2 h.message_lt).1
  rintro v t ⟨tag, u, rfl, henc, hfits, ht⟩
  have hshape := StructShape.regular_roundUp henc
  have hlen := ListView.compositeFits_length hfits
  exact ⟨tag, rfl,
    h.allocated_composite rfl h.message_lt ht hshape hlen
      (ListView.compositeFits_words hshape hfits),
    ⟨tag, rfl, List.mem_cons_self⟩, ht.inside h.message_lt hshape hlen, ht.extends_.retains⟩

end Allocate

end Heap

namespace Copy

open Heap

variable {H : Heap} {m : Nat} {deeper : Writer}

theorem gives_after {k : Nat} {own : Location → Prop} {act : CopyM Unit} {v : ListView} {a : Place}
    {s : Store} {st : CopyState} (ha : H.Adds m a (.list v) s st.store)
    (h : Withstands ([a] ++ H) m act st) (hc : Confined k own act) :
    Outcome (act >>= fun _ => pure v) st (fun v t => H.Gives m (.list v) t.store)
      fun _ t => H.Kept m t.store := by
  refine Outcome.bind_of (h.and (hc st)) (fun _ _ ht => ht.1.further) ?_
  rintro _ t ⟨hkept, hext⟩
  exact Outcome.pure (hkept.gives ha.known hext.retains).further

theorem fillContent_tidy {loc : Location} {len : Nat} {elem : ElementKind} {src : ListView}
    {st : CopyState} (h : H.WellFormed m st.store) (ha : ⟨loc, .list elem len⟩ ∈ H)
    (hp : elem ≠ .pointer) :
    H.Withstands m (onStore (fillContent (.backed loc len elem .empty) src)) st := by
  have hsize : (ListView.backed loc len elem .empty).contentSize = elem.bytesFor len :=
    ListView.contentSize_plain (h.sound _ ha).regular.1
  have hpaste := pastePrefix_overwrites loc src.loc? (elem.bytesFor len) st.store
  rw [← hsize] at hpaste
  have hkept (t : Store) (ht : st.store.Overwrites loc.segment.message
      (loc.Extent (ListView.backed loc len elem .empty).contentSize) t) : H.Kept m t := by
    rw [(h.sound _ ha).message, hsize] at ht
    exact (h.data ht fun l hl => .of_list ha hp hl).kept
  exact (outcome_onStore hpaste).mono (fun _ t ht => hkept t.store ht.1)
    fun _ t ht => hkept t.store ht.1

theorem gives_allocated {words : Nat} {allocate : StoreM ListView} {got : ListView → Store → Prop}
    {fill : ListView → CopyM ListView} {st : CopyState} (h : H.WellFormed m st.store)
    (ha : Outcome allocate st.store got fun _ t => t = st.store)
    (hf : ∀ v t, got v t.store → Outcome (fill v) t (fun v u => H.Gives m (.list v) u.store)
      fun _ u => H.Kept m u.store) :
    Outcome (do spend words; let v ← onStore allocate; fill v) st
      (fun v t => H.Gives m (.list v) t.store) fun _ t => H.Kept m t.store := by
  have hsame (t : CopyState) (ht : t.store = st.store) : H.Kept m t.store := by
    rw [ht]
    exact h.kept
  exact outcome_charged ha hsame (fun _ t ht => hsame t ht) hf

theorem cloneListWith_tidy (hw : Atomic deeper) (hd : Tidy m deeper) {r : SegmentRef}
    {src : ListView} {st : CopyState} (h : H.WellFormed m st.store) (hr : r.message = m)
    (hsrc : H.Known m st.store (.list src)) :
    Outcome (cloneListWith deeper r src) st (fun v t => H.Gives m (.list v) t.store)
      fun _ t => H.Kept m t.store := by
  unfold cloneListWith
  split
  · refine gives_allocated h (h.outcome_allocateComposite hr src.shape src.length) ?_
    rintro v t ⟨tag, rfl, ha⟩
    refine gives_after ha ?_ (fillMembers_confined hw _ _ _ src 0 _)
    exact fillMembers_tidy hw hd ha.wellFormed List.mem_cons_self (Nat.le_of_eq (Nat.zero_add _))
      (hsrc.mono ha.retains)
  · refine gives_allocated h (h.outcome_allocateList hr .pointer src.length) ?_
    rintro v t ⟨l, rfl, ha⟩
    refine gives_after ha ?_ (cloneElements_confined hw _ _ _ src 0 _)
    exact cloneElements_tidy hw hd ha.wellFormed List.mem_cons_self (Nat.le_of_eq (Nat.zero_add _))
      (hsrc.mono ha.retains)
  · rename_i hptr
    refine gives_allocated h (h.outcome_allocateList hr src.element src.length) ?_
    rintro v t ⟨l, rfl, ha⟩
    exact gives_after ha (fillContent_tidy ha.wellFormed List.mem_cons_self hptr)
      (fillContent_confined _ _ _ _ src)

theorem linkList_tidy {slot : Location} {v : ListView} {st : CopyState}
    (h : H.WellFormed m st.store) (hs : H.Slot slot)
    (hv : ∀ l, v.loc? = some l → H.Object (.list v)) :
    H.Withstands m (onStore (linkList slot v)) st := by
  cases v with
  | absent => exact withstands_assigned h (h.outcome_writeNull hs)
  | backed loc len elem shape => exact withstands_assigned h (h.outcome_linkList hs (hv loc rfl))

theorem cloneStruct_tidy (hw : Atomic deeper) (hd : Tidy m deeper) {slot : Location}
    {shape : StructShape} {src : StructView} {st : CopyState} (h : H.WellFormed m st.store)
    (hs : H.Slot slot) (hr : shape.Regular) (hne : shape.isEmpty = false)
    (hsrc : H.Known m st.store (.struct src)) :
    H.Withstands m (cloneStruct deeper slot shape src) st := by
  unfold cloneStruct
  refine Outcome.bind_of (outcome_onStore (outcome_allocate slot.segment shape.bytes st.store)) ?_ ?_
  · rintro _ t ⟨⟨ht, _⟩, _⟩
    rw [ht]
    exact h.kept
  rintro target t ⟨ht, _⟩
  have hnew := h.allocated_struct (h.slot_message hs) h.message_lt ht hr
  have ha : ⟨target, .struct shape⟩ ∈ [⟨target, .struct shape⟩] ++ H := List.mem_cons_self
  have hobject : Object ([⟨target, .struct shape⟩] ++ H) (.struct (.backed target shape false)) :=
    ⟨rfl, ha⟩
  have hfill := fillWith_tidy hw hd hnew (hnew.sound _ ha).message (.inl (.inr (.inr (.inr hobject))))
    (hsrc.mono ht.extends_.retains)
  have hconfined := fillWith_confined hw target shape false src t
  rw [ht.message] at hconfined
  have hlink := atomic_of_store (link_writesOnly (.ofStruct 0 shape) ht.message)
  refine (withstands_bind hfill hconfined (fun _ => hlink) fun _ u more _ hu => ?_).further
  exact withstands_assigned hu
    (hu.outcome_linkStruct hs.mono.mono (List.mem_append_right more ha) hne)

theorem cloneList_tidy (hw : Atomic deeper) (hd : Tidy m deeper) {slot : Location}
    {src : ListView} {st : CopyState} (h : H.WellFormed m st.store) (hs : H.Slot slot)
    (hsrc : H.Known m st.store (.list src)) :
    H.Withstands m (cloneList deeper slot src) st := by
  have hm := h.slot_message hs
  have hclone := cloneListWith_tidy hw hd h hm hsrc
  unfold cloneList
  refine Outcome.bind_of (hclone.and (cloneListWith_atomic hw slot.segment src st))
    (fun _ _ ht => ht.1) ?_
  rintro v t ⟨hgives, hext, hmessage⟩
  by_cases hids : t.store.Numbered m
  · obtain ⟨new, hnew, hv⟩ := hgives hids
    have hobject (l : Location) (hl : v.loc? = some l) : Object (new ++ H) (.list v) :=
      (hv.view l hl ((hmessage l hl).trans hm)).list
    exact (linkList_tidy hnew hs.mono hobject).further
  · exact withstands_unnumbered hids (atomic_of_store (linkList_writesOnly hmessage) t)

theorem writeWith_tidy (hw : Atomic deeper) (hd : Tidy m deeper) : Tidy m (writeWith deeper) := by
  intro H slot p st h hs hp
  have hm := h.slot_message hs
  cases p with
  | null => exact withstands_assigned h (h.outcome_writeNull hs)
  | capability i =>
      exact withstands_assigned h (h.outcome_writeCapability hs i)
  | struct v =>
      cases v with
      | absent => exact withstands_assigned h (h.outcome_writeNull hs)
      | backed loc shape member =>
          change Outcome (writeStructWith deeper slot loc shape member) st _ _
          unfold writeStructWith
          split
          · exact withstands_assigned h (h.outcome_writeEmptyStruct hs)
          · rename_i hsized
            have hne : shape.isEmpty = false := by simpa using hsized
            split
            · rename_i hshared
              obtain ⟨hmessage, rfl⟩ := hshared
              have ha := (hp.view loc rfl (hmessage.trans hm)).object hne
              exact withstands_assigned h (h.outcome_linkStruct hs ha hne)
            · exact cloneStruct_tidy hw hd h hs hp.inside.1 hne hp
  | list v =>
      cases v with
      | absent => exact withstands_assigned h (h.outcome_writeNull hs)
      | backed loc len elem shape =>
          change Outcome (writeListWith deeper slot loc (.backed loc len elem shape)) st _ _
          unfold writeListWith
          split
          · rename_i hmessage
            exact linkList_tidy h hs fun _ _ => (hp.view loc rfl (hmessage.trans hm)).list
          · exact cloneList_tidy hw hd h hs hp

theorem follow_tidy (m limit levels : Nat) : Tidy m (follow limit levels) := by
  induction levels with
  | zero =>
      intro H slot p st h _ _
      exact Outcome.throw h.kept
  | succ levels ih => exact writeWith_tidy (follow_atomic limit levels) ih

end Copy

theorem pointTo_tidy (m : Nat) (c : CopyScope) : Tidy m (pointTo c) :=
  writeWith_tidy (follow_atomic c.limit c.levels) (follow_tidy m c.limit c.levels)

end SegmentedMessage
