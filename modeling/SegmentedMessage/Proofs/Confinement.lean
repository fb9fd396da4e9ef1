import SegmentedMessage.Pointer.Assign
import SegmentedMessage.Proofs.Allocation

namespace SegmentedMessage

open Store

namespace Store

theorem write_overwrites (l : Location) (w v : Nat) (s : Store) :
    Outcome (write l w v) s (fun _ t => s.Overwrites l.segment.message (l.Extent w) t)
      fun _ t => s.Overwrites l.segment.message (l.Extent w) t := by
  refine (outcome_write l w v s).mono ?_ ?_
  · rintro _ t ⟨ht, _⟩
    simpa only [LittleEndian.length_encode] using ht.overwrites
  · rintro e t ⟨rfl, _⟩
    exact .refl _ _ t

theorem clear_overwrites (l : Location) (n : Nat) (s : Store) :
    Outcome (clear l n) s (fun _ t => s.Overwrites l.segment.message (l.Extent n) t)
      fun _ t => s.Overwrites l.segment.message (l.Extent n) t := by
  refine (outcome_clear l n s).mono ?_ ?_
  · intro _ t ht
    simpa only [List.length_replicate] using ht.overwrites
  · rintro e t ⟨rfl, _⟩
    exact .refl _ _ t

theorem copyBytes_overwrites (dst src : Location) (n : Nat) (s : Store) :
    Outcome (copyBytes dst src n) s
      (fun _ t => s.Overwrites dst.segment.message (dst.Extent n) t)
      fun _ t => s.Overwrites dst.segment.message (dst.Extent n) t := by
  refine (outcome_copyBytes dst src n s).mono ?_ ?_
  · intro _ t ht
    refine ht.overwrites.weaken fun k hk => hk.mono ?_
    split
    · exact Nat.zero_le n
    · simp only [range, window, List.length_take]
      exact Nat.min_le_left n _
  · rintro e t ⟨rfl, _⟩
    exact .refl _ _ t

theorem write_extends (l : Location) (w v : Nat) (s : Store) :
    Outcome (write l w v) s (fun _ t => s.Extends l.segment.message (l.Extent w) t)
      fun _ t => s.Extends l.segment.message (l.Extent w) t :=
  (write_overwrites l w v s).mono (fun _ _ h => h.1) fun _ _ h => h.1

theorem clear_extends (l : Location) (n : Nat) (s : Store) :
    Outcome (clear l n) s (fun _ t => s.Extends l.segment.message (l.Extent n) t)
      fun _ t => s.Extends l.segment.message (l.Extent n) t :=
  (clear_overwrites l n s).mono (fun _ _ h => h.1) fun _ _ h => h.1

theorem copyBytes_extends (dst src : Location) (n : Nat) (s : Store) :
    Outcome (copyBytes dst src n) s (fun _ t => s.Extends dst.segment.message (dst.Extent n) t)
      fun _ t => s.Extends dst.segment.message (dst.Extent n) t :=
  (copyBytes_overwrites dst src n s).mono (fun _ _ h => h.1) fun _ _ h => h.1

theorem allocate_extends (r : SegmentRef) (n : Nat) (s : Store) :
    Outcome (allocate r n) s (fun _ t => s.Extends r.message untouched t)
      fun _ t => s.Extends r.message untouched t := by
  refine (outcome_allocate r n s).mono (fun _ _ ht => ht.extends_) ?_
  rintro e t ⟨rfl, _⟩
  exact .refl _ _ t

theorem allocateHere_extends (r : SegmentRef) (n : Nat) (s : Store) :
    Outcome (allocateHere r n) s (fun _ t => s.Extends r.message untouched t)
      fun _ t => s.Extends r.message untouched t := by
  refine (outcome_allocateHere r n s).mono ?_ ?_
  · rintro _ t (⟨_, rfl⟩ | ⟨_, _, _, ht⟩)
    · exact .refl _ _ t
    · exact ht.extends_
  · rintro e t ⟨rfl, _⟩
    exact .refl _ _ t

end Store

namespace Copy

def Confined {α : Type} (m : Nat) (own : Location → Prop) (act : CopyM α) : Prop :=
  ∀ st, Outcome act st (fun _ t => st.store.Extends m own t.store)
    fun _ t => st.store.Extends m own t.store

/-- The slot alone is written, and only by a run that ends well. -/
def Atomic (w : Writer) : Prop :=
  ∀ slot p st, Outcome (w slot p) st
    (fun _ t => st.store.Extends slot.segment.message (slot.Extent 8) t.store)
    fun _ t => st.store.Extends slot.segment.message untouched t.store

namespace Confined

variable {α β : Type} {m : Nat} {own more : Location → Prop} {act : CopyM α}

theorem pure (a : α) : Confined m own (Pure.pure a : CopyM α) :=
  fun st => Outcome.pure (.refl m own st.store)

theorem bind {f : α → CopyM β} (h : Confined m own act) (hf : ∀ a, Confined m own (f a)) :
    Confined m own (act >>= f) := by
  intro st
  refine Outcome.bind (h st) ?_
  intro a t ht
  exact (hf a t).mono (fun _ _ hu => ht.trans hu) fun _ _ hu => ht.trans hu

theorem weaken (h : Confined m own act) (hm : ∀ l, own l → more l) : Confined m more act :=
  fun st => (h st).mono (fun _ _ ht => ht.weaken fun l _ _ => hm l)
    fun _ _ ht => ht.weaken fun l _ _ => hm l

theorem of_store {act : StoreM α} (h : ∀ s, Outcome act s (fun _ t => s.Extends m own t)
    fun _ t => s.Extends m own t) : Confined m own (onStore act) :=
  fun st => (outcome_onStore (h st.store)).mono (fun _ _ ht => ht.1) fun _ _ ht => ht.1

theorem query (f : Store → Except Abort α) : Confined m own (onStore (Store.query f)) :=
  of_store fun s => outcome_query (fun _ _ => .refl m own s) fun _ _ => .refl m own s

theorem spend (words : Nat) : Confined m own (spend words) := by
  intro st
  refine (outcome_spend words st).mono ?_ ?_
  · intro _ t ht
    rw [ht]
    exact .refl m own st.store
  · rintro _ t ⟨_, ht⟩
    rw [ht]
    exact .refl m own st.store

theorem of_atomic {w : Writer} (hw : Atomic w) (slot : Location) (p : Pointer) :
    Confined slot.segment.message (slot.Extent 8) (w slot p) :=
  fun st => (hw slot p st).mono (fun _ _ ht => ht) fun _ _ ht => ht.of_untouched

end Confined

theorem writeWord_confined (l : Location) (w : PointerWord) :
    Confined l.segment.message (l.Extent 8) (onStore (writeWord l w)) :=
  .of_store (write_extends l 8 w.toNat)

theorem clear_confined (l : Location) (n : Nat) :
    Confined l.segment.message (l.Extent n) (onStore (clear l n)) :=
  .of_store (clear_extends l n)

variable {deeper : Writer}

theorem cloneSlot_confined (hw : Atomic deeper) (slot : Location) (p : Pointer) :
    Confined slot.segment.message (slot.Extent 8) (cloneSlot deeper slot p) := by
  unfold cloneSlot
  split
  · exact .of_atomic hw slot p
  · exact writeWord_confined slot .null

theorem cloneSlots_confined (hw : Atomic deeper) (slots : Location) (src : StructView)
    (j n : Nat) : Confined slots.segment.message ((slots.shift (j * 8)).Extent (n * 8))
      (cloneSlots deeper slots src j n) := by
  induction n generalizing j with
  | zero => exact .pure ()
  | succ n ih =>
      unfold cloneSlots
      refine .bind (.query _) fun p => .bind ?_ fun _ => ?_
      · refine (cloneSlot_confined hw (slots.shift (j * 8)) p).weaken fun l hl => ?_
        exact hl.mono (by omega)
      · refine (ih (j + 1)).weaken ?_
        rintro l ⟨hs, hlo, hhi⟩
        simp only [Location.shift_address] at hlo hhi
        exact ⟨hs, by simp only [Location.shift_address]; omega,
          by simp only [Location.shift_address]; omega⟩

theorem pastePrefix_overwrites (dst : Location) (src : Option Location) (n : Nat) (s : Store) :
    Outcome (pastePrefix dst src n) s
      (fun _ t => s.Overwrites dst.segment.message (dst.Extent n) t)
      fun _ t => s.Overwrites dst.segment.message (dst.Extent n) t := by
  cases src with
  | none => exact Outcome.pure (.refl _ _ s)
  | some loc => exact copyBytes_overwrites dst loc n s

theorem pastePrefix_confined (dst : Location) (src : Option Location) (n : Nat) :
    Confined dst.segment.message (dst.Extent n) (onStore (pastePrefix dst src n)) :=
  .of_store fun s => (pastePrefix_overwrites dst src n s).mono (fun _ _ h => h.1) fun _ _ h => h.1

theorem fillData_overwrites (dst : Location) (space : Nat) (src : StructView) (s : Store) :
    Outcome (fillData dst space src) s
      (fun _ t => s.Overwrites dst.segment.message (dst.Extent space) t)
      fun _ t => s.Overwrites dst.segment.message (dst.Extent space) t := by
  have hprefix (k : Location) (hk : dst.Extent (min space src.shape.data) k) :
      dst.Extent space k := hk.mono (Nat.min_le_left _ _)
  unfold fillData
  refine Outcome.bind_of (pastePrefix_overwrites dst src.loc? _ s)
    (fun _ _ ht => ht.weaken hprefix) fun _ t ht => ?_
  have hrest (k : Location) (hk : (dst.shift (min space src.shape.data)).Extent
      (space - min space src.shape.data) k) : dst.Extent space k := hk.of_shift.mono (by omega)
  exact (clear_overwrites _ _ t).mono
    (fun _ _ hu => (ht.weaken hprefix).trans (hu.weaken hrest))
    fun _ _ hu => (ht.weaken hprefix).trans (hu.weaken hrest)

theorem fillData_confined (dst : Location) (space : Nat) (src : StructView) :
    Confined dst.segment.message (dst.Extent space) (onStore (fillData dst space src)) :=
  .of_store fun s => (fillData_overwrites dst space src s).mono (fun _ _ h => h.1) fun _ _ h => h.1

theorem fillSlots_confined (hw : Atomic deeper) (slots : Location) (count : Nat)
    (src : StructView) : Confined slots.segment.message (slots.Extent (count * 8))
      (fillSlots deeper slots count src) := by
  unfold fillSlots
  refine .bind ?_ fun _ => ?_
  · refine (cloneSlots_confined hw slots src 0 _).weaken fun l hl => ?_
    exact hl.of_shift.mono (by omega)
  · refine (clear_confined (slots.shift _) _).weaken fun l hl => ?_
    exact hl.of_shift.mono (by omega)

theorem fillWith_confined (hw : Atomic deeper) (loc : Location) (shape : StructShape)
    (member : Bool) (src : StructView) : Confined loc.segment.message (loc.Extent shape.bytes)
      (fillWith deeper (.backed loc shape member) src) := by
  unfold fillWith
  refine .bind (.spend _) fun _ => .bind ?_ fun _ => ?_
  · refine (fillData_confined loc shape.data src).weaken fun l hl => ?_
    exact hl.mono (Nat.le_add_right _ _)
  · exact (fillSlots_confined hw (loc.shift shape.data) shape.slots.toNat src).weaken
      fun l hl => hl.of_shift

theorem member_eq {loc : Location} {len i : Nat} {shape : StructShape} (hi : i < len) :
    (ListView.backed loc len .composite shape).member i =
      .backed (loc.shift (i * shape.bytes)) shape true := by
  simp only [ListView.member, if_pos hi]
  rfl

theorem slot_eq {loc : Location} {len i : Nat} {shape : StructShape} (hi : i < len) :
    (ListView.backed loc len .pointer shape).slot? i = some (loc.shift (i * 8)) := by
  simp only [ListView.slot?, if_pos hi]
  rfl

theorem fillMember_confined (hw : Atomic deeper) (loc : Location) (len : Nat)
    (shape : StructShape) (i : Nat) (src : StructView) :
    Confined loc.segment.message ((loc.shift (i * shape.bytes)).Extent shape.bytes)
      (fillWith deeper ((ListView.backed loc len .composite shape).member i) src) := by
  by_cases hi : i < len
  · rw [member_eq hi]
    exact fillWith_confined hw (loc.shift (i * shape.bytes)) shape true src
  · rw [ListView.member, if_neg hi]
    exact .pure ()

theorem fillMembers_confined (hw : Atomic deeper) (loc : Location) (len : Nat)
    (shape : StructShape) (src : ListView) (i n : Nat) :
    Confined loc.segment.message ((loc.shift (i * shape.bytes)).Extent (n * shape.bytes))
      (fillMembers deeper (.backed loc len .composite shape) src i n) := by
  induction n generalizing i with
  | zero => exact .pure ()
  | succ n ih =>
      have hnext : (i + 1) * shape.bytes = i * shape.bytes + shape.bytes := Nat.succ_mul _ _
      have hall : (n + 1) * shape.bytes = n * shape.bytes + shape.bytes := Nat.succ_mul _ _
      unfold fillMembers
      refine .bind ?_ fun _ => ?_
      · refine (fillMember_confined hw loc len shape i (src.member i)).weaken fun l hl => ?_
        exact hl.mono (by omega)
      · refine (ih (i + 1)).weaken fun l hl => ?_
        exact hl.within (by omega) (by omega)

theorem cloneElement_confined (hw : Atomic deeper) (loc : Location) (len : Nat)
    (shape : StructShape) (i : Nat) (p : Pointer) :
    Confined loc.segment.message ((loc.shift (i * 8)).Extent 8)
      (cloneElement deeper ((ListView.backed loc len .pointer shape).slot? i) p) := by
  by_cases hi : i < len
  · rw [slot_eq hi]
    change Confined _ _ (if p.isBacked then deeper (loc.shift (i * 8)) p else pure ())
    split
    · exact .of_atomic hw (loc.shift (i * 8)) p
    · exact .pure ()
  · rw [ListView.slot?, if_neg hi]
    exact .pure ()

theorem cloneElements_confined (hw : Atomic deeper) (loc : Location) (len : Nat)
    (shape : StructShape) (src : ListView) (i n : Nat) :
    Confined loc.segment.message ((loc.shift (i * 8)).Extent (n * 8))
      (cloneElements deeper (.backed loc len .pointer shape) src i n) := by
  induction n generalizing i with
  | zero => exact .pure ()
  | succ n ih =>
      unfold cloneElements
      refine .bind (.query _) fun p => .bind ?_ fun _ => ?_
      · refine (cloneElement_confined hw loc len shape i p).weaken fun l hl => ?_
        exact hl.mono (by omega)
      · refine (ih (i + 1)).weaken fun l hl => ?_
        exact hl.within (by omega) (by omega)

theorem fillContent_confined (loc : Location) (len : Nat) (elem : ElementKind)
    (shape : StructShape) (src : ListView) :
    Confined loc.segment.message (loc.Extent (ListView.backed loc len elem shape).contentSize)
      (onStore (fillContent (.backed loc len elem shape) src)) :=
  pastePrefix_confined loc src.loc? _

def NewList (r : SegmentRef) (s : Store) (v : ListView) (t : Store) : Prop :=
  s.Extends r.message untouched t ∧ ∀ l, v.loc? = some l → l.segment.message = r.message

theorem newList_of_confined {α : Type} {r : SegmentRef} {loc : Location} {v : ListView}
    {act : CopyM α} {own : Location → Prop} {st st' : CopyState} (hv : v.loc? = some loc)
    (hm : loc.segment.message = r.message) (h : st.store.Extends r.message untouched st'.store)
    (hf : st.store.Fresh loc) (hown : ∀ k, own k → loc.Onward k)
    (hact : Confined loc.segment.message own act) :
    Outcome (act >>= fun _ => pure v) st' (fun v t => NewList r st.store v t.store)
      fun _ t => st.store.Extends r.message untouched t.store := by
  rw [hm] at hact
  refine Outcome.bind_of (hact st') ?_ ?_
  · intro _ t ht
    exact h.into_fresh hf ht hown
  · intro _ t ht
    refine Outcome.pure ⟨h.into_fresh hf ht hown, ?_⟩
    intro l hl
    rw [hv] at hl
    cases hl
    exact hm

theorem cloneListWith_atomic (hw : Atomic deeper) (r : SegmentRef) (src : ListView)
    (st : CopyState) :
    Outcome (cloneListWith deeper r src) st (fun v t => NewList r st.store v t.store)
      fun _ t => st.store.Extends r.message untouched t.store := by
  have hsame (t : CopyState) (ht : t.store = st.store) :
      st.store.Extends r.message untouched t.store := by
    rw [ht]
    exact .refl _ _ _
  unfold cloneListWith
  split
  · refine outcome_charged (ListView.outcome_allocateComposite r src.shape src.length st.store)
      hsame (fun _ _ ht => ht.1) ?_
    rintro v t ⟨tag, u, rfl, _, _, ht⟩
    refine newList_of_confined rfl ht.allocated.message ht.extends_ ?_
      (fun _ hk => hk.of_shift.onward) (fillMembers_confined hw _ _ _ src 0 _)
    exact Nat.le_trans ht.allocated.fresh (Nat.le_add_right _ _)
  · refine outcome_charged (ListView.outcome_allocate r .pointer src.length st.store) hsame
      (fun _ t ht => hsame t ht.1) ?_
    rintro v t ⟨l, rfl, _, _, ht⟩
    exact newList_of_confined rfl ht.message ht.extends_ ht.fresh
      (fun _ hk => hk.of_shift.onward) (cloneElements_confined hw _ _ _ src 0 _)
  · refine outcome_charged (ListView.outcome_allocate r src.element src.length st.store) hsame
      (fun _ t ht => hsame t ht.1) ?_
    rintro v t ⟨l, rfl, _, _, ht⟩
    exact newList_of_confined rfl ht.message ht.extends_ ht.fresh (fun _ hk => hk.onward)
      (fillContent_confined _ _ _ _ src)

end Copy

end SegmentedMessage
