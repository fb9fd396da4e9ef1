import SegmentedMessage.Proofs.Accounting
import SegmentedMessage.Proofs.HeapSession

namespace SegmentedMessage

open Store Copy

theorem splice_window {xs : List UInt8} {k n : Nat} (h : k + n ≤ xs.length) :
    splice xs k (window xs k n) = xs := by
  rw [splice, length_window h, window, List.append_assoc, ← List.drop_drop,
    List.take_append_drop, List.take_append_drop]

theorem Arena.overwrite_self {a : Arena} {id k : Nat} {src : ByteArray}
    (hc : a.covers id k src.size = true)
    (hsrc : Buffer.bytes src = window (a.contents id) k src.size) :
    a.overwrite id k src = a := by
  have hrow : (a.overwrite id k src).segments = a.segments := by
    apply Array.ext_getElem?
    intro i
    rw [segments_overwrite]
    split
    · rename_i hi
      subst hi
      cases hx : a.segments[id]? with
      | none => rfl
      | some x =>
          have hle := (covers_iff_contents.mp hc).2
          rw [contents_of_some hx] at hle hsrc
          have hbytes : Buffer.overwrite x.bytes k src = x.bytes := by
            apply Buffer.ext_bytes
            refine (Buffer.bytes_overwrite x.bytes src k).trans ?_
            change splice (Buffer.bytes x.bytes) k (Buffer.bytes src) = _
            rw [hsrc, splice_window hle]
          rw [Option.map_some, hbytes]
    · rfl
  exact congrArg (fun row => { a with segments := row }) hrow

namespace StructView

def Row (v : StructView) (l : Location) : Prop :=
  ∃ i slot, v.slot? i = some slot ∧ slot.Extent 8 l

theorem Row.of_extent {loc l : Location} {shape : StructShape} {member : Bool}
    (h : (loc.shift shape.data).Extent (shape.slots.toNat * 8) l) :
    (backed loc shape member).Row l := by
  obtain ⟨hseg, hlo, hhi⟩ := h
  rw [Location.shift_address] at hlo hhi
  have hi : (l.address - (loc.address + shape.data)) / 8 < shape.slots.toNat := by omega
  refine ⟨_, _, if_pos hi, hseg, ?_, ?_⟩
  · rw [Location.shift_address]
    omega
  · rw [Location.shift_address]
    omega

end StructView

section NothingDone

variable {s : Store} {l loc : Location} {n : Nat} {shape : StructShape}

theorem Store.copyBytes_self (h : s.covers l n = true) : copyBytes l l n s = .ok () s := by
  rw [copyBytes_eq]
  split
  · rfl
  · have hsize : (Buffer.ofBytes (s.range l n)).size = n := by
      rw [Buffer.size_ofBytes, length_range h]
    have hpaste : Arena.paste l.segment.index l.address (Buffer.ofBytes (s.range l n))
        (s.message l.segment.message).arena = .ok () (s.message l.segment.message).arena := by
      refine Arena.paste_ok.mpr ⟨by rwa [hsize], (Arena.overwrite_self (by rwa [hsize]) ?_).symm⟩
      rw [Buffer.bytes_ofBytes, hsize]
      rfl
    simp only [Bind.bind, EStateM.bind, query, slice_eq h, paste, onArena_run, hpaste]
    exact congrArg (EStateM.Result.ok ()) (withArena_self s l.segment.message)

theorem Store.clear_nothing (h : l.address < 0x100000000) : clear l 0 = pure () := by
  funext s
  rw [clear, if_pos h, onArena_run, Arena.clear_zero]
  exact congrArg (EStateM.Result.ok ()) (withArena_self s l.segment.message)

theorem Copy.fillData_self (hv : s.Valid) (hc : s.covers loc shape.data = true) (member : Bool) :
    fillData loc shape.data (.backed loc shape member) s = .ok () s := by
  have hlt : (loc.shift shape.data).address < 0x100000000 := hv.address_lt hc
  change (copyBytes loc loc (min shape.data shape.data) >>= fun _ =>
    clear (loc.shift (min shape.data shape.data)) (shape.data - min shape.data shape.data)) s = _
  rw [Nat.min_self, Nat.sub_self, clear_nothing hlt]
  simp only [Bind.bind, EStateM.bind, copyBytes_self hc]
  rfl

theorem Copy.fillWith_self {deeper : Writer} {member : Bool} {st : CopyState}
    (hv : st.store.Valid) (hc : st.store.covers loc shape.bytes = true) :
    fillWith deeper (.backed loc shape member) (.backed loc shape member) st =
      (do
        spend (shape.bytes / 8)
        cloneSlots deeper (loc.shift shape.data) (.backed loc shape member) 0 shape.slots.toNat) st
    := by
  have hdata : st.store.covers loc shape.data = true := covers_take hc (Nat.le_add_right _ _)
  have hend : ((loc.shift shape.data).shift (shape.slots.toNat * 8)).address < 0x100000000 := by
    rw [Location.shift_shift]
    exact hv.address_lt hc
  have hslots : fillSlots deeper (loc.shift shape.data) shape.slots.toNat (.backed loc shape member)
      = cloneSlots deeper (loc.shift shape.data) (.backed loc shape member) 0 shape.slots.toNat := by
    simp only [fillSlots, StructView.shape, Nat.min_self, Nat.sub_self, Nat.zero_mul,
      clear_nothing hend]
    exact bind_pure_unit
  simp only [fillWith, hslots, StructView.shape, Bind.bind, EStateM.bind]
  cases hs : spend (shape.bytes / 8) st with
  | error e t => rfl
  | ok _ t =>
      obtain ⟨_, rfl⟩ := spend_ok.mp hs
      simp only [onStore, fillData_self hv hdata]

end NothingDone

namespace Heap

variable {H : Heap} {m limit : Nat} {s t u : Store} {slot : Location} {p : Pointer}

/-- Every slot decodes as before, and landing pads are all that may have been added. -/
def Restored (H : Heap) (m : Nat) (s t : Store) : Prop :=
  ∃ pads : Heap, pads.OnlyPads ∧ Heap.WellFormed (pads ++ H) m t ∧
    ∀ slot, H.Slot slot → t.pointerAt slot = s.pointerAt slot

theorem WellFormed.restored (h : H.WellFormed m s) : H.Restored m s s :=
  ⟨[], .nil, h, fun _ _ => rfl⟩

theorem Restored.after {pads : Heap} (hpads : pads.OnlyPads)
    (hsame : ∀ slot, H.Slot slot → t.pointerAt slot = s.pointerAt slot)
    (h : Restored (pads ++ H) m t u) : H.Restored m s u := by
  obtain ⟨more, hmore, hwell, hlater⟩ := h
  refine ⟨more ++ pads, hmore.append hpads, by rwa [List.append_assoc], fun slot hs => ?_⟩
  exact (hlater slot hs.mono).trans (hsame slot hs)

theorem WellFormed.reassigned (h : H.WellFormed m s) (hs : H.Slot slot)
    (hp : s.pointerAt slot = .ok p) (he : s.Extends m (slot.Extent 8) t)
    (ht : H.Assigned m slot p t) (hids : t.Numbered m) : H.Restored m s t := by
  obtain ⟨pads, hpads, hwell, hread⟩ := ht hids
  refine ⟨pads, hpads, hwell, fun other ho => ?_⟩
  -- the slot itself shows the same again, and no other depends on how it is written
  by_cases hother : slot = other
  · subst hother
    rw [hread, hp]
  · obtain ⟨q, hq⟩ := h.slots other ho
    rw [hq.pointerAt]
    exact hq.steady t (he.grows.weaken fun l _ _ hl =>
      ⟨hs.mutable hl, h.slots_apart hs ho hother hl⟩)

def CutShort (m limit : Nat) (s : Store) (e : Abort) : Prop :=
  e = .failure .overBudget ∨ e = .failure (.tooDeep limit) ∨ s.Refused m e

def Reassigns (H : Heap) (m : Nat) (slot : Location) (p : Pointer) (act : CopyM Unit)
    (st : CopyState) : Prop :=
  Outcome act st (fun _ t => H.Assigned m slot p t.store)
    fun e t => t.store = st.store ∧ st.store.Refused m e

def Repeats (H : Heap) (m limit : Nat) (act : CopyM Unit) (st : CopyState) : Prop :=
  Outcome act st (fun _ t => t.store.Numbered m → H.Restored m st.store t.store)
    fun e t => t.store.Numbered m → H.Restored m st.store t.store ∧ CutShort m limit t.store e

end Heap

namespace Copy

open Heap

variable {H : Heap} {m limit levels : Nat} {deeper : Writer} {slot : Location} {p : Pointer}
  {st : CopyState}

theorem reassigns {act : StoreM Unit}
    (ha : Outcome act st.store (fun _ t => H.Assigned m slot p t) fun _ t => t = st.store)
    (hr : Outcome act st.store (fun _ _ => True)
      fun e t => t = st.store ∧ st.store.Refused slot.segment.message e)
    (hm : slot.segment.message = m) : H.Reassigns m slot p (onStore act) st := by
  rw [hm] at hr
  exact (outcome_onStore (ha.and hr)).mono (fun _ _ ht => ht.1.1) fun _ _ he => he.1.2

theorem writeWord_reassigns {w : PointerWord} (h : H.WellFormed m st.store) (hs : H.Slot slot)
    (ha : Outcome (writeWord slot w) st.store (fun _ t => H.Assigned m slot p t)
      fun _ t => t = st.store) : H.Reassigns m slot p (onStore (writeWord slot w)) st :=
  reassigns ha ((writeWord_done (h.slot_covers hs) w).mono (fun _ _ h => h) fun _ _ h => h.elim)
    (h.slot_message hs)

theorem writeWith_reassigns (h : H.WellFormed m st.store) (hs : H.Slot slot)
    (hp : H.ShownAs m st.store slot p) : H.Reassigns m slot p (writeWith deeper slot p) st := by
  have hm := h.slot_message hs
  have hc := h.slot_covers hs
  have hin := (st.store.pointerAt_answers slot).of_ok hp.pointerAt
  have hempty (l : Location) (hl : l = slot) :
      H.Reassigns m slot (.struct (.backed l .empty false))
        (writeWith deeper slot (.struct (.backed l .empty false))) st := by
    subst hl
    exact writeWord_reassigns h hs (h.outcome_writeEmptyStruct hs)
  -- nothing is cloned: what a slot shows belongs to the message of the slot and is whole
  rcases hp.shows with rfl | ⟨i, rfl⟩ | ⟨l, rfl⟩ | hobject
  · exact writeWord_reassigns h hs (h.outcome_writeNull hs)
  · exact writeWord_reassigns h hs (h.outcome_writeCapability hs i)
  · exact hempty l (hp.home l rfl)
  cases p with
  | null => exact hobject.elim
  | capability i => exact hobject.elim
  | struct v =>
      cases v with
      | absent => exact hobject.elim
      | backed loc shape member =>
          obtain ⟨rfl, ha⟩ := hobject
          by_cases hsize : shape.isEmpty = true
          · obtain rfl := (StructShape.isEmpty_iff shape).mp hsize
            exact hempty loc (hp.home loc rfl)
          · have hmessage : loc.segment.message = slot.segment.message :=
              (h.sound _ ha).message.trans hm.symm
            change Outcome (writeStructWith deeper slot loc shape false) st _ _
            rw [writeStructWith, if_neg hsize, if_pos ⟨hmessage, rfl⟩]
            exact reassigns (h.outcome_linkStruct hs ha (by simpa using hsize))
              (link_refused _ hc hmessage) hm
  | list v =>
      cases v with
      | absent => exact hobject.elim
      | backed loc len elem shape =>
          have hmessage : loc.segment.message = slot.segment.message := hin.message loc rfl
          change Outcome (writeListWith deeper slot loc (.backed loc len elem shape)) st _ _
          rw [writeListWith, if_pos hmessage]
          refine reassigns (h.outcome_linkList hs hobject) ?_ hm
          exact linkList_refused h.valid hc hin.inside fun l hl => hin.message l hl

theorem cloneSlot_reassigns (limit levels : Nat) (h : H.WellFormed m st.store) (hs : H.Slot slot)
    (hp : H.ShownAs m st.store slot p) :
    Outcome (cloneSlot (follow limit levels) slot p) st (fun _ t => H.Assigned m slot p t.store)
      fun e t => t.store = st.store ∧ CutShort m limit st.store e := by
  unfold cloneSlot
  split
  · cases levels with
    | zero => exact Outcome.throw ⟨rfl, .inr (.inl rfl)⟩
    | succ levels =>
        exact (writeWith_reassigns h hs hp).mono (fun _ _ ht => ht) fun _ _ he =>
          ⟨he.1, .inr (.inr he.2)⟩
  · rename_i hback
    obtain rfl := ((st.store.pointerAt_answers slot).of_ok hp.pointerAt).null (by simpa using hback)
    exact (writeWord_reassigns h hs (h.outcome_writeNull hs)).mono (fun _ _ ht => ht) fun _ _ he =>
      ⟨he.1, .inr (.inr he.2)⟩

theorem cloneSlots_repeats {slots : Location} {src : StructView} {j n : Nat}
    (h : H.WellFormed m st.store) (hsrc : ∀ i, j ≤ i → i < j + n →
      src.slot? i = some (slots.shift (i * 8)) ∧ H.Slot (slots.shift (i * 8))) :
    H.Repeats m limit (cloneSlots (follow limit levels) slots src j n) st := by
  induction n generalizing H j st with
  | zero => exact Outcome.pure fun _ => h.restored
  | succ n ih =>
      obtain ⟨hslot, hs⟩ := hsrc j (Nat.le_refl j) (by omega)
      obtain ⟨p, hp⟩ := h.slots _ hs
      have hm := h.slot_message hs
      have hw := follow_atomic limit levels
      unfold cloneSlots
      refine Outcome.bind_of (outcome_onQuery (src.pointerAt j) st) ?_ ?_
      · rintro e t ⟨rfl, he⟩
        rw [src.pointerAt_of_slot hslot, hp.pointerAt] at he
        cases he
      rintro q t ⟨rfl, hq⟩
      rw [src.pointerAt_of_slot hslot, hp.pointerAt] at hq
      cases hq
      -- each slot is read when its turn comes, and by then it shows what it showed at first
      have hone := (cloneSlot_reassigns limit levels h hs hp).and
        (cloneSlot_confined hw (slots.shift (j * 8)) p t)
      refine Outcome.bind_of hone ?_ ?_
      · rintro e u ⟨⟨hu, hcut⟩, _⟩ _
        rw [hu]
        exact ⟨h.restored, hcut⟩
      rintro _ u ⟨hassigned, he⟩
      rw [hm] at he
      have hrest := cloneSlots_confined hw slots src (j + 1) n u
      by_cases hids : u.store.Numbered m
      · obtain ⟨pads, hpads, hwell, hsame⟩ := h.reassigned hs hp.pointerAt he hassigned hids
        refine (ih hwell fun i hlo hhi => ?_).mono ?_ ?_
        · exact ⟨(hsrc i (by omega) (by omega)).1, (hsrc i (by omega) (by omega)).2.mono⟩
        · exact fun _ _ ht hlater => .after hpads hsame (ht hlater)
        · exact fun _ _ ht hlater => ⟨.after hpads hsame (ht hlater).1, (ht hlater).2⟩
      · refine hrest.mono ?_ ?_
        · exact fun _ _ ht hlater => absurd (hlater.before ht) hids
        · exact fun _ _ ht hlater => absurd (hlater.before ht) hids

theorem fillWith_repeats {v : StructView} (h : H.WellFormed m st.store)
    (hin : v.Inside st.store) (hv : H.View (.struct v)) :
    H.Repeats m limit (fillWith (follow limit levels) v v) st := by
  cases v with
  | absent => exact Outcome.pure fun _ => h.restored
  | backed loc shape member =>
      refine Outcome.of_eq (fillWith_self h.valid hin.2)
        (Outcome.bind_of (outcome_spend _ st) ?_ ?_)
      · rintro _ t ⟨rfl, ht⟩ _
        rw [ht]
        exact ⟨h.restored, .inl rfl⟩
      rintro _ t ht
      rw [← ht] at h ⊢
      refine cloneSlots_repeats h fun i _ hi => ?_
      rw [Nat.zero_add] at hi
      rw [Location.shift_shift]
      exact ⟨if_pos hi, hv.slot hi⟩

theorem fillWith_rewrites (limit levels : Nat) (st : CopyState) {v : StructView} {loc : Location}
    (hv : st.store.Valid) (hin : v.Inside st.store) (hl : v.loc? = some loc) :
    Outcome (fillWith (follow limit levels) v v) st
      (fun _ t => st.store.Extends loc.segment.message v.Row t.store)
      fun _ t => st.store.Extends loc.segment.message v.Row t.store := by
  cases v with
  | absent => cases hl
  | backed l shape member =>
      obtain rfl : l = loc := Option.some.inj hl
      have hslots : Confined l.segment.message (StructView.backed l shape member).Row
          (cloneSlots (follow limit levels) (l.shift shape.data) (.backed l shape member) 0
            shape.slots.toNat) :=
        (cloneSlots_confined (follow_atomic limit levels) _ _ 0 _).weaken fun _ hk => .of_extent hk
      exact Outcome.of_eq (fillWith_self hv hin.2) (Confined.bind (.spend _) (fun _ => hslots) st)

end Copy

namespace Heap

open Session

variable {H : Heap} {m : Nat} {v : StructView} {σ : Session} {t : Store}

/-- Only slots of `v` have been written, and no reader of message `m` can tell. Their words may differ,
so raw words of the message are not compared. -/
structure Unseen (H : Heap) (m : Nat) (v : StructView) (σ : Session) (t : Store) : Prop where
  bytes : σ.store.Extends m v.Row t
  pads : ∃ pads : Heap, pads.OnlyPads ∧ Heap.Tiles (pads ++ H) m ⟨t, σ.views⟩
  data : ∀ l, H.Data l → (t.contents l.segment)[l.address]? =
    (σ.store.contents l.segment)[l.address]?
  slots : ∀ slot, H.Slot slot → t.pointerAt slot = σ.store.pointerAt slot
  readings : ∀ r, σ.Reads r → r.answer t = r.answer σ.store
  queries : ∀ q, σ.Queries q → (Call.query q).raw? ≠ some m → q.answer t = q.answer σ.store

section Readers

variable (h : H.Houses m σ) (he : σ.store.Extends m v.Row t)
  (hrow : ∀ i slot, v.slot? i = some slot → H.Slot slot)

include h he hrow

theorem readAt?_unseen {loc : Option Location} {w : Width}
    (hin : ∀ l, loc = some l → σ.store.covers l w.bytes = true ∧
      (l.segment.message = m → ∀ k, l.Extent w.bytes k → H.Data k)) :
    t.readAt? loc w = σ.store.readAt? loc w := by
  cases loc with
  | none => rfl
  | some l =>
      obtain ⟨hc, hdata⟩ := hin l rfl
      change t.read l w.bytes = σ.store.read l w.bytes
      rw [read_eq hc, read_eq (he.covers hc), he.range_eq (covers_iff.mp hc).2 fun k hk hfree => ?_]
      obtain ⟨i, slot, hslot, hks⟩ := hfree
      have hs := hrow i slot hslot
      have hm : l.segment.message = m := by
        rw [← hk.1, hks.1, h.wellFormed.slot_message hs]
      exact h.wellFormed.data_apart (hdata hm k hk) hs hks

theorem readBitAt?_unseen {loc : Option Location} (n : Nat)
    (hin : ∀ l, loc = some l → σ.store.covers l 1 = true ∧
      (l.segment.message = m → ∀ k, l.Extent 1 k → H.Data k)) :
    t.readBitAt? loc n = σ.store.readBitAt? loc n := by
  rw [readBitAt?, readBitAt?, readAt?_unseen h he hrow (w := .one) hin]

theorem reading_unseen {r : Reading} (hr : σ.Reads r) : r.answer t = r.answer σ.store := by
  cases r with
  | field v w off =>
      have hv := h.holds hr
      refine readAt?_unseen h he hrow fun l hl => ?_
      exact ⟨StructView.Inside.field hv.inside hl, fun hm k hk => hv.field hl hm hk⟩
  | fieldBit v n =>
      have hv := h.holds hr
      refine congrArg (Bool.toNat <$> ·) (readBitAt?_unseen h he hrow n fun l hl => ?_)
      exact ⟨StructView.Inside.field hv.inside hl, fun hm k hk => hv.field hl hm hk⟩
  | element v w i =>
      have hv := h.holds hr
      refine readAt?_unseen h he hrow fun l hl => ?_
      exact ⟨ListView.Inside.element hv.inside hl, fun hm k hk => hv.entry hl hm hk⟩
  | elementBit v i =>
      have hv := h.holds hr
      refine congrArg (Bool.toNat <$> ·) (readBitAt?_unseen h he hrow i fun l hl => ?_)
      exact ⟨ListView.Inside.bit hv.inside hl, fun hm k hk => hv.bit hl hm hk⟩

end Readers

section Slots

variable (h : H.Houses m σ) (hothers : ∀ k, k ≠ m → t.message k = σ.store.message k)
  (hsame : ∀ slot, H.Slot slot → t.pointerAt slot = σ.store.pointerAt slot)

include hothers hsame

theorem pointerAt_unseen {slot : Location} (hs : slot.segment.message = m → H.Slot slot) :
    t.pointerAt slot = σ.store.pointerAt slot := by
  by_cases hm : slot.segment.message = m
  · exact hsame slot (hs hm)
  · exact pointerAt_congr (.of_message (hothers _ hm)) rfl fun _ _ => id

include h

theorem query_unseen {q : Query} (hq : σ.Queries q) (hraw : (Call.query q).raw? ≠ some m) :
    q.answer t = q.answer σ.store := by
  have hroot (msg : Nat) : t.root msg = σ.store.root msg :=
    pointerAt_unseen hothers hsame h.wellFormed.root_slot
  have hfield (v : StructView) (i : Nat) (hv : σ.Holds (.struct v)) :
      v.pointerAt i t = v.pointerAt i σ.store := by
    unfold StructView.pointerAt
    split
    · rename_i l hl
      exact pointerAt_unseen hothers hsame ((h.holds hv).field_slot hl)
    · rfl
  have helement (v : ListView) (i : Nat) (hv : σ.Holds (.list v)) :
      v.pointerAt i t = v.pointerAt i σ.store := by
    unfold ListView.pointerAt
    split
    · rename_i l hl
      exact pointerAt_unseen hothers hsame ((h.holds hv).element_slot hl)
    · rfl
  cases q with
  | pointerAt slot =>
      exact pointerAt_unseen hothers hsame fun hm => absurd (congrArg some hm) hraw
  | root msg => exact hroot msg
  | rootView msg => rw [Query.answer, Query.answer, rootView, rootView, hroot]
  | field v i => exact hfield v i hq
  | fieldOrNull v i => exact congrArg lenient (hfield v i hq)
  | element v i => exact helement v i hq
  | elementOrNull v i => exact congrArg lenient (helement v i hq)
  | member v i => rfl

end Slots

theorem Houses.unseen (h : H.Houses m σ) (he : σ.store.Extends m v.Row t)
    (hrow : ∀ i slot, v.slot? i = some slot → H.Slot slot)
    (ht : H.Restored m σ.store t) : H.Unseen m v σ t := by
  obtain ⟨pads, hpads, hwell, hsame⟩ := ht
  have hhouses : Houses (pads ++ H) m ⟨t, σ.views⟩ :=
    ⟨hwell, fun p hp => (h.known p hp).mono he.retains⟩
  refine ⟨he, ⟨pads, hpads, hhouses.tiles⟩, ?_, hsame, ?_, ?_⟩
  · intro l hl
    refine he.getElem?_eq (h.wellFormed.mutable_used hl.mutable) fun hfree => ?_
    obtain ⟨i, slot, hslot, hin⟩ := hfree
    exact h.wellFormed.data_apart hl (hrow i slot hslot) hin
  · exact fun _ hr => reading_unseen h he hrow hr
  · exact fun _ hq hraw => query_unseen h he.others hsame hq hraw

theorem Houses.fill_self {loc : Location} (h : H.Houses m σ) (hv : .struct v ∈ σ.views)
    (hl : v.loc? = some loc) (hm : loc.segment.message = m) (c : CopyScope) (budget : Nat) :
    Outcome (withBudget budget (fill c v v)) σ.store
      (fun _ t => t.Numbered m → H.Unseen m v σ t)
      fun e t => t.Numbered m → H.Unseen m v σ t ∧ CutShort m c.limit t e := by
  have hk := h.known _ hv
  have hview := hk.view loc hl hm
  have hrow (i : Nat) (slot : Location) (hslot : v.slot? i = some slot) : H.Slot slot := by
    refine hk.field_slot hslot ?_
    obtain ⟨_, _, _, rfl, _, rfl⟩ := StructView.slot?_eq_some.mp hslot
    obtain rfl := Option.some.inj hl
    exact hm
  have hrepeats : H.Repeats m c.limit (fill c v v) ⟨σ.store, budget⟩ :=
    fillWith_repeats h.wellFormed hk.inside hview
  have hextends := fillWith_rewrites c.limit c.levels ⟨σ.store, budget⟩ h.wellFormed.valid hk.inside hl
  rw [hm] at hextends
  refine outcome_withBudget ((hrepeats.and hextends).mono ?_ ?_)
  · rintro _ t ⟨ht, he⟩ hids
    exact h.unseen he hrow (ht hids)
  · rintro e t ⟨ht, he⟩ hids
    exact ⟨h.unseen he hrow (ht hids).1, (ht hids).2⟩

end Heap

/-- A struct of a new message is copied onto itself, anywhere in a session that uses views of that
message. Whether the copy ends well or the budget, the depth, a seal or the arena stops it, what could
be read before reads the same, and landing pads are all that the message may have gained. -/
theorem selfCopy_unseen {σ₀ σ : Session} (h₀ : Session.Reaches Session.Allows Session.empty σ₀)
    {opts : List MessageOption} {m : Nat} {s : Store} (hnew : newMessage opts σ₀.store = .ok m s)
    (h : Session.Reaches (Session.Types m) ⟨s, σ₀.views⟩ σ) (hids : σ.store.Numbered m) :
    ∃ H : Heap, H.Tiles m σ ∧ ∀ (v : StructView) (loc : Location), .struct v ∈ σ.views →
      v.loc? = some loc → loc.segment.message = m → ∀ (c : CopyScope) (budget : Nat),
        Outcome (Edit.fill c budget v v).run σ.store (fun _ t => t.Numbered m → H.Unseen m v σ t)
          fun e t => t.Numbered m → H.Unseen m v σ t ∧ Heap.CutShort m c.limit t e := by
  obtain ⟨hsafe, hfirst⟩ := Heap.newMessage_houses (h₀.safe Session.safe_empty) hnew
  obtain ⟨new, hH⟩ := hfirst.reaches hsafe h hids
  exact ⟨_, hH.tiles, fun v loc hv hl hm c budget => hH.fill_self hv hl hm c budget⟩

/-- A slot of the root struct leads over a pad of two words to a struct in the first segment, which is
full. Copied onto itself, the root struct gets a second pad. -/
theorem selfCopy_unseen_secondPad :
    let s := (Session.empty.after (.creation (.message [.arena (.firstCapacity 16)]))).store
    let v := StructView.backed ⟨⟨0, 1⟩, 0⟩ ⟨8, 1⟩ false
    let u := StructView.backed ⟨⟨0, 0⟩, 8⟩ ⟨8, 0⟩ false
    let σ₁ := (Session.mk s []).after (.creation (.root ⟨0, 0⟩ ⟨8, 1⟩))
    let σ₂ := σ₁.after (.creation (.struct ⟨0, 0⟩ ⟨8, 0⟩))
    let σ := σ₂.after (.edit (.assignField v 0 (.struct u)))
    newMessage [.arena (.firstCapacity 16)] Store.empty = .ok 0 s ∧ .struct v ∈ σ.views ∧
      (v.pointerAt 0 σ.store).toOption = some (.struct u) ∧
      ∃ (H : Heap) (t : Store), H.Tiles 0 σ ∧ (Edit.fill (.top 4) 100 v v).run σ.store = .ok () t ∧
        t.total 0 = σ.store.total 0 + 16 ∧ H.Unseen 0 v σ t := by
  intro s v u σ₁ σ₂ σ
  have hnew : newMessage [.arena (.firstCapacity 16)] Session.empty.store = .ok 0 s := rfl
  have hv : .struct v ∈ σ.views := by decide +kernel
  have hread : (v.pointerAt 0 σ.store).toOption = some (.struct u) := by decide +kernel
  have hroot : Session.Types 0 ⟨s, []⟩ (.creation (.root ⟨0, 0⟩ ⟨8, 1⟩)) :=
    ⟨(by decide +kernel : 0 < s.messages.size), fun h => nomatch h⟩
  have hstruct : Session.Types 0 σ₁ (.creation (.struct ⟨0, 0⟩ ⟨8, 0⟩)) :=
    ⟨(by decide +kernel : 0 < σ₁.store.messages.size), fun h => nomatch h⟩
  have hassign : Session.Types 0 σ₂ (.edit (.assignField v 0 (.struct u))) :=
    ⟨⟨.inr (by decide +kernel), .inr (by decide +kernel)⟩, fun h => nomatch h⟩
  have hreach : Session.Reaches (Session.Types 0) ⟨s, []⟩ σ :=
    ((Relation.ReflTransGen.single ⟨_, hroot, rfl⟩).tail ⟨_, hstruct, rfl⟩).tail ⟨_, hassign, rfl⟩
  have hrun : Outcome.endsIn (Edit.fill (.top 4) 100 v v).run σ.store
      (fun t => decide (t.Numbered 0 ∧ t.total 0 = σ.store.total 0 + 16)) = true := by
    decide +kernel
  obtain ⟨_, t, ht, hend⟩ := Outcome.endsIn_iff.mp hrun
  obtain ⟨hids, htotal⟩ := of_decide_eq_true hend
  obtain ⟨H, hH, hself⟩ := selfCopy_unseen .refl hnew hreach (by decide +kernel)
  have hout := hself v ⟨⟨0, 1⟩, 0⟩ hv rfl rfl (.top 4) 100
  exact ⟨hnew, hv, hread, H, t, hH, ht, htotal, hout.of_ok ht hids⟩

end SegmentedMessage
