import SegmentedMessage.Proofs.Heap

namespace SegmentedMessage

open Store

namespace Store

variable {n : Nat} {s t : Store} {l : Location} {r : SegmentRef}

theorem Allocated.used (h : Allocated r n s l t) (hm : r.message < s.messages.size)
    (hn : n % 8 = 0) (k : Location) : t.Used k ↔ s.Used k ∨ l.Extent n k := by
  have haddress := h.address
  rw [Used, Used, h.contents hm]
  split
  · rename_i hk
    rw [List.length_append, List.length_replicate, Layout.roundUp_of_aligned hn, hk, ← haddress]
    constructor
    · intro hlt
      by_cases hle : l.address ≤ k.address
      · exact .inr ⟨hk, hle, hlt⟩
      · exact .inl (Nat.lt_of_not_le hle)
    · rintro (hlt | ⟨_, _, hlt⟩)
      · exact Nat.lt_of_lt_of_le hlt (Nat.le_add_right _ _)
      · exact hlt
  · rename_i hk
    exact ⟨.inl, fun hl => hl.elim id fun hin => absurd hin.1 hk⟩

theorem wordAt_of_zeros {k : Location} (h : s.range l n = List.replicate n 0)
    (hs : k.segment = l.segment) (hlo : l.address ≤ k.address)
    (hhi : k.address + 8 ≤ l.address + n) : s.wordAt k = .null := by
  obtain ⟨j, hj⟩ := Nat.exists_eq_add_of_le hlo
  have hwindow : s.range k 8 = List.replicate 8 0 := by
    rw [range, hs, hj, ← window_window (n := n) (by omega)]
    change window (s.range l n) j 8 = _
    rw [h, window, List.drop_replicate, List.take_replicate, Nat.min_eq_left (by omega)]
  rw [wordAt, hwindow, LittleEndian.decode_replicate_zero]
  rfl

end Store

namespace Heap

variable {H new : Heap} {m : Nat} {s t u : Store} {slot target : Location} {p : Pointer}
  {w : PointerWord}

theorem ShownAs.of_word (hm : slot.segment.message = m) (hc : t.covers slot 8 = true)
    (hw : t.wordAt slot = w) (hp : H.Shows p)
    (hhome : ∀ l, p = .struct (.backed l .empty false) → l = slot)
    (hread : ∀ u : Store, u.covers slot 8 = true → u.wordAt slot = w → u.pointerAt slot = .ok p) :
    H.ShownAs m t slot p := by
  refine ⟨hp, hhome, fun u hu => hread u (hu.covers hm hc) ?_⟩
  rw [hu.wordAt_eq hm hc fun _ hl hfree => hfree.2 hl, hw]

theorem Shown.null (hm : slot.segment.message = m) (hc : t.covers slot 8 = true)
    (hw : t.wordAt slot = .null) : H.Shown m t slot :=
  ⟨.null, .of_word hm hc hw (.inl rfl) (fun _ h => nomatch h) fun _ hc hw => pointerAt_null hc hw⟩

namespace WellFormed

theorem data {changed : Location → Prop} (h : H.WellFormed m s) (ht : s.Overwrites m changed t)
    (hc : ∀ l, changed l → H.Data l) : H.WellFormed m t := by
  refine h.grow [] ht.1 (fun l hl _ => (hc l hl).mutable) (fun _ ha => nomatch ha) .nil
    (fun _ ha => nomatch ha) ?_ ?_ ?_
  · intro l _
    rw [ht.used]
    simp
  · exact fun slot hslot => .inl fun l hl => h.data_apart (hc l hl) hslot
  · rintro slot ⟨a, ha, _⟩
    cases ha

theorem allocate {a : Place} (h : H.WellFormed m s) (he : s.Extends m untouched t)
    (hf : s.Fresh a.start) (ha : a.Sound m t)
    (hused : ∀ l, l.segment.message = m → (t.Used l ↔ s.Used l ∨ a.region.Has l))
    (hnull : ∀ slot, a.Slot slot → t.wordAt slot = .null) : Heap.WellFormed ([a] ++ H) m t := by
  refine h.grow [a] he (fun _ hl => hl.elim) ?_ (List.pairwise_singleton _ _) ?_ ?_ ?_ ?_
  · intro b hb l hl
    obtain rfl := List.mem_singleton.mp hb
    exact hf.not_used hl.onward
  · intro b hb
    obtain rfl := List.mem_singleton.mp hb
    exact ha
  · intro l hl
    rw [hused l hl]
    simp
  · exact fun slot _ => .inl fun _ hl => hl.elim
  · rintro slot ⟨b, hb, hslot⟩
    obtain rfl := List.mem_singleton.mp hb
    obtain ⟨hseg, _, hhi⟩ := hslot.bounds
    refine .null ?_ (covers_mono ha.covers hseg hhi) (hnull slot hslot)
    rw [hseg]
    exact ha.message

theorem rewrite {changed : Location → Prop} (h : H.WellFormed m s) (ht : s.Overwrites m changed t)
    (hc : ∀ l, changed l → H.Mutable l)
    (hslots : ∀ slot, H.Slot slot → (∀ l, changed l → ¬ slot.Extent 8 l) ∨ H.Shown m t slot) :
    H.WellFormed m t := by
  refine h.grow [] ht.1 (fun l hl _ => hc l hl) (fun _ ha => nomatch ha) .nil
    (fun _ ha => nomatch ha) ?_ hslots ?_
  · intro l _
    rw [ht.used]
    simp
  · rintro slot ⟨a, ha, _⟩
    cases ha

theorem word (h : H.WellFormed m s) (hs : H.Slot slot) (ht : s.Overwrites m (slot.Extent 8) t)
    (hshown : H.Shown m t slot) : H.WellFormed m t := by
  refine h.rewrite ht (fun l hl => hs.mutable hl) fun other ho => ?_
  by_cases hother : slot = other
  · subst hother
    exact .inr hshown
  · exact .inl fun l hl => h.slots_apart hs ho hother hl

theorem start_aligned {a : Place} (h : H.WellFormed m s) (ha : a ∈ H) :
    Aligned a.start.address := by
  have hle := (covers_iff.mp (h.sound a ha).covers).2
  have hmax := h.valid.length_le a.start.segment
  exact ⟨(h.sound a ha).aligned, by omega⟩

theorem placed_struct {loc : Location} {shape : StructShape} {free : Location → Prop}
    (h : H.WellFormed m s) (ha : ⟨loc, .struct shape⟩ ∈ H) (hne : shape.isEmpty = false) :
    Placed m free s loc (.ofStruct 0 shape) (.struct (.backed loc shape false)) :=
  .struct (h.sound _ ha).message (h.start_aligned ha) (h.sound _ ha).regular hne
    (h.sound _ ha).covers

theorem placed_list {v : ListView} (h : H.WellFormed m s) (hv : H.Object (.list v))
    (hstart : v.start? = some target) : Placed m H.Mutable s target v.word (.list v) := by
  cases v with
  | absent => exact hv.elim
  | backed loc len elem shape =>
      have plain (hne : elem ≠ .composite) (hs : shape = .empty) (ha : ⟨loc, .list elem len⟩ ∈ H) :
          Placed m H.Mutable s loc (.ofList 0 elem len) (.list (.backed loc len elem shape)) := by
        subst hs
        exact .plain (h.sound _ ha).message (h.start_aligned ha) hne (h.sound _ ha).regular.2
          (h.sound _ ha).covers
      cases elem with
      | composite =>
          obtain ⟨tag, rfl, ha⟩ := hv
          rw [ListView.start_eq] at hstart
          obtain rfl := Option.some.inj hstart
          obtain ⟨hr, hlen, hwords⟩ := (h.sound _ ha).regular
          refine .composite (h.sound _ ha).message (h.start_aligned ha) hr hlen hwords
            (h.sound _ ha).covers (h.sound _ ha).words fun l hl hmutable => ?_
          obtain ⟨b, hb, hbl⟩ := hmutable
          have hhas : (Place.mk tag (.composite shape len)).region.Has l :=
            hl.mono (Nat.le_add_right _ _)
          obtain rfl := h.place_unique ha hb hhas hbl.has
          exact Place.tag_apart hbl hl
      | _ =>
          obtain rfl := Option.some.inj hstart
          exact plain (fun he => nomatch he) hv.1 hv.2

theorem pad {pad : Location} {double : Bool} {r : SegmentRef} {t₀ : Store} (h : H.WellFormed m s)
    (hs : H.Slot slot) (he : s.Extends m (slot.Extent 8) t) (hr : r.message = m)
    (hpad : Allocated r (if double then 16 else 8) s pad t₀)
    (hlen : ∀ q, (t.contents q).length = (t₀.contents q).length)
    (hc : t.covers pad (if double then 16 else 8) = true) (hwords : (Block.pad double).Words t pad)
    (hshown : Shown ([⟨pad, .pad double⟩] ++ H) m t slot) :
    Heap.WellFormed ([⟨pad, .pad double⟩] ++ H) m t := by
  have hsize : r.message < s.messages.size := by
    rw [hr, ← h.slot_message hs]
    exact lt_size_of_covers (h.slot_covers hs)
  refine h.grow [⟨pad, .pad double⟩] he (fun l hl _ => hs.mutable hl) ?_
    (List.pairwise_singleton _ _) ?_ ?_ ?_ ?_
  · intro a ha l hl
    obtain rfl := List.mem_singleton.mp ha
    exact hpad.fresh.not_used hl.onward
  · intro a ha
    obtain rfl := List.mem_singleton.mp ha
    exact ⟨hpad.message.trans hr, hpad.aligned h.valid, hc, trivial, hwords⟩
  · intro l _
    have hmod : (if double then 16 else 8) % 8 = 0 := by
      cases double <;> rfl
    rw [Used, hlen, ← Used, hpad.used hsize hmod]
    simp [Place.region, Block.size, Region.Has]
  · intro other ho
    by_cases hother : slot = other
    · subst hother
      exact .inr hshown
    · exact .inl fun l hl => h.slots_apart hs ho hother hl
  · rintro other ⟨a, ha, hslot⟩
    obtain rfl := List.mem_singleton.mp ha
    exact hslot.elim

end WellFormed

theorem pad_fixed (pad : Location) (double : Bool) (l : Location) :
    ¬ Mutable [⟨pad, .pad double⟩] l := by
  rintro ⟨a, ha, hal⟩
  obtain rfl := List.mem_singleton.mp ha
  rcases hal with hdata | ⟨slot, hslot, _⟩
  · exact hdata
  · exact hslot

def Kept (H : Heap) (m : Nat) (t : Store) : Prop :=
  t.Numbered m → ∃ new : Heap, Heap.WellFormed (new ++ H) m t

theorem WellFormed.kept (h : H.WellFormed m t) : H.Kept m t :=
  fun _ => ⟨[], h⟩

theorem Kept.further (h : Kept (new ++ H) m t) : H.Kept m t := by
  intro hids
  obtain ⟨more, hmore⟩ := h hids
  exact ⟨more ++ new, by rwa [List.append_assoc]⟩

def OnlyPads (H : Heap) : Prop :=
  ∀ a ∈ H, ∃ double, a.block = .pad double

theorem OnlyPads.nil : OnlyPads [] :=
  List.forall_mem_nil _

theorem OnlyPads.single (pad : Location) (double : Bool) : OnlyPads [⟨pad, .pad double⟩] := by
  intro a ha
  obtain rfl := List.mem_singleton.mp ha
  exact ⟨double, rfl⟩

theorem OnlyPads.append (h : OnlyPads new) (hH : H.OnlyPads) : OnlyPads (new ++ H) := by
  intro a ha
  rcases List.mem_append.mp ha with ha | ha
  · exact h a ha
  · exact hH a ha

def Assigned (H : Heap) (m : Nat) (slot : Location) (p : Pointer) (t : Store) : Prop :=
  t.Numbered m → ∃ pads : Heap, pads.OnlyPads ∧ Heap.WellFormed (pads ++ H) m t ∧
    t.pointerAt slot = .ok p

theorem Assigned.kept (h : H.Assigned m slot p t) : H.Kept m t := by
  intro hids
  obtain ⟨pads, _, hpads, _⟩ := h hids
  exact ⟨pads, hpads⟩

namespace WellFormed

theorem assigned (h : H.WellFormed m t) (hp : t.pointerAt slot = .ok p) : H.Assigned m slot p t :=
  fun _ => ⟨[], .nil, h, hp⟩

theorem outcome_writeWord (h : H.WellFormed m s) (hs : H.Slot slot) (hp : H.Shows p)
    (hhome : ∀ l, p = .struct (.backed l .empty false) → l = slot)
    (hread : ∀ u : Store, u.covers slot 8 = true → u.wordAt slot = w → u.pointerAt slot = .ok p) :
    Outcome (writeWord slot w) s (fun _ t => H.Assigned m slot p t) fun _ t => t = s := by
  refine (Store.outcome_writeWord slot w s).mono ?_ fun _ _ he => he.1
  rintro _ t ⟨ht, hc⟩
  have hm := h.slot_message hs
  have hwrites := ht.overwrites
  rw [hm, LittleEndian.length_encode] at hwrites
  have hshown : H.ShownAs m t slot p :=
    .of_word hm (ht.extends_.covers hc) (ht.wordAt hc) hp hhome hread
  exact (h.word hs hwrites ⟨p, hshown⟩).assigned hshown.pointerAt

theorem outcome_writeNull (h : H.WellFormed m s) (hs : H.Slot slot) :
    Outcome (writeWord slot .null) s (fun _ t => H.Assigned m slot .null t) fun _ t => t = s :=
  h.outcome_writeWord hs (.inl rfl) (fun _ hp => nomatch hp) fun _ hc hw => pointerAt_null hc hw

theorem outcome_writeCapability (h : H.WellFormed m s) (hs : H.Slot slot) (i : UInt32) :
    Outcome (writeWord slot (.ofCapability i)) s (fun _ t => H.Assigned m slot (.capability i) t)
      fun _ t => t = s :=
  h.outcome_writeWord hs (.inr (.inl ⟨i, rfl⟩)) (fun _ hp => nomatch hp) fun _ hc hw =>
    pointerAt_capability hc hw

theorem outcome_writeEmptyStruct (h : H.WellFormed m s) (hs : H.Slot slot) :
    Outcome (writeWord slot .emptyStruct) s
      (fun _ t => H.Assigned m slot (.struct (.backed slot .empty false)) t) fun _ t => t = s := by
  have hlt := h.valid.address_lt_of_covers (h.slot_covers hs)
  refine h.outcome_writeWord hs (.inr (.inr (.inl ⟨slot, rfl⟩))) ?_ fun _ hc hw =>
    pointerAt_emptyStruct hc hlt hw
  rintro _ ⟨⟩
  rfl

theorem linkable (h : H.WellFormed m s) (hs : H.Slot slot) (hp : Placed m H.Mutable s target w p) :
    Linkable s slot target w where
  valid := h.valid
  covers := h.slot_covers hs
  slot_mod := h.slot_aligned hs
  message := hp.message.trans (h.slot_message hs).symm
  segment := by
    rw [h.slot_message hs]
    exact hp.segment
  target_aligned := hp.aligned
  direct := hp.direct

theorem linked_shown (h : H.WellFormed m s) (hs : H.Slot slot) (hp : H.Shows p)
    (hsized : ∀ l, p ≠ .struct (.backed l .empty false))
    (hplaced : Placed m H.Mutable s target w p) (hl : Linked s slot target w t)
    (he : s.Extends m (slot.Extent 8) t) (hids : t.Numbered m) (hfixed : ∀ l, ¬ Mutable new l) :
    ShownAs (new ++ H) m t slot p := by
  have hm := h.slot_message hs
  have hlinkable := h.linkable hs hplaced
  subst hm
  have hold (l : Location) (hl : Mutable (new ++ H) l) : H.Mutable l := by
    obtain ⟨a, ha, hal⟩ := hl
    rcases List.mem_append.mp ha with ha | ha
    · exact absurd ⟨a, ha, hal⟩ (hfixed l)
    · exact ⟨a, ha, hal⟩
  refine ⟨hp.mono, fun l hpl => absurd hpl (hsized l), fun u hu => ?_⟩
  have hfirst : s.Grows slot.segment.message H.Mutable t :=
    he.grows.weaken fun l _ _ hl => hs.mutable hl
  have hsecond : t.Grows slot.segment.message H.Mutable u :=
    hu.weaken fun l _ _ hfree => hold l hfree.1
  refine hplaced.shown u slot (hfirst.trans hsecond) ?_
  refine hl.leads hlinkable (he.count_le _) hids (hu.weaken fun l _ _ hfree => ?_)
  exact ⟨h.mutable_used (hold l hfree.1), hfree.2⟩

theorem outcome_link (h : H.WellFormed m s) (hs : H.Slot slot) (hp : H.Shows p)
    (hsized : ∀ l, p ≠ .struct (.backed l .empty false))
    (hplaced : Placed m H.Mutable s target w p) :
    Outcome (link slot target w) s (fun _ t => H.Assigned m slot p t) fun _ t => t = s := by
  have hm := h.slot_message hs
  have hlinkable := h.linkable hs hplaced
  have hlink := (link_linked hlinkable.covers hlinkable.message).and
    (link_writesOnly w hlinkable.message s)
  refine hlink.mono ?_ fun _ _ he => he.1
  rintro _ t ⟨hl, he⟩ hids
  rw [hm] at he
  have hshown (new : Heap) (hfixed : ∀ l, ¬ Mutable new l) : ShownAs (new ++ H) m t slot p :=
    h.linked_shown hs hp hsized hplaced hl he hids hfixed
  cases hl with
  | near hseg hlen hwords =>
      have hslot : ShownAs ([] ++ H) m t slot p := by
        refine hshown [] ?_
        rintro l ⟨a, ha, _⟩
        cases ha
      exact (h.word hs ⟨he, hlen⟩ ⟨p, hslot⟩).assigned hslot.pointerAt hids
  | single pad t₀ hseg hpad hlen hwords =>
      obtain ⟨_, hc, _, hland⟩ := hwords t (.refl _ _ _)
      have hslot := hshown _ (pad_fixed pad false)
      refine ⟨[⟨pad, .pad false⟩], .single pad false,
        h.pad hs he hplaced.message hpad hlen hc ?_ ⟨p, hslot⟩, hslot.pointerAt⟩
      rw [Block.Words, hland]
      exact hplaced.direct.near_setOffset _
  | double pad t₀ hpad hlen hwords =>
      obtain ⟨_, hc, _, hland, htag⟩ := hwords t (.refl _ _ _)
      have hslot := hshown _ (pad_fixed pad true)
      refine ⟨[⟨pad, .pad true⟩], .single pad true, h.pad hs he hm hpad hlen hc ?_ ⟨p, hslot⟩,
        hslot.pointerAt⟩
      rw [Block.Words, hland, htag]
      exact ⟨PointerWord.kind_ofFar _ _ _, hplaced.direct.near_setOffset _⟩

theorem outcome_linkStruct {shape : StructShape} (h : H.WellFormed m s) (hs : H.Slot slot)
    (ha : ⟨target, .struct shape⟩ ∈ H) (hne : shape.isEmpty = false) :
    Outcome (link slot target (.ofStruct 0 shape)) s
      (fun _ t => H.Assigned m slot (.struct (.backed target shape false)) t) fun _ t => t = s := by
  refine h.outcome_link hs (.inr (.inr (.inr ⟨rfl, ha⟩))) ?_ (h.placed_struct ha hne)
  rintro _ ⟨⟩
  cases hne

theorem outcome_linkList {v : ListView} (h : H.WellFormed m s) (hs : H.Slot slot)
    (hv : H.Object (.list v)) :
    Outcome (linkList slot v) s (fun _ t => H.Assigned m slot (.list v) t) fun _ t => t = s := by
  unfold linkList
  split
  · rename_i target hstart
    split
    · exact h.outcome_link hs (.inr (.inr (.inr hv))) (fun _ hl => nomatch hl)
        (h.placed_list hv hstart)
    · exact Outcome.throw rfl
  · rename_i hnone
    cases v with
    | absent => exact hv.elim
    | backed loc len elem shape => cases elem <;> cases hnone

theorem outcome_clear {l : Location} {n : Nat} (h : H.WellFormed m s)
    (hm : l.segment.message = m) (ha : 0 < n → l.address % 8 = 0)
    (hc : ∀ k, l.Extent (n * 8) k → H.Mutable k) :
    Outcome (clear l (n * 8)) s (fun _ t => H.WellFormed m t) fun _ t => t = s := by
  refine (Store.outcome_clear l (n * 8) s).mono ?_ fun _ _ he => he.1
  intro _ t ht
  have hzeros := ht.range_self (List.length_replicate (n := n * 8))
  have hwrites := ht.overwrites
  rw [hm, List.length_replicate] at hwrites
  refine h.rewrite hwrites hc fun slot hslot => ?_
  have hmod := h.slot_aligned hslot
  by_cases hin : slot.segment = l.segment ∧ l.address ≤ slot.address ∧
      slot.address < l.address + n * 8
  · obtain ⟨hseg, hlo, hhi⟩ := hin
    have hl := ha (by omega)
    refine .inr (.null (h.slot_message hslot) (hwrites.1.covers (h.slot_covers hslot)) ?_)
    exact wordAt_of_zeros hzeros hseg hlo (by omega)
  · refine .inl fun k hk hks => hin ?_
    obtain ⟨hseg, hlo, hhi⟩ := hk
    obtain ⟨hsseg, hslo, hshi⟩ := hks
    exact ⟨hsseg.symm.trans hseg, by omega, by omega⟩

section NewBlock

variable {r : SegmentRef} {l : Location} {shape : StructShape} {elem : ElementKind} {len : Nat}

theorem allocated {b : Block} (h : H.WellFormed m s) (hr : r.message = m)
    (hm : m < s.messages.size) (ht : Allocated r b.size s l t) (hsize : b.size % 8 = 0)
    (hb : b.Regular) (hwords : b.Words t l) : Heap.WellFormed ([⟨l, b⟩] ++ H) m t := by
  subst hr
  refine h.allocate ht.extends_ ht.fresh
    ⟨ht.message, ht.aligned h.valid, ht.covers hm, hb, hwords⟩ ?_ ?_
  · exact fun k _ => ht.used hm hsize k
  · intro slot hslot
    obtain ⟨hseg, hlo, hhi⟩ := hslot.bounds
    exact ht.wordAt_null hm ⟨hseg, hlo⟩ hhi

theorem allocated_struct (h : H.WellFormed m s) (hr : r.message = m) (hm : m < s.messages.size)
    (ht : Allocated r shape.bytes s l t) (hshape : shape.Regular) :
    Heap.WellFormed ([⟨l, .struct shape⟩] ++ H) m t :=
  h.allocated (b := .struct shape) hr hm ht hshape.bytes_mod hshape trivial

theorem allocated_list (h : H.WellFormed m s) (hr : r.message = m) (hm : m < s.messages.size)
    (ht : Allocated r (elem.bytesFor len) s l t) (he : elem ≠ .composite)
    (hlen : len ≤ longestList) : Heap.WellFormed ([⟨l, .list elem len⟩] ++ H) m t :=
  h.allocated (b := .list elem len) hr hm ht (elem.bytesFor_mod len) ⟨he, hlen⟩ trivial

theorem allocated_composite (h : H.WellFormed m s) (hr : r.message = m)
    (hm : m < s.messages.size) (ht : Tagged r shape len s l u t) (hshape : shape.Regular)
    (hlen : len ≤ longestList) (hwords : len * shape.bytes / 8 ≤ longestList) :
    Heap.WellFormed ([⟨l, .composite shape len⟩] ++ H) m t := by
  subst hr
  have ha := ht.allocated
  rw [hshape.composite_bytes] at ha
  have hmod : (8 + len * shape.bytes) % 8 = 0 := by
    have hmul := hshape.mul_bytes_mod len
    omega
  refine h.allocate ht.extends_ ha.fresh ⟨ha.message, ha.aligned h.valid, ht.covers hm hshape,
    ⟨hshape, hlen, hwords⟩, ht.wordAt hm⟩ ?_ ?_
  · intro k _
    rw [Used, ht.pasted.length_eq, ← Used]
    exact ha.used hm hmod k
  · rintro slot ⟨j, hj, hslot⟩
    obtain ⟨hseg, hlo, hhi⟩ := hslot.bounds
    have hle := shape.mul_bytes_le hj
    simp only [StructShape.memberAt_address, StructShape.memberAt_segment] at hseg hlo hhi
    have hc : u.covers slot 8 = true := covers_mono (ha.covers hm) hseg (by omega)
    refine (ht.pasted.extends_.wordAt_eq hc ?_).trans (ha.wordAt_null hm ⟨hseg, by omega⟩ (by omega))
    rintro k ⟨_, hklo, _⟩ ⟨_, _, hkhi⟩
    rw [LittleEndian.length_encode] at hkhi
    omega

end NewBlock

end WellFormed

end Heap

end SegmentedMessage
