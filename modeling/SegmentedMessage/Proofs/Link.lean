import SegmentedMessage.Proofs.Atomicity

namespace SegmentedMessage

/-- The addresses that pointer words can tell. -/
def Aligned (address : Nat) : Prop :=
  address % 8 = 0 ∧ address ≤ largestSegment

theorem Aligned.wordAddress {address : Nat} (h : Aligned address) :
    Layout.wordAddress (Layout.wordIndex address) = address :=
  Layout.wordAddress_wordIndex h.1

theorem Aligned.wordIndex_lt {address : Nat} (h : Aligned address) :
    Layout.wordIndex address < 0x20000000 := by
  obtain ⟨_, hle⟩ := h
  simp only [Layout.wordIndex, largestSegment] at hle ⊢
  omega

theorem Aligned.lt {address : Nat} (h : Aligned address) : address < 0x100000000 :=
  Nat.lt_of_le_of_lt h.2 (by decide)

theorem offsetTo_mul {slot target : Nat} (hs : slot % 8 = 0) (ht : target % 8 = 0) :
    offsetTo slot target * 8 = target - slot - 8 := by
  rw [offsetTo]
  apply Int.tdiv_mul_cancel
  omega

theorem targetFrom_offsetTo {slot target : Nat} (hs : Aligned slot) (ht : Aligned target)
    (w : PointerWord) : targetFrom slot (w.setOffset (offsetTo slot target)) = target := by
  obtain ⟨hsm, hsl⟩ := hs
  obtain ⟨htm, htl⟩ := ht
  have hmul := offsetTo_mul hsm htm
  rw [largestSegment] at hsl htl
  rw [targetFrom, PointerWord.offset_setOffset w (by omega) (by omega)]
  omega

namespace PointerWord

theorem isNull_of_kind {w : PointerWord} (h : w.kind ≠ .struct) : w.isNull = false := by
  rw [isNull, beq_eq_false_iff_ne]
  rintro rfl
  exact h rfl

theorem isNull_of_high {w : PointerWord} (h : w.high ≠ 0) : w.isNull = false := by
  rw [isNull, beq_eq_false_iff_ne]
  rintro rfl
  exact h rfl

/-- Words for content: they are no far pointers, and not even with offset zero are they null. -/
structure Direct (w : PointerWord) : Prop where
  near : w.kind ≠ .far
  visible : w.kind ≠ .struct ∨ w.high ≠ 0

theorem Direct.isNull_setOffset {w : PointerWord} (h : w.Direct) (off : Int) :
    (w.setOffset off).isNull = false := by
  rcases h.visible with hk | hh
  · exact isNull_of_kind (by rwa [kind_setOffset])
  · exact isNull_of_high hh

theorem Direct.near_setOffset {w : PointerWord} (h : w.Direct) (off : Int) :
    (w.setOffset off).kind ≠ .far := by
  rw [kind_setOffset]
  exact h.near

end PointerWord

namespace Store

/-- Following the word at `slot` leads to `target`, told as `w` tells it. -/
structure Leads (s : Store) (slot target : Location) (w : PointerWord) : Prop where
  covers : s.covers slot 8 = true
  visible : (s.wordAt slot).isNull = false
  locate : ∃ v : PointerWord, v.kind = w.kind ∧ v.high = w.high ∧
    s.locate slot (s.wordAt slot) = .ok ⟨target.segment, v, target.address⟩

theorem Leads.pointerAt {s : Store} {slot target : Location} {w : PointerWord}
    (h : s.Leads slot target w) : ∃ v : PointerWord, v.kind = w.kind ∧ v.high = w.high ∧
      s.pointerAt slot = s.readTarget ⟨target.segment, v, target.address⟩ := by
  obtain ⟨v, hk, hh, hl⟩ := h.locate
  refine ⟨v, hk, hh, ?_⟩
  rw [Store.pointerAt, if_pos h.covers, readWord_eq h.covers]
  change (if (s.wordAt slot).isNull then _ else _) = _
  rw [h.visible]
  change (s.locate slot (s.wordAt slot) >>= s.readTarget) = _
  rw [hl]
  rfl

theorem locate_direct {s : Store} {l : Location} {w : PointerWord} (h : w.kind ≠ .far) :
    s.locate l w = .ok ⟨l.segment, w, targetFrom l.address w⟩ := by
  rw [Store.locate, if_neg h]

theorem segment_eq {s : Store} {m id : Nat} (h : id < s.count m) : s.segment m id = .ok ⟨m, id⟩ := by
  rw [segment]
  exact if_pos h

theorem locate_far {s : Store} {slot pad : Location} {double : Bool}
    (hm : pad.segment.message = slot.segment.message) (hpad : Aligned pad.address)
    (hc : pad.segment.index < s.count slot.segment.message)
    (hid : pad.segment.index < 0x100000000) :
    s.locate slot (.ofFar double (Layout.wordIndex pad.address) pad.segment.index) =
      if double then
        s.locateDouble (.ofFar double (Layout.wordIndex pad.address) pad.segment.index) pad
      else s.locateSingle (.ofFar double (Layout.wordIndex pad.address) pad.segment.index) pad := by
  have hseg : (⟨slot.segment.message, pad.segment.index⟩ : SegmentRef) = pad.segment := by
    rw [← hm]
  rw [Store.locate, if_pos (PointerWord.kind_ofFar _ _ _), locateFar,
    PointerWord.padSegment_ofFar _ _ hid, segment_eq hc]
  change (if (PointerWord.ofFar _ _ _).isDouble then _ else _) = _
  rw [PointerWord.isDouble_ofFar, PointerWord.padWord_ofFar _ hpad.wordIndex_lt, hpad.wordAddress,
    hseg]

theorem locateSingle_eq {s : Store} {w : PointerWord} {pad : Location} (hc : s.covers pad 8 = true)
    (hk : (s.wordAt pad).kind ≠ .far) : s.locateSingle w pad =
      .ok ⟨pad.segment, s.wordAt pad, targetFrom pad.address (s.wordAt pad)⟩ := by
  rw [locateSingle, if_pos hc, readWord_eq hc]
  exact if_neg hk

theorem locateDouble_eq {s : Store} {w tag : PointerWord} {pad target : Location}
    (hc : s.covers pad 16 = true)
    (hland : s.wordAt pad = .ofFar false (Layout.wordIndex target.address) target.segment.index)
    (htag : s.wordAt (pad.shift 8) = tag) (hk : tag.kind ≠ .far)
    (hm : target.segment.message = pad.segment.message) (ht : Aligned target.address)
    (hi : target.segment.index < s.count pad.segment.message)
    (hid : target.segment.index < 0x100000000) :
    s.locateDouble w pad = .ok ⟨target.segment, tag, target.address⟩ := by
  have hfirst : s.covers pad 8 = true := covers_take hc (by omega)
  have hsecond : s.covers (pad.shift 8) 8 = true := covers_shift hc (Nat.le_refl 16)
  have hseg : (⟨pad.segment.message, target.segment.index⟩ : SegmentRef) = target.segment := by
    rw [← hm]
  rw [locateDouble, if_pos hc, readWord_eq hfirst, readWord_eq hsecond, hland, htag]
  change (if (PointerWord.ofFar _ _ _).kind ≠ .far ∨ (PointerWord.ofFar _ _ _).isDouble
    ∨ tag.kind = .far then _ else _) = _
  rw [PointerWord.kind_ofFar, PointerWord.isDouble_ofFar, if_neg (by simp [hk])]
  rw [PointerWord.padSegment_ofFar _ _ hid, segment_eq hi,
    PointerWord.padWord_ofFar _ ht.wordIndex_lt, ht.wordAddress, hseg]
  rfl

section Leads

variable {s : Store} {slot pad target : Location} {w : PointerWord}

theorem leads_near (hc : s.covers slot 8 = true) (hs : Aligned slot.address)
    (ht : Aligned target.address) (hseg : target.segment = slot.segment) (hw : w.Direct)
    (hword : s.wordAt slot = w.setOffset (offsetTo slot.address target.address)) :
    s.Leads slot target w := by
  refine ⟨hc, ?_, w.setOffset (offsetTo slot.address target.address),
    PointerWord.kind_setOffset w _, rfl, ?_⟩
  · rw [hword]
    exact hw.isNull_setOffset _
  · rw [hword, locate_direct (hw.near_setOffset _), targetFrom_offsetTo hs ht, hseg]

theorem isNull_ofFar (double : Bool) (pad seg : Nat) :
    (PointerWord.ofFar double pad seg).isNull = false := by
  apply PointerWord.isNull_of_kind
  rw [PointerWord.kind_ofFar]
  exact fun h => nomatch h

theorem leads_single (hc : s.covers slot 8 = true) (hcp : s.covers pad 8 = true)
    (hp : Aligned pad.address) (ht : Aligned target.address)
    (hseg : target.segment = pad.segment) (hm : pad.segment.message = slot.segment.message)
    (hw : w.Direct) (hid : pad.segment.index < 0x100000000)
    (hword : s.wordAt slot = .ofFar false (Layout.wordIndex pad.address) pad.segment.index)
    (hland : s.wordAt pad = w.setOffset (offsetTo pad.address target.address)) :
    s.Leads slot target w := by
  have hcount : pad.segment.index < s.count slot.segment.message := by
    rw [← hm]
    exact (covers_iff.mp hcp).1
  refine ⟨hc, ?_, w.setOffset (offsetTo pad.address target.address),
    PointerWord.kind_setOffset w _, rfl, ?_⟩
  · rw [hword]
    exact isNull_ofFar _ _ _
  · have hk : (s.wordAt pad).kind ≠ .far := by
      rw [hland]
      exact hw.near_setOffset _
    rw [hword, locate_far hm hp hcount hid]
    change s.locateSingle _ pad = _
    rw [locateSingle_eq hcp hk, hland, targetFrom_offsetTo hp ht, hseg]

theorem leads_double (hc : s.covers slot 8 = true) (hcp : s.covers pad 16 = true)
    (hp : Aligned pad.address) (ht : Aligned target.address)
    (htm : target.segment.message = pad.segment.message)
    (hm : pad.segment.message = slot.segment.message) (hw : w.Direct)
    (hti : target.segment.index < s.count pad.segment.message)
    (hid : pad.segment.index < 0x100000000) (htid : target.segment.index < 0x100000000)
    (hword : s.wordAt slot = .ofFar true (Layout.wordIndex pad.address) pad.segment.index)
    (hland : s.wordAt pad = .ofFar false (Layout.wordIndex target.address) target.segment.index)
    (htag : s.wordAt (pad.shift 8) = w.setOffset 0) : s.Leads slot target w := by
  have hcount : pad.segment.index < s.count slot.segment.message := by
    rw [← hm]
    exact (covers_iff.mp hcp).1
  refine ⟨hc, ?_, w.setOffset 0, PointerWord.kind_setOffset w 0, rfl, ?_⟩
  · rw [hword]
    exact isNull_ofFar _ _ _
  · rw [hword, locate_far hm hp hcount hid]
    change s.locateDouble _ pad = _
    exact locateDouble_eq hcp hland htag (hw.near_setOffset 0) htm ht hti htid

end Leads

theorem used_of_extent {s : Store} {l k : Location} {n : Nat} (hc : s.covers l n = true)
    (hk : l.Extent n k) : s.Used k := by
  have hle := (covers_iff.mp hc).2
  rw [Used, hk.1]
  exact Nat.lt_of_lt_of_le hk.2.2 hle

theorem Fresh.not_extent {s : Store} {l k slot : Location} {n : Nat} (h : s.Fresh l)
    (hc : s.covers slot n = true) (hk : l.Onward k) : ¬ slot.Extent n k :=
  fun hin => h.not_used hk (used_of_extent hc hin)

theorem Allocated.address_aligned {s t : Store} {r : SegmentRef} {n : Nat} {l : Location}
    (h : Allocated r n s l t) (hv : s.Valid) : Aligned l.address := by
  refine ⟨h.aligned hv, ?_⟩
  rw [h.address]
  exact hv.length_le l.segment

/-- Far words tell the segments of a message by ids of 32 bits. -/
def Numbered (s : Store) (m : Nat) : Prop :=
  s.count m ≤ 0x100000000

instance (s : Store) (m : Nat) : Decidable (s.Numbered m) :=
  inferInstanceAs (Decidable (s.count m ≤ 0x100000000))

theorem Numbered.before {s t : Store} {m k : Nat} {free : Location → Prop} (h : t.Numbered k)
    (hext : s.Extends m free t) : s.Numbered k :=
  Nat.le_trans (hext.count_le k) h

theorem Numbered.index_lt {s : Store} {l : Location} {m n : Nat} (h : s.Numbered m)
    (hl : l.segment.message = m) (hc : s.covers l n = true) : l.segment.index < 0x100000000 := by
  have hlt := (covers_iff.mp hc).1
  rw [hl] at hlt
  exact Nat.lt_of_lt_of_le hlt h

def Outside (s : Store) (l : Location) (n : Nat) (k : Location) : Prop :=
  s.Used k ∧ ¬ l.Extent n k

theorem wordAt_slot {s t t₁ u : Store} {slot : Location} {v : PointerWord}
    (ht : Pasted slot (LittleEndian.encode 8 v.toNat) t t₁) (hc : t.covers slot 8 = true)
    (hu : t₁.Grows slot.segment.message (s.Outside slot 8) u) :
    u.covers slot 8 = true ∧ u.wordAt slot = v := by
  have hc₁ := ht.extends_.covers hc
  refine ⟨hu.covers rfl hc₁, ?_⟩
  rw [hu.wordAt_eq rfl hc₁ fun k hk hfree => hfree.2 hk, ht.wordAt hc]

structure Linkable (s : Store) (slot target : Location) (w : PointerWord) : Prop where
  valid : s.Valid
  covers : s.covers slot 8 = true
  slot_mod : slot.address % 8 = 0
  message : target.segment.message = slot.segment.message
  segment : target.segment.index < s.count slot.segment.message
  target_aligned : Aligned target.address
  direct : w.Direct

theorem Linkable.slot_aligned {s : Store} {slot target : Location} {w : PointerWord}
    (h : Linkable s slot target w) : Aligned slot.address := by
  refine ⟨h.slot_mod, ?_⟩
  have hle := (covers_iff.mp h.covers).2
  have hmax := h.valid.length_le slot.segment
  omega

theorem Fresh.wordAt_eq {s t t₁ u : Store} {l slot : Location} (hf : s.Fresh l)
    (hs : s.covers slot 8 = true) (hm : l.segment.message = slot.segment.message)
    (hc : t.covers l 8 = true) (ht : t.Grows slot.segment.message (slot.Extent 8) t₁)
    (hu : t₁.Grows slot.segment.message (s.Outside slot 8) u) : u.wordAt l = t.wordAt l := by
  rw [hu.wordAt_eq hm (ht.covers hm hc) fun k hk hfree => hf.not_used hk.onward hfree.1,
    ht.wordAt_eq hm hc fun k hk => hf.not_extent hs hk.onward]

variable {s : Store} {slot target : Location} {w : PointerWord}

/-- How the slot was linked: directly, over a new pad of one word beside the target, or over a new
pad of two words. The words are there as long as changes keep out of the slot. -/
inductive Linked (s : Store) (slot target : Location) (w : PointerWord) (t : Store) : Prop where
  | near (hseg : target.segment = slot.segment)
      (hlen : ∀ r, (t.contents r).length = (s.contents r).length)
      (hwords : ∀ u, t.Grows slot.segment.message (s.Outside slot 8) u →
        u.covers slot 8 = true ∧
          u.wordAt slot = w.setOffset (offsetTo slot.address target.address))
  | single (pad : Location) (t₀ : Store) (hseg : pad.segment = target.segment)
      (hpad : Allocated target.segment 8 s pad t₀)
      (hlen : ∀ r, (t.contents r).length = (t₀.contents r).length)
      (hwords : ∀ u, t.Grows slot.segment.message (s.Outside slot 8) u →
        u.covers slot 8 = true ∧ u.covers pad 8 = true ∧
          u.wordAt slot = .ofFar false (Layout.wordIndex pad.address) pad.segment.index ∧
          u.wordAt pad = w.setOffset (offsetTo pad.address target.address))
  | double (pad : Location) (t₀ : Store) (hpad : Allocated slot.segment 16 s pad t₀)
      (hlen : ∀ r, (t.contents r).length = (t₀.contents r).length)
      (hwords : ∀ u, t.Grows slot.segment.message (s.Outside slot 8) u →
        u.covers slot 8 = true ∧ u.covers pad 16 = true ∧
          u.wordAt slot = .ofFar true (Layout.wordIndex pad.address) pad.segment.index ∧
          u.wordAt pad = .ofFar false (Layout.wordIndex target.address) target.segment.index ∧
          u.wordAt (pad.shift 8) = w.setOffset 0)

theorem linkNear_linked (hseg : target.segment = slot.segment) :
    Outcome (linkNear slot target w) s (fun _ t => Linked s slot target w t) fun _ t => t = s := by
  refine (outcome_writeWord slot _ s).mono ?_ fun _ _ h => h.1
  rintro _ t ⟨ht, hc⟩
  exact .near hseg ht.length_eq fun u hu => wordAt_slot ht hc hu

theorem linkSingle_linked {pad : Location} {t : Store} (hc : s.covers slot 8 = true)
    (htm : target.segment.message = slot.segment.message) (hseg : pad.segment = target.segment)
    (ht : Allocated target.segment 8 s pad t) :
    Outcome (linkSingle slot pad target w) t (fun _ t' => Linked s slot target w t')
      fun _ _ => False := by
  have hm : pad.segment.message = slot.segment.message := ht.message.trans htm
  have hsize : target.segment.message < s.messages.size := by
    rw [htm]
    exact lt_size_of_covers hc
  have hcp : t.covers pad 8 = true := ht.covers hsize
  refine Outcome.bind_of (outcome_writeWord pad _ t) (fun _ _ he => ?_) ?_
  · rw [hcp] at he
    cases he.2.2
  rintro _ t₁ ⟨h₁, _⟩
  have hcp₁ := h₁.extends_.covers hcp
  have hcs : t₁.covers slot 8 = true := h₁.extends_.covers (ht.extends_.covers hc)
  refine (outcome_writeWord slot _ t₁).mono ?_ fun _ _ he => ?_
  · rintro _ t₂ ⟨h₂, _⟩
    refine .single pad t hseg ht (fun r => (h₂.length_eq r).trans (h₁.length_eq r)) fun u hu => ?_
    obtain ⟨hcu, hword⟩ := wordAt_slot h₂ hcs hu
    have hext : t₁.Grows slot.segment.message (slot.Extent 8) t₂ := by
      have := h₂.extends_.grows
      rwa [LittleEndian.length_encode] at this
    have hland := ht.fresh.wordAt_eq hc hm hcp₁ hext hu
    rw [h₁.wordAt hcp] at hland
    exact ⟨hcu, hu.covers hm (h₂.extends_.covers hcp₁), hword, hland⟩
  · rw [hcs] at he
    cases he.2.2

theorem linkDouble_linked (hc : s.covers slot 8 = true) :
    Outcome (linkDouble slot target w) s (fun _ t => Linked s slot target w t)
      fun _ t => t = s := by
  refine Outcome.bind_of (outcome_allocate slot.segment 16 s) (fun _ _ he => he.1) ?_
  intro pad t ht
  have hm : pad.segment.message = slot.segment.message := ht.message
  have hcp : t.covers pad 16 = true := ht.covers (lt_size_of_covers hc)
  have hcp₀ : t.covers pad 8 = true := covers_take hcp (by omega)
  have hct : t.covers (pad.shift 8) 8 = true := covers_shift hcp (Nat.le_refl 16)
  refine Outcome.bind_of (outcome_writeWord pad _ t) (fun _ _ he => ?_) ?_
  · rw [hcp₀] at he
    cases he.2.2
  rintro _ t₁ ⟨h₁, _⟩
  have hct₁ := h₁.extends_.covers hct
  refine Outcome.bind_of (outcome_writeWord (pad.shift 8) _ t₁) (fun _ _ he => ?_) ?_
  · rw [hct₁] at he
    cases he.2.2
  rintro _ t₂ ⟨h₂, _⟩
  have hcs : t₂.covers slot 8 = true :=
    h₂.extends_.covers (h₁.extends_.covers (ht.extends_.covers hc))
  refine (outcome_writeWord slot _ t₂).mono ?_ fun _ _ he => ?_
  · rintro _ t₃ ⟨h₃, _⟩
    refine .double pad t ht (fun r => ?_) fun u hu => ?_
    · rw [h₃.length_eq, h₂.length_eq, h₁.length_eq]
    have hext : t₂.Grows slot.segment.message (slot.Extent 8) t₃ := by
      have := h₃.extends_.grows
      rwa [LittleEndian.length_encode] at this
    have hpad₁ : t₁.covers pad 8 = true := h₁.extends_.covers hcp₀
    have hpad₂ : t₂.covers pad 8 = true := h₂.extends_.covers hpad₁
    have hcpu : u.covers pad 16 = true :=
      hu.covers hm (h₃.extends_.covers (h₂.extends_.covers (h₁.extends_.covers hcp)))
    obtain ⟨hcu, hword⟩ := wordAt_slot h₃ hcs hu
    have hland := ht.fresh.wordAt_eq hc hm hpad₂ hext hu
    have hkeep : t₂.wordAt pad = t₁.wordAt pad := by
      refine h₂.extends_.wordAt_eq hpad₁ fun k hk hin => ?_
      have hlo := hin.2.1
      have hhi := hk.2.2
      rw [Location.shift_address] at hlo
      omega
    rw [hkeep, h₁.wordAt hcp₀] at hland
    have hfresh : s.Fresh (pad.shift 8) := Nat.le_trans ht.fresh (Nat.le_add_right _ _)
    have htag := hfresh.wordAt_eq hc hm (h₂.extends_.covers hct₁) hext hu
    rw [h₂.wordAt hct₁] at htag
    exact ⟨hcu, hcpu, hword, hland, htag⟩
  · rw [hcs] at he
    cases he.2.2

theorem link_linked (hc : s.covers slot 8 = true)
    (hm : target.segment.message = slot.segment.message) :
    Outcome (link slot target w) s (fun _ t => Linked s slot target w t) fun _ t => t = s := by
  unfold link
  split
  · rename_i hseg
    exact linkNear_linked hseg
  · unfold linkFar
    refine Outcome.bind_of (outcome_allocateHere target.segment 8 s) (fun _ _ he => he.1) ?_
    rintro pad? t (⟨rfl, rfl⟩ | ⟨pad, rfl, hseg, ht⟩)
    · exact linkDouble_linked hc
    · exact (linkSingle_linked hc hm hseg ht).mono (fun _ _ hl => hl) fun _ _ hf => hf.elim

theorem Linked.leads {t u : Store} (hl : Linked s slot target w t) (h : Linkable s slot target w)
    (ht : s.count slot.segment.message ≤ t.count slot.segment.message)
    (hids : t.Numbered slot.segment.message)
    (hu : t.Grows slot.segment.message (s.Outside slot 8) u) : u.Leads slot target w := by
  cases hl with
  | near hseg _ hwords =>
      obtain ⟨hcu, hword⟩ := hwords u hu
      exact leads_near hcu h.slot_aligned h.target_aligned hseg h.direct hword
  | single pad t₀ hseg hpad _ hwords =>
      have hm : pad.segment.message = slot.segment.message := hpad.message.trans h.message
      obtain ⟨hcu, hcpu, hword, hland⟩ := hwords u hu
      obtain ⟨_, hcpt, _⟩ := hwords t (.refl _ _ _)
      exact leads_single hcu hcpu (hpad.address_aligned h.valid) h.target_aligned hseg.symm hm
        h.direct (hids.index_lt hm hcpt) hword hland
  | double pad t₀ hpad _ hwords =>
      have hm : pad.segment.message = slot.segment.message := hpad.message
      have htm : target.segment.message = pad.segment.message := h.message.trans hm.symm
      have hsegment := Nat.lt_of_lt_of_le h.segment ht
      obtain ⟨hcu, hcpu, hword, hland, htag⟩ := hwords u hu
      obtain ⟨_, hcpt, _⟩ := hwords t (.refl _ _ _)
      refine leads_double hcu hcpu (hpad.address_aligned h.valid) h.target_aligned htm hm h.direct ?_
        (hids.index_lt hm hcpt) (Nat.lt_of_lt_of_le hsegment hids) hword hland htag
      rw [hm]
      exact Nat.lt_of_lt_of_le hsegment hu.count_le

theorem link_leads (h : Linkable s slot target w) :
    Outcome (link slot target w) s
      (fun _ t => t.Numbered slot.segment.message →
        ∀ u, t.Grows slot.segment.message (s.Outside slot 8) u → u.Leads slot target w)
      fun _ _ => True := by
  have hlink := (link_linked h.covers h.message).and (link_writesOnly w h.message s)
  refine hlink.mono ?_ fun _ _ _ => trivial
  rintro _ t ⟨hl, he⟩ hids u hu
  exact hl.leads h (he.count_le _) hids hu

end Store

end SegmentedMessage
