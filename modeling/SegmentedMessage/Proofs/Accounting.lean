import SegmentedMessage.Proofs.Growth
import SegmentedMessage.Proofs.Price

namespace SegmentedMessage

open Store Copy

def Exhausted (e : Abort) : Prop :=
  ∃ need limit, e = .failure (.arena (.exhausted need limit))

section Succeeds

def Succeeds {α : Type} (act : StoreM α) (s : Store) : Prop :=
  Outcome act s (fun _ _ => True) fun _ _ => False

variable {s : Store} {l dst src slot : Location} {n : Nat}

theorem Store.writeWord_done (h : s.covers l 8 = true) (w : PointerWord) :
    Succeeds (writeWord l w) s :=
  (writeWord_succeeds h w).mono (fun _ _ _ => trivial) fun _ _ h => h

theorem Store.clear_done (hv : s.Valid) (h : s.covers l n = true) : Succeeds (clear l n) s := by
  refine (outcome_clear l n s).mono (fun _ _ _ => trivial) ?_
  rintro e t ⟨_, ⟨_, hl⟩ | ⟨_, _, hc⟩⟩
  · have hlt := hv.address_lt h
    omega
  · rw [h] at hc
    cases hc

theorem Store.copyBytes_done (hd : s.covers dst n = true) (hs : s.covers src n = true) :
    Succeeds (copyBytes dst src n) s := by
  refine (outcome_copyBytes dst src n s).mono (fun _ _ _ => trivial) ?_
  rintro e t ⟨_, _, _, hc | hc⟩
  · rw [hs] at hc
    cases hc
  · rw [hd] at hc
    cases hc

theorem Copy.pastePrefix_done {src : Option Location} (hd : s.covers dst n = true)
    (hs : ∀ l, src = some l → s.covers l n = true) : Succeeds (pastePrefix dst src n) s := by
  cases src with
  | none => exact Outcome.pure trivial
  | some l => exact copyBytes_done hd (hs l rfl)

theorem Copy.fillData_done {space : Nat} {src : StructView} (hv : s.Valid)
    (hd : s.covers dst space = true) (hs : src.Inside s) :
    Succeeds (fillData dst space src) s := by
  have hprefix : s.covers dst (min space src.shape.data) = true :=
    covers_take hd (Nat.min_le_left _ _)
  have hrest : s.covers (dst.shift (min space src.shape.data))
      (space - min space src.shape.data) = true :=
    covers_shift hd (by omega)
  have hsrc (l : Location) (hl : src.loc? = some l) :
      s.covers l (min space src.shape.data) = true :=
    covers_take (hs.data hl) (Nat.min_le_right _ _)
  have hpaste := (pastePrefix_done hprefix hsrc).and (pastePrefix_overwrites dst src.loc? _ s)
  unfold fillData
  refine Outcome.bind_of hpaste (fun _ _ h => h.1) ?_
  rintro _ t ⟨_, ht⟩
  exact clear_done (ht.1.valid hv) (ht.1.covers hrest)

theorem Store.linkList_refused {v : ListView} (hv : s.Valid) (hs : s.covers slot 8 = true)
    (hin : v.Inside s) (hm : ∀ l, v.loc? = some l → l.segment.message = slot.segment.message) :
    Outcome (linkList slot v) s (fun _ _ => True)
      fun e t => t = s ∧ s.Refused slot.segment.message e := by
  unfold linkList
  split
  · rename_i target htarget
    obtain ⟨loc, hloc, hseg⟩ := ListView.start?_segment htarget
    rw [if_pos (hin.measurable hv)]
    exact link_refused _ hs (by rw [hseg, hm loc hloc])
  · exact (writeWord_done hs .null).mono (fun _ _ h => h) fun _ _ h => h.elim

end Succeeds

namespace Copy

structure Offers (m : Nat) (s₀ s : Store) : Prop where
  keeps : Keeps m s₀ s
  size : m < s.messages.size
  unsealed : (s.message m).isSealed = false

theorem Offers.later {m : Nat} {s₀ s t : Store} {free : Location → Prop} (h : Offers m s₀ s)
    (he : s.Extends m free t) : Offers m s₀ t where
  keeps := h.keeps.later he
  size := he.size ▸ h.size
  unsealed := by
    rw [he.settings]
    exact h.unsealed

theorem Offers.exhausted {m : Nat} {s₀ s : Store} {e : Abort} (h : Offers m s₀ s)
    (hr : s.Refused m e) : Exhausted e := by
  cases hr with
  | isSealed hs =>
    rw [h.unsealed] at hs
    cases hs
  | exhausted _ => exact ⟨_, _, rfl⟩

section Pays

variable {α β : Type} {price p q : Option Nat} {act : CopyM α} {f : α → CopyM β} {st : CopyState}
  {Q : α → CopyState → Prop} {E : Abort → CopyState → Prop}

/-- The run spends the price exactly, and fails where there is none or the budget is below it. Only
for want of memory it may fail before. -/
def Pays (price : Option Nat) (act : CopyM α) (st : CopyState) : Prop :=
  Outcome act st (fun _ t => ∃ n, price = some n ∧ st.budget = t.budget + n)
    fun e _ => Exhausted e ∨ ∀ n, price = some n → st.budget < n

theorem Pays.bind (h : Pays p act st) (hq : Outcome act st Q E)
    (hf : ∀ a t, Q a t → Pays q (f a) t) : Pays (both p q) (act >>= f) st := by
  refine Outcome.bind_of (h.and hq) ?_ ?_
  · rintro e t ⟨he | he, _⟩
    · exact .inl he
    · refine .inr fun n hn => ?_
      obtain ⟨a, b, ha, _, rfl⟩ := both_eq_some.mp hn
      exact Nat.lt_add_right b (he a ha)
  · rintro a t ⟨⟨x, hx, hbudget⟩, hQ⟩
    refine (hf a t hQ).mono ?_ ?_
    · rintro _ u ⟨y, hy, hrest⟩
      exact ⟨x + y, both_eq_some.mpr ⟨x, y, hx, hy, rfl⟩, by omega⟩
    · rintro e u (he | he)
      · exact .inl he
      · refine .inr fun n hn => ?_
        obtain ⟨x', y, hx', hy, rfl⟩ := both_eq_some.mp hn
        obtain rfl : x = x' := Option.some.inj (hx.symm.trans hx')
        have := he y hy
        omega

theorem Pays.of_free (h : Outcome act st (fun _ t => t.budget = st.budget) fun e _ => Exhausted e) :
    Pays (some 0) act st :=
  h.mono (fun _ _ ht => ⟨0, rfl, ht.symm⟩) fun _ _ he => .inl he

theorem Pays.pure (a : α) (st : CopyState) : Pays (some 0) (Pure.pure a : CopyM α) st :=
  .of_free (Outcome.pure rfl)

theorem Pays.after (h : Outcome act st (fun a t => Q a t ∧ t.budget = st.budget)
    fun e _ => Exhausted e) (hf : ∀ a t, Q a t → Pays q (f a) t) : Pays q (act >>= f) st := by
  rw [← zero_both q]
  exact Pays.bind (.of_free (h.mono (fun _ _ ht => ht.2) fun _ _ he => he)) h fun a t ht =>
    hf a t ht.1

theorem Pays.before (h : Pays p act st) (hq : Outcome act st Q E)
    (hf : ∀ a t, Q a t → Pays (some 0) (f a) t) : Pays p (act >>= f) st := by
  rw [← both_zero p]
  exact h.bind hq hf

theorem spend_pays (words : Nat) (st : CopyState) :
    Pays (some (max words 1)) (spend words) st := by
  refine (outcome_spend_exact words st).mono (fun _ t ht => ⟨_, rfl, ht.2⟩) ?_
  rintro e t ⟨_, _, hlt⟩
  refine .inr fun n hn => ?_
  cases hn
  exact hlt

theorem free_store {act : StoreM α} {P : α → Store → Prop}
    (h : Outcome act st.store P fun e _ => Exhausted e) :
    Outcome (onStore act) st (fun a t => P a t.store ∧ t.budget = st.budget)
      fun e _ => Exhausted e :=
  (outcome_onStore h).mono (fun _ _ ht => ht) fun _ _ he => he.1

theorem Pays.of_done {act : StoreM α} (h : Succeeds act st.store) :
    Pays (some 0) (onStore act) st :=
  .of_free ((free_store (h.mono (fun _ _ h => h) fun _ _ h => h.elim)).mono (fun _ _ ht => ht.2)
    fun _ _ he => he)

theorem Pays.read {deeper : Pointer → Option Nat} {r : Except Abort Pointer}
    {read : Store → Except Abort Pointer} {f : Pointer → CopyM β} (hread : read st.store = r)
    (hf : ∀ p, r = .ok p → Pays (both (slotPrice deeper r) q) (f p) st) :
    Pays (both (slotPrice deeper r) q) (onStore (query read) >>= f) st := by
  refine Outcome.bind_of (outcome_onQuery read st) ?_ ?_
  · rintro e t ⟨rfl, he⟩
    rw [hread] at he
    subst he
    -- a slot that does not decode has no price
    exact .inr fun n hn => nomatch hn
  · rintro p t ⟨rfl, hp⟩
    exact hf p (hread.symm.trans hp)

end Pays

section Layers

variable {m : Nat} {s₀ : Store} {price : Pointer → Option Nat} {deeper : Writer}

def Charges (s₀ : Store) (m : Nat) (price : Pointer → Option Nat) (w : Writer) : Prop :=
  ∀ slot p st, Ready m s₀ st.store slot p → (st.store.message m).isSealed = false →
    Pays (price p) (w slot p) st

theorem cloneSlots_pays (hw : Atomic deeper) (hc : Charges s₀ m price deeper) {slots : Location}
    {src : StructView} {j n : Nat} {st : CopyState} (ho : Offers m s₀ st.store)
    (hm : slots.segment.message = m)
    (hcov : st.store.covers (slots.shift (j * 8)) (n * 8) = true) (ha : slots.address % 8 = 0)
    (hsrc : ∀ l, src.loc? = some l → l.segment.message ≠ m) :
    Pays (tally (fun i => slotPrice price (src.pointerAt i s₀)) j n)
      (cloneSlots deeper slots src j n) st := by
  subst hm
  induction n generalizing j st with
  | zero => exact .pure () st
  | succ n ih =>
      have hslot : st.store.covers (slots.shift (j * 8)) 8 = true := covers_take hcov (by omega)
      have hrest : st.store.covers (slots.shift ((j + 1) * 8)) (n * 8) = true :=
        covers_within hcov (by omega)
      have hread := ho.keeps.structPointer hsrc j
      unfold cloneSlots tally
      refine Pays.read hread fun p hp => ?_
      rw [hp]
      rw [← hread] at hp
      have hone : Pays (slotPrice price (.ok p)) (cloneSlot deeper (slots.shift (j * 8)) p) st := by
        unfold cloneSlot
        simp only [slotPrice]
        split
        · exact hc (slots.shift (j * 8)) p st ⟨ho.keeps, rfl, hslot,
            Location.shift_mod ha (Nat.mul_mod_left j 8), ((src.pointerAt_answers j _).of_ok hp).1,
            StructView.pointerAt_foreign hsrc hp⟩ ho.unsealed
        · exact .of_done (writeWord_done hslot .null)
      exact hone.bind (cloneSlot_confined hw (slots.shift (j * 8)) p st) fun _ t he =>
        ih (he.covers hrest) (ho.later he)

theorem fillSlots_pays (hw : Atomic deeper) (hc : Charges s₀ m price deeper) {slots : Location}
    {src : StructView} {st : CopyState} (ho : Offers m s₀ st.store)
    (hm : slots.segment.message = m)
    (hcov : st.store.covers slots (src.shape.slots.toNat * 8) = true) (ha : slots.address % 8 = 0)
    (hsrc : ∀ l, src.loc? = some l → l.segment.message ≠ m) :
    Pays (s₀.slotsPrice price src) (fillSlots deeper slots src.shape.slots.toNat src) st := by
  have hclone : Pays (s₀.slotsPrice price src)
      (cloneSlots deeper slots src 0 src.shape.slots.toNat) st :=
    cloneSlots_pays hw hc ho hm hcov ha hsrc
  have hconfined := cloneSlots_confined hw slots src 0 src.shape.slots.toNat st
  unfold fillSlots
  simp only [Nat.min_self, Nat.sub_self, Nat.zero_mul]
  refine hclone.before hconfined fun _ t he => ?_
  have hend : t.store.covers (slots.shift (src.shape.slots.toNat * 8)) 0 = true :=
    he.covers (covers_shift hcov (Nat.le_refl _))
  rw [hm] at he
  exact .of_done (clear_done (ho.later he).keeps.valid hend)

theorem fillWith_pays (hw : Atomic deeper) (hc : Charges s₀ m price deeper)
    {loc loc' : Location} {shape : StructShape} {member member' : Bool} {st : CopyState}
    (ho : Offers m s₀ st.store) (hm : loc.segment.message = m)
    (hcov : st.store.covers loc shape.bytes = true) (ha : loc.address % 8 = 0)
    (hs : (StructView.backed loc' shape member').Inside st.store)
    (hne : loc'.segment.message ≠ m) :
    Pays (s₀.memberPrice price (.backed loc' shape member'))
      (fillWith deeper (.backed loc shape member) (.backed loc' shape member')) st := by
  subst hm
  have hforeign (l : Location) (hl : (StructView.backed loc' shape member').loc? = some l) :
      l.segment.message ≠ loc.segment.message := by
    cases hl
    exact hne
  have hdata : st.store.covers loc shape.data = true := covers_take hcov (Nat.le_add_right _ _)
  have hslots : st.store.covers (loc.shift shape.data) (shape.slots.toNat * 8) = true :=
    covers_shift hcov (Nat.le_refl _)
  have haligned := Location.shift_mod ha hs.1.1
  unfold fillWith
  refine (spend_pays _ st).bind (outcome_spend _ st) fun _ t ht => ?_
  rw [← ht] at ho hdata hslots hs
  have hfill := (fillData_done ho.keeps.valid hdata hs).and
    (fillData_overwrites loc shape.data (.backed loc' shape member') t.store)
  refine Pays.after (free_store (hfill.mono (fun _ _ h => h) fun _ _ h => h.1.elim)) ?_
  rintro _ u ⟨_, he, _⟩
  exact fillSlots_pays hw hc (ho.later he) rfl (he.covers hslots) haligned hforeign

theorem fillMembers_pays (hw : Atomic deeper) (hc : Charges s₀ m price deeper)
    {loc loc' : Location} {len i n : Nat} {shape : StructShape} {st : CopyState}
    (ho : Offers m s₀ st.store) (hm : loc.segment.message = m) (hin : i + n ≤ len)
    (hcov : st.store.covers (loc.shift (i * shape.bytes)) (n * shape.bytes) = true)
    (ha : loc.address % 8 = 0) (hs : (ListView.backed loc' len .composite shape).Inside st.store)
    (hne : loc'.segment.message ≠ m) :
    Pays (tally (fun i => s₀.memberPrice price
        ((ListView.backed loc' len .composite shape).member i)) i n)
      (fillMembers deeper (.backed loc len .composite shape)
        (.backed loc' len .composite shape) i n) st := by
  subst hm
  induction n generalizing i st with
  | zero => exact .pure () st
  | succ n ih =>
      have hi : i < len := by omega
      have hnext : (i + 1) * shape.bytes = i * shape.bytes + shape.bytes := Nat.succ_mul _ _
      have hall : (n + 1) * shape.bytes = n * shape.bytes + shape.bytes := Nat.succ_mul _ _
      have hone : st.store.covers (loc.shift (i * shape.bytes)) shape.bytes = true :=
        covers_take hcov (by omega)
      have hrest : st.store.covers (loc.shift ((i + 1) * shape.bytes)) (n * shape.bytes) = true :=
        covers_within hcov (by omega)
      have haligned := Location.shift_mod ha (hs.1.mul_bytes_mod i)
      have hmember := hs.member i
      rw [member_eq hi] at hmember
      unfold fillMembers tally
      rw [member_eq hi, member_eq hi]
      have hfill : Pays _ (fillWith deeper (.backed (loc.shift (i * shape.bytes)) shape true)
          (.backed (loc'.shift (i * shape.bytes)) shape true)) st :=
        fillWith_pays hw hc ho rfl hone haligned hmember hne
      refine hfill.bind (fillWith_confined hw _ shape true _ st) fun _ t he => ?_
      exact ih (by omega) (he.covers hrest) (hs.mono he) (ho.later he)

theorem cloneElements_pays (hw : Atomic deeper) (hc : Charges s₀ m price deeper)
    {loc : Location} {src : ListView} {len i n : Nat} {shape : StructShape} {st : CopyState}
    (ho : Offers m s₀ st.store) (hm : loc.segment.message = m) (hin : i + n ≤ len)
    (hcov : st.store.covers (loc.shift (i * 8)) (n * 8) = true) (ha : loc.address % 8 = 0)
    (hsrc : ∀ l, src.loc? = some l → l.segment.message ≠ m) :
    Pays (tally (fun i => slotPrice price (src.pointerAt i s₀)) i n)
      (cloneElements deeper (.backed loc len .pointer shape) src i n) st := by
  subst hm
  induction n generalizing i st with
  | zero => exact .pure () st
  | succ n ih =>
      have hi : i < len := by omega
      have hslot : st.store.covers (loc.shift (i * 8)) 8 = true := covers_take hcov (by omega)
      have hrest : st.store.covers (loc.shift ((i + 1) * 8)) (n * 8) = true :=
        covers_within hcov (by omega)
      have hread := ho.keeps.listPointer hsrc i
      unfold cloneElements tally
      refine Pays.read hread fun p hp => ?_
      rw [hp]
      rw [← hread] at hp
      have hconfined := cloneElement_confined hw loc len shape i p st
      rw [slot_eq hi] at hconfined ⊢
      have hone : Pays (slotPrice price (.ok p))
          (cloneElement deeper (some (loc.shift (i * 8))) p) st := by
        simp only [cloneElement, slotPrice]
        split
        · exact hc (loc.shift (i * 8)) p st ⟨ho.keeps, rfl, hslot,
            Location.shift_mod ha (Nat.mul_mod_left i 8), ((src.pointerAt_answers i _).of_ok hp).1,
            ListView.pointerAt_foreign hsrc hp⟩ ho.unsealed
        · exact .pure () st
      exact hone.bind hconfined fun _ t he => ih (by omega) (he.covers hrest) (ho.later he)

theorem cloneStruct_pays (hw : Atomic deeper) (hc : Charges s₀ m price deeper)
    {slot loc : Location} {shape : StructShape} {member : Bool} {st : CopyState}
    (hr : Ready m s₀ st.store slot (.struct (.backed loc shape member)))
    (ho : Offers m s₀ st.store) :
    Pays (s₀.memberPrice price (.backed loc shape member))
      (cloneStruct deeper slot shape (.backed loc shape member)) st := by
  obtain ⟨hk, rfl, hslot, _, hin, hforeign⟩ := hr
  have hfits : shape.bytes ≤ largestSegment := covers_fits hk.valid hin.2
  have halloc := (outcome_allocate slot.segment shape.bytes st.store).and
    (allocate_total slot.segment shape.bytes st.store)
  unfold cloneStruct
  refine Pays.after (free_store (halloc.mono (fun _ _ h => h.1) fun e t h => ?_)) ?_
  · exact ho.exhausted (h.2.2 hfits)
  intro target t ht
  have haligned := (ht.address_aligned hk.valid).1
  have ho₁ := ho.later ht.extends_
  have hfill : Pays _ (fillWith deeper (.backed target shape false) (.backed loc shape member)) t :=
    fillWith_pays hw hc ho₁ ht.message (ht.covers ho.size) haligned
      (StructView.Inside.mono ht.extends_ hin) (hforeign loc rfl)
  refine hfill.before (fillWith_confined hw target shape false _ t) fun _ u he => ?_
  rw [ht.message] at he
  have ho₂ := ho₁.later he
  have hlink := link_refused (.ofStruct 0 shape) (he.covers (ht.extends_.covers hslot)) ht.message
  refine .of_free ((free_store (hlink.mono (fun _ _ h => h) fun _ _ h => ?_)).mono
    (fun _ _ h => h.2) fun _ _ h => h)
  exact ho₂.exhausted h.2

theorem cloneComposite_pays (hw : Atomic deeper) (hc : Charges s₀ m price deeper)
    {r : SegmentRef} {loc : Location} {len : Nat} {shape : StructShape} {st : CopyState}
    (hm : r.message = m) (ho : Offers m s₀ st.store)
    (hin : (ListView.backed loc len .composite shape).Inside st.store)
    (hne : loc.segment.message ≠ m) :
    Pays (s₀.listPrice price (.backed loc len .composite shape))
      (cloneListWith deeper r (.backed loc len .composite shape)) st := by
  subst hm
  obtain ⟨hreg, hlen, tag', htag', hcov'⟩ := hin
  have hfits : 8 + len * shape.bytes ≤ largestSegment := covers_fits ho.keeps.valid hcov'
  unfold cloneListWith
  simp only [ListView.element, ListView.shape, ListView.length]
  refine (spend_pays 1 st).bind (outcome_spend 1 st) fun _ t ht => ?_
  rw [← ht] at ho hcov'
  have hin : (ListView.backed loc len .composite shape).Inside t.store :=
    ⟨hreg, hlen, tag', htag', hcov'⟩
  have halloc := (ListView.outcome_allocateComposite r shape len t.store).and
    (ListView.allocateComposite_total hreg r len t.store)
  refine Pays.after (free_store (halloc.mono (fun _ _ h => h.1) fun e u h => ?_)) ?_
  · exact ho.exhausted (h.2.2 ho.size hlen hfits)
  rintro _ u ⟨tag, w, rfl, _, _, htag⟩
  rw [hreg.roundUp_eq] at htag ⊢
  have hmess : (tag.shift 8).segment.message = r.message := htag.allocated.message
  have hcov : u.store.covers ((tag.shift 8).shift (0 * shape.bytes)) (len * shape.bytes) = true :=
    covers_shift (covers_shift (htag.covers ho.size hreg) (Nat.le_refl _)) (by omega)
  have haligned : (tag.shift 8).address % 8 = 0 :=
    Location.shift_mod (htag.allocated.aligned ho.keeps.valid) rfl
  have hfill : Pays _ (fillMembers deeper (.backed (tag.shift 8) len .composite shape)
      (.backed loc len .composite shape) 0 len) u :=
    fillMembers_pays hw hc (ho.later htag.extends_) hmess (by omega) hcov haligned
      (ListView.Inside.mono htag.extends_ hin) hne
  exact hfill.before (fillMembers_confined hw _ len shape _ 0 len u) fun _ v _ => .pure _ v

theorem clonePointers_pays (hw : Atomic deeper) (hc : Charges s₀ m price deeper)
    {r : SegmentRef} {loc : Location} {len : Nat} {shape : StructShape} {st : CopyState}
    (hm : r.message = m) (ho : Offers m s₀ st.store)
    (hin : (ListView.backed loc len .pointer shape).Inside st.store)
    (hne : loc.segment.message ≠ m) :
    Pays (s₀.listPrice price (.backed loc len .pointer shape))
      (cloneListWith deeper r (.backed loc len .pointer shape)) st := by
  subst hm
  have hwords : ((ListView.backed loc len .pointer shape).contentSize + 7) / 8 = len := by
    have : (ListView.backed loc len .pointer shape).contentSize = len * 8 :=
      ElementKind.bytesFor_pointer len
    omega
  have hforeign (l : Location) (hl : (ListView.backed loc len .pointer shape).loc? = some l) :
      l.segment.message ≠ r.message := by
    cases hl
    exact hne
  have hfits : ElementKind.pointer.bytesFor len ≤ largestSegment :=
    covers_fits ho.keeps.valid hin.2
  unfold cloneListWith
  simp only [ListView.element, ListView.length]
  rw [hwords]
  refine (spend_pays len st).bind (outcome_spend len st) fun _ t ht => ?_
  rw [← ht] at ho
  have halloc := (ListView.outcome_allocate r .pointer len t.store).and
    (ListView.allocate_total r .pointer len t.store)
  refine Pays.after (free_store (halloc.mono (fun _ _ h => h.1) fun e u h => ?_)) ?_
  · exact ho.exhausted (h.2.2 (by rintro ⟨⟩) hin.1 hfits)
  rintro _ u ⟨l, rfl, _, _, hnew⟩
  have hcov := hnew.covers ho.size
  rw [ElementKind.bytesFor_pointer] at hcov
  have haligned := (hnew.address_aligned ho.keeps.valid).1
  have hfill : Pays _ (cloneElements deeper (.backed l len .pointer .empty)
      (.backed loc len .pointer shape) 0 len) u :=
    cloneElements_pays hw hc (ho.later hnew.extends_) hnew.message (by omega)
      (covers_shift hcov (by omega)) haligned hforeign
  exact hfill.before (cloneElements_confined hw l len .empty _ 0 len u) fun _ v _ => .pure _ v

theorem clonePlain_pays {elem : ElementKind} (hcomp : elem ≠ .composite) (hptr : elem ≠ .pointer)
    {r : SegmentRef} {loc : Location} {len : Nat} {shape : StructShape} {st : CopyState}
    (hm : r.message = m) (ho : Offers m s₀ st.store)
    (hin : (ListView.backed loc len elem shape).Inside st.store) :
    Pays (s₀.listPrice price (.backed loc len elem shape))
      (cloneListWith deeper r (.backed loc len elem shape)) st := by
  subst hm
  have hsize (l : Location) (sh : StructShape) :
      (ListView.backed l len elem sh).contentSize = elem.bytesFor len :=
    ListView.contentSize_plain hcomp
  have hwords : (elem.bytesFor len + 7) / 8 = elem.bytesFor len / 8 := by
    have := elem.bytesFor_mod len
    omega
  have hsource := hin.plain hcomp
  have hfits : elem.bytesFor len ≤ largestSegment := covers_fits ho.keeps.valid hsource
  rw [cloneListWith_plain hcomp hptr, hsize, hwords, listPrice_plain s₀ price hcomp hptr]
  refine (spend_pays _ st).before (outcome_spend _ st) fun _ t ht => ?_
  rw [← ht] at ho hsource
  have halloc := (ListView.outcome_allocate r elem len t.store).and
    (ListView.allocate_total r elem len t.store)
  refine Pays.after (free_store (halloc.mono (fun _ _ h => h.1) fun e u h => ?_)) ?_
  · exact ho.exhausted (h.2.2 hcomp hin.length_le hfits)
  rintro _ u ⟨l, rfl, _, _, hnew⟩
  have hcopy : Succeeds (fillContent (.backed l len elem .empty) (.backed loc len elem shape))
      u.store := by
    change Succeeds (copyBytes l loc (ListView.backed l len elem .empty).contentSize) u.store
    rw [hsize]
    exact copyBytes_done (hnew.covers ho.size) (hnew.extends_.covers hsource)
  exact (Pays.of_done hcopy).before (fillContent_confined l len elem .empty _ u) fun _ v _ =>
    .pure _ v

theorem cloneListWith_pays (hw : Atomic deeper) (hc : Charges s₀ m price deeper)
    {r : SegmentRef} {loc : Location} {len : Nat} {elem : ElementKind} {shape : StructShape}
    {st : CopyState} (hm : r.message = m) (ho : Offers m s₀ st.store)
    (hin : (ListView.backed loc len elem shape).Inside st.store) (hne : loc.segment.message ≠ m) :
    Pays (s₀.listPrice price (.backed loc len elem shape))
      (cloneListWith deeper r (.backed loc len elem shape)) st := by
  by_cases hcomp : elem = .composite
  · subst hcomp
    exact cloneComposite_pays hw hc hm ho hin hne
  · by_cases hptr : elem = .pointer
    · subst hptr
      exact clonePointers_pays hw hc hm ho hin hne
    · exact clonePlain_pays hcomp hptr hm ho hin

theorem cloneList_pays (hw : Atomic deeper) (hcare : Careful deeper)
    (hc : Charges s₀ m price deeper) {slot loc : Location} {len : Nat} {elem : ElementKind}
    {shape : StructShape} {st : CopyState}
    (hr : Ready m s₀ st.store slot (.list (.backed loc len elem shape)))
    (ho : Offers m s₀ st.store) :
    Pays (s₀.listPrice price (.backed loc len elem shape))
      (cloneList deeper slot (.backed loc len elem shape)) st := by
  obtain ⟨hk, rfl, hslot, _, hin, hforeign⟩ := hr
  have hclone := cloneListWith_pays (r := slot.segment) hw hc rfl ho hin (hforeign loc rfl)
  have hview := (cloneListWith_inside hw hcare hk.valid hin ho.size).and
    (cloneListWith_atomic hw slot.segment (.backed loc len elem shape) st)
  unfold cloneList
  refine hclone.before hview ?_
  rintro v t ⟨hv, he, hloc⟩
  have ho₁ := ho.later he
  have hlink := linkList_refused ho₁.keeps.valid (he.covers hslot) hv hloc
  refine .of_free ((free_store (hlink.mono (fun _ _ h => h) fun _ _ h => ?_)).mono
    (fun _ _ h => h.2) fun _ _ h => h)
  exact ho₁.exhausted h.2

theorem writeWith_pays (hw : Atomic deeper) (hcare : Careful deeper)
    (hc : Charges s₀ m price deeper) : Charges s₀ m (s₀.priceWith price) (writeWith deeper) := by
  intro slot p st hr hu
  have hm := hr.message
  have ho : Offers m s₀ st.store := ⟨hr.keeps, hm ▸ lt_size_of_covers hr.covers, hu⟩
  have hword (w : PointerWord) : Pays (some 0) (onStore (writeWord slot w)) st :=
    .of_done (writeWord_done hr.covers w)
  match p, hr with
  | .null, _ => exact hword .null
  | .capability i, _ => exact hword (.ofCapability i)
  | .struct .absent, _ => exact hword .null
  | .struct (.backed loc shape member), hr =>
    have hne : loc.segment.message ≠ slot.segment.message := hm ▸ hr.foreign loc rfl
    change Pays (if shape.isEmpty then some 0 else
      s₀.memberPrice price (.backed loc shape member)) (writeStructWith deeper slot loc shape member) st
    unfold writeStructWith
    split
    · exact hword .emptyStruct
    · rw [if_neg fun h => hne h.1]
      exact cloneStruct_pays hw hc hr ho
  | .list .absent, _ => exact hword .null
  | .list (.backed loc len elem shape), hr =>
    have hne : loc.segment.message ≠ slot.segment.message := hm ▸ hr.foreign loc rfl
    change Pays (s₀.listPrice price (.backed loc len elem shape))
      (writeListWith deeper slot loc (.backed loc len elem shape)) st
    unfold writeListWith
    rw [if_neg hne]
    exact cloneList_pays hw hcare hc hr ho

theorem follow_pays (s₀ : Store) (m limit levels : Nat) :
    Charges s₀ m (s₀.price? levels) (follow limit levels) := by
  induction levels with
  | zero => exact fun _ _ _ _ _ => Outcome.throw (.inr fun n hn => nomatch hn)
  | succ k ih => exact writeWith_pays (follow_atomic limit k) (follow_careful limit k) ih

end Layers

end Copy

theorem pointTo_pays (s₀ : Store) (m : Nat) (c : CopyScope) :
    Charges s₀ m (s₀.price? (c.levels + 1)) (pointTo c) :=
  writeWith_pays (follow_atomic c.limit c.levels) (follow_careful c.limit c.levels)
    (follow_pays s₀ m c.limit c.levels)

/-- A copy between messages ends well exactly if its source is a finite tree that the levels and the
budget suffice for, as long as the ceiling of the destination refuses nothing. It spends the cost of
the tree, and takes three words for each word of it at most. -/
theorem copy_accounts {σ : Session} (h : Session.Reaches Session.Allows Session.empty σ) {p : Pointer}
    (hp : σ.Holds p) {slot : Location} (hc : σ.store.covers slot 8 = true)
    (ha : slot.address % 8 = 0)
    (hne : ∀ l, p.loc? = some l → l.segment.message ≠ slot.segment.message)
    (hopen : (σ.store.message slot.segment.message).isSealed = false) {c : CopyScope}
    (hdepth : c.depth ≤ c.limit) {budget : Nat}
    (hroom : ∀ need limit t, pointTo c slot p ⟨σ.store, budget⟩ ≠
      .error (.failure (.arena (.exhausted need limit))) t) :
    ((∃ t, pointTo c slot p ⟨σ.store, budget⟩ = .ok () t) ↔
      ∃ k T, σ.store.tree? k p = some T ∧ c.depth + T.height ≤ c.limit ∧ T.cost ≤ budget) ∧
    ∀ t, pointTo c slot p ⟨σ.store, budget⟩ = .ok () t → ∀ k T, σ.store.tree? k p = some T →
      t.budget + T.cost = budget ∧
        t.store.total slot.segment.message ≤ σ.store.total slot.segment.message + 24 * T.cost := by
  have hs : σ.Safe := h.safe Session.safe_empty
  have hk := Keeps.refl slot.segment.message hs.valid
  have hin := hs.holds hp
  have hpays := pointTo_pays σ.store slot.segment.message c slot p ⟨σ.store, budget⟩
    ⟨hk, rfl, hc, ha, hin, hne⟩ hopen
  have hspent {t : CopyState} (ht : pointTo c slot p ⟨σ.store, budget⟩ = .ok () t) :
      ∃ j T, σ.store.tree? j p = some T ∧ T.height ≤ c.levels ∧ budget = t.budget + T.cost := by
    obtain ⟨n, hn, hbudget⟩ := Outcome.of_ok hpays ht
    obtain ⟨j, T, hT, hlevels, rfl⟩ := price?_eq_some.mp hn
    exact ⟨j, T, hT, hlevels, hbudget⟩
  refine ⟨⟨?_, ?_⟩, ?_⟩
  · rintro ⟨t, ht⟩
    obtain ⟨j, T, hT, hlevels, hbudget⟩ := hspent ht
    rw [CopyScope.levels] at hlevels
    exact ⟨j, T, hT, by omega, by omega⟩
  · rintro ⟨j, T, hT, hheight, hcost⟩
    cases hrun : pointTo c slot p ⟨σ.store, budget⟩ with
    | ok u t => exact ⟨t, rfl⟩
    | error e t =>
        have hprice : σ.store.price? (c.levels + 1) p = some T.cost :=
          price?_eq_some.mpr ⟨j, T, hT, by rw [CopyScope.levels]; omega, rfl⟩
        rcases Outcome.of_error hpays hrun with ⟨need, limit, rfl⟩ | hless
        · exact absurd hrun (hroom need limit t)
        · exact absurd (hless _ hprice) (Nat.not_lt.mpr hcost)
  · intro t ht k T hT
    obtain ⟨j, U, hU, _, hbudget⟩ := hspent ht
    obtain rfl := tree?_unique hT hU
    refine ⟨hbudget.symm, ?_⟩
    have hthrifty := writeWith_thrifty (follow_atomic c.limit c.levels)
      (follow_thrifty σ.store slot.segment.message _ _ c.limit c.levels) slot p ⟨σ.store, budget⟩
      rfl hk ⟨hin.regular, hne, .of_inside hs.valid hin⟩
    have hworth := hthrifty.of_ok ht
    simp only [worth] at hworth
    omega

theorem copy_accounts_twoToOne :
    let σ := ((Session.empty.after (.creation (.opened [twoToOne] []))).after
      (.creation (.message []))).after (.query (.root 0))
    let p := Pointer.struct (.backed ⟨⟨0, 0⟩, 8⟩ ⟨0, 2⟩ false)
    p ∈ σ.views ∧ ∃ t, pointTo (.top 1) (rootSlot 1) p ⟨σ.store, 4⟩ = .ok () t ∧
      ∃ k T, σ.store.tree? k p = some T ∧ 0 + T.height ≤ 1 ∧ T.cost ≤ 4 ∧
        t.budget + T.cost = 4 ∧ t.store.total 1 ≤ σ.store.total 1 + 24 * T.cost := by
  intro σ p
  have hreach : Session.Reaches Session.Allows Session.empty σ :=
    .tail (.tail (.single ⟨.creation (.opened [twoToOne] []), trivial, rfl⟩)
      ⟨.creation (.message []), trivial, rfl⟩) ⟨.query (.root 0), trivial, rfl⟩
  have hp : p ∈ σ.views := by decide
  have hne (l : Location) (hl : p.loc? = some l) : l.segment.message ≠ 1 := by
    cases hl
    decide
  have hwell : Outcome.endsIn (pointTo (.top 1) (rootSlot 1) p) ⟨σ.store, 4⟩ (fun _ => true) = true := by
    decide +kernel
  obtain ⟨_, t, hrun, _⟩ := Outcome.endsIn_iff.mp hwell
  obtain ⟨hiff, hspent⟩ := @copy_accounts σ hreach p (.inr hp) (rootSlot 1) (by decide) (by decide)
    hne (by decide) (.top 1) (Nat.zero_le _) 4 fun _ _ _ he => by
      rw [hrun] at he
      cases he
  obtain ⟨k, T, hT, hheight, hcost⟩ := hiff.mp ⟨t, hrun⟩
  exact ⟨hp, t, hrun, k, T, hT, hheight, hcost, hspent t hrun k T hT⟩

end SegmentedMessage
