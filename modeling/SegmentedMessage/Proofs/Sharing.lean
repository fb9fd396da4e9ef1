import SegmentedMessage.Proofs.Accounting
import SegmentedMessage.Proofs.Decoding
import SegmentedMessage.Proofs.Fill

namespace SegmentedMessage

open Store Copy

namespace Pointer

def shownAt (slot : Location) : Pointer → Pointer
  | .struct .absent => .null
  | .struct (.backed loc shape member) =>
    if shape.isEmpty then .struct (.backed slot .empty false) else .struct (.backed loc shape member)
  | .list .absent => .null
  | p => p

theorem Tag.used {p : Pointer} {s : Store} (hp : p.Inside s) {l : Location} (hl : p.Tag l) :
    s.Used l := by
  match p, hp, hl with
  | .list (.backed loc len .composite shape), hp, hl =>
    obtain ⟨_, _, tag, rfl, hc⟩ := hp
    exact used_of_extent (covers_take hc (by omega)) hl

end Pointer

namespace Store

/-- From `t` on the slot shows `p`. The tag of a composite list is all of it that has to stay, and
the slot itself must not lie there. -/
def Shows (s t : Store) (slot : Location) (p : Pointer) : Prop :=
  t.Numbered slot.segment.message → (∀ l, slot.Extent 8 l → ¬ p.Tag l) →
    ∀ u, t.Grows slot.segment.message (fun l => s.Outside slot 8 l ∧ ¬ p.Tag l) u →
      u.pointerAt slot = .ok (p.shownAt slot)

structure Shareable (s : Store) (slot : Location) (p : Pointer) : Prop where
  valid : s.Valid
  covers : s.covers slot 8 = true
  slot_mod : slot.address % 8 = 0
  inside : p.Inside s
  message : p.In slot.segment.message
  whole : p.Whole s
  aligned : p.Aligned

section Shareable

variable {s : Store} {slot loc target : Location} {p : Pointer} {w : PointerWord}

theorem Valid.aligned (hv : s.Valid) {n : Nat} (hc : s.covers loc n = true)
    (ha : loc.address % 8 = 0) : Aligned loc.address :=
  ⟨ha, Nat.le_trans (Nat.le_add_right _ n) (hv.covers_le hc)⟩

theorem Shareable.whole_struct {shape : StructShape} {member : Bool}
    (h : s.Shareable slot (.struct (.backed loc shape member))) (hne : shape.isEmpty = false) :
    member = false := by
  cases member with
  | false => rfl
  | true =>
    have hempty : shape.isEmpty = true := h.whole rfl
    rw [hne] at hempty
    cases hempty

theorem Shareable.placed_struct {shape : StructShape} {member : Bool}
    {free : Location → Prop} (h : s.Shareable slot (.struct (.backed loc shape member)))
    (hne : shape.isEmpty = false) :
    Placed slot.segment.message free s loc (.ofStruct 0 shape)
      (.struct (.backed loc shape member)) := by
  obtain rfl := h.whole_struct hne
  obtain ⟨hr, hc⟩ := h.inside
  exact .struct (h.message loc rfl) (h.valid.aligned hc (h.aligned loc rfl)) hr hne hc

theorem Shareable.placed_list {len : Nat} {elem : ElementKind} {shape : StructShape}
    (h : s.Shareable slot (.list (.backed loc len elem shape))) :
    ∃ target, (ListView.backed loc len elem shape).start? = some target ∧
      Placed slot.segment.message (fun l => ¬ (Pointer.list (.backed loc len elem shape)).Tag l) s
        target (ListView.backed loc len elem shape).word (.list (.backed loc len elem shape)) := by
  have hm : loc.segment.message = slot.segment.message := h.message loc rfl
  have ha := h.aligned loc rfl
  by_cases hcomp : elem = .composite
  · subst hcomp
    obtain ⟨hr, hlen, tag, rfl, hc⟩ := h.inside
    have hlong := h.valid.covers_le hc
    rw [Location.shift_address] at ha
    have htag : s.wordAt tag = .ofTag len shape := h.whole
    refine ⟨tag, ListView.start_eq tag len shape, ?_⟩
    have hwords : len * shape.bytes / 8 ≤ longestList := by
      simp only [largestSegment, longestList] at hlong ⊢
      omega
    exact .composite hm (h.valid.aligned hc (by omega)) hr hlen hwords hc htag fun l hl hf => hf hl
  · obtain rfl : shape = .empty := by
      cases elem with
      | composite => exact absurd rfl hcomp
      | _ => exact h.whole
    have hc := ListView.Inside.plain h.inside hcomp
    have hlen : len ≤ longestList := ListView.Inside.length_le h.inside
    refine ⟨loc, ListView.start_plain hcomp loc len .empty, ?_⟩
    rw [ListView.word_plain hcomp]
    exact .plain hm (h.valid.aligned hc ha) hcomp hlen hc

theorem writeWord_shows (hp : ∀ u : Store, u.covers slot 8 = true → u.wordAt slot = w →
    u.pointerAt slot = .ok (p.shownAt slot)) :
    Outcome (writeWord slot w) s (fun _ t => s.Shows t slot p) fun _ _ => True := by
  refine (outcome_writeWord slot w s).mono ?_ fun _ _ _ => trivial
  rintro _ t ⟨ht, hc⟩ _ _ u hu
  obtain ⟨hcu, hword⟩ := wordAt_slot ht hc (hu.weaken fun l _ _ hl => hl.1)
  exact hp u hcu hword

theorem link_shows (h : s.Shareable slot p) (hshown : p.shownAt slot = p)
    (hp : Placed slot.segment.message (fun l => ¬ p.Tag l) s target w p) :
    Outcome (link slot target w) s (fun _ t => s.Shows t slot p) fun _ _ => True := by
  have hlink : Linkable s slot target w :=
    ⟨h.valid, h.covers, h.slot_mod, hp.message, hp.segment, hp.aligned, hp.direct⟩
  refine ((link_leads hlink).and (link_writesOnly w hp.message s)).mono ?_ fun _ _ _ => trivial
  rintro _ t ⟨hleads, he⟩ hids hapart u hu
  rw [hshown]
  refine hp.shown u slot ?_ (hleads hids u (hu.weaken fun l _ _ hl => hl.1))
  exact (he.grows.weaken fun l _ _ hl => hapart l hl).trans (hu.weaken fun l _ _ hl => hl.2)

end Shareable

end Store

theorem Store.Shareable.of_slot {s : Store} {slot l : Location} {v : StructView} {i : Nat}
    {p : Pointer} (hv : s.Valid) (hc : s.covers slot 8 = true) (ha : slot.address % 8 = 0)
    (hl : v.slot? i = some l) (hm : l.segment.message = slot.segment.message)
    (hp : v.pointerAt i s = .ok p) (haligned : p.Aligned) : s.Shareable slot p := by
  obtain ⟨loc, shape, member, rfl, _, rfl⟩ := StructView.slot?_eq_some.mp hl
  obtain ⟨hin, _, _, hmessage⟩ := (StructView.pointerAt_answers _ i s).of_ok hp
  exact ⟨hv, hc, ha, hin, hm ▸ hmessage loc rfl, ((StructView.pointerAt_whole _ i s).of_ok hp).1,
    haligned⟩

namespace Copy

section Writers

variable {deeper : Writer} {slot : Location} {p : Pointer} {st : CopyState}

/-- The slot comes to show `p`, and that takes no budget and no more memory than a landing pad. -/
def Shares (slot : Location) (p : Pointer) (act : CopyM Unit) (st : CopyState) : Prop :=
  Outcome act st
    (fun _ t => st.store.Shows t.store slot p ∧ t.budget = st.budget ∧
      ∀ m, t.store.total m ≤ st.store.total m + 16)
    fun e t => t = st ∧ st.store.Refused slot.segment.message e

theorem Shares.of_store {act : StoreM Unit}
    (hs : Outcome act st.store (fun _ t => st.store.Shows t slot p) fun _ _ => True)
    (hr : Outcome act st.store (fun _ _ => True)
      fun e t => t = st.store ∧ st.store.Refused slot.segment.message e)
    (ht : Outcome act st.store (fun _ t => ∀ m, t.total m ≤ st.store.total m + 16)
      fun _ t => ∀ m, t.total m ≤ st.store.total m + 16) : Shares slot p (onStore act) st := by
  refine (outcome_onStore ((hs.and hr).and ht)).mono ?_ ?_
  · rintro _ t ⟨⟨⟨hs, _⟩, ht⟩, hb⟩
    exact ⟨hs, hb, ht⟩
  · rintro e ⟨t, budget⟩ ⟨⟨⟨_, rfl, hr⟩, _⟩, rfl⟩
    exact ⟨rfl, hr⟩

theorem writeWord_shares (hc : st.store.covers slot 8 = true) {w : PointerWord}
    (hp : ∀ u : Store, u.covers slot 8 = true → u.wordAt slot = w →
      u.pointerAt slot = .ok (p.shownAt slot)) : Shares slot p (onStore (writeWord slot w)) st := by
  refine .of_store (writeWord_shows hp) ?_ ?_
  · exact (writeWord_done hc w).mono (fun _ _ h => h) fun _ _ h => h.elim
  · exact (Steady.writeWord slot w).within fun m => Nat.le_add_right _ _

theorem writeStruct_shares {loc : Location} {shape : StructShape} {member : Bool}
    (h : st.store.Shareable slot (.struct (.backed loc shape member))) :
    Shares slot (.struct (.backed loc shape member))
      (writeStructWith deeper slot loc shape member) st := by
  unfold writeStructWith
  split
  · rename_i hempty
    refine writeWord_shares h.covers fun u hc hw => ?_
    rw [pointerAt_emptyStruct hc (h.valid.address_lt_of_covers h.covers) hw, Pointer.shownAt,
      if_pos hempty]
  · rename_i hne
    have hsized : shape.isEmpty = false := by simpa using hne
    have hplaced : Placed slot.segment.message
        (fun l => ¬ (Pointer.struct (.backed loc shape member)).Tag l) st.store loc
        (.ofStruct 0 shape) (.struct (.backed loc shape member)) := h.placed_struct hsized
    rw [if_pos ⟨hplaced.message, h.whole_struct hsized⟩]
    have hshown : (Pointer.struct (.backed loc shape member)).shownAt slot
        = .struct (.backed loc shape member) := by
      rw [Pointer.shownAt, if_neg hne]
    exact .of_store (link_shows h hshown hplaced) (link_refused _ h.covers hplaced.message)
      (link_total slot loc _ st.store)

theorem writeList_shares {loc : Location} {len : Nat} {elem : ElementKind} {shape : StructShape}
    (h : st.store.Shareable slot (.list (.backed loc len elem shape))) :
    Shares slot (.list (.backed loc len elem shape))
      (writeListWith deeper slot loc (.backed loc len elem shape)) st := by
  unfold writeListWith
  rw [if_pos (h.message loc rfl)]
  obtain ⟨target, hstart, hplaced⟩ := h.placed_list
  refine .of_store ?_ (linkList_refused h.valid h.covers h.inside fun l hl => h.message l hl)
    (linkList_total slot _ st.store)
  unfold linkList
  rw [hstart]
  simp only
  rw [if_pos (ListView.Inside.measurable h.valid h.inside)]
  exact link_shows h rfl hplaced

theorem writeWith_shares (h : st.store.Shareable slot p) :
    Shares slot p (writeWith deeper slot p) st :=
  match p, h with
  | .null, h => writeWord_shares h.covers fun _ hc hw => pointerAt_null hc hw
  | .capability _, h => writeWord_shares h.covers fun _ hc hw => pointerAt_capability hc hw
  | .struct .absent, h => writeWord_shares h.covers fun _ hc hw => pointerAt_null hc hw
  | .struct (.backed _ _ _), h => writeStruct_shares h
  | .list .absent, h => writeWord_shares h.covers fun _ hc hw => pointerAt_null hc hw
  | .list (.backed _ _ _ _), h => writeList_shares h

def Sharing (w : Writer) : Prop :=
  ∀ slot p st, st.store.Shareable slot p → Outcome (w slot p) st
    (fun _ t => st.store.Shows t.store slot p ∧ t.budget = st.budget) fun _ _ => True

theorem follow_sharing (limit levels : Nat) : Sharing (follow limit levels) := by
  intro slot p st h
  cases levels with
  | zero => exact Outcome.throw trivial
  | succ levels =>
    exact (writeWith_shares h).mono (fun _ _ ht => ⟨ht.1, ht.2.1⟩) fun _ _ _ => trivial

end Writers

section Row

variable {deeper : Writer} {s₀ : Store} {slots loc : Location} {shape : StructShape} {member : Bool}

def Mirrored (s₀ t : Store) (slots : Location) (src : StructView) (j n : Nat) : Prop :=
  t.Numbered slots.segment.message → ∀ i, j ≤ i → i < j + n → ∀ q, src.pointerAt i s₀ = .ok q →
    ∀ u, t.Grows slots.segment.message (fun l => s₀.Used l ∧ ¬ q.Tag l) u →
      u.pointerAt (slots.shift (i * 8)) = .ok (q.shownAt (slots.shift (i * 8)))

theorem cloneSlot_shows {slot : Location} {p : Pointer} {st : CopyState} (hs : Sharing deeper)
    (h : st.store.Shareable slot p) (hnull : p.isBacked = false → p = .null) :
    Outcome (cloneSlot deeper slot p) st
      (fun _ t => st.store.Shows t.store slot p ∧ t.budget = st.budget) fun _ _ => True := by
  unfold cloneSlot
  split
  · exact hs slot p st h
  · rename_i hb
    obtain rfl := hnull (by simpa using hb)
    exact (writeWord_shares (p := .null) h.covers fun _ hc hw => pointerAt_null hc hw).mono
      (fun _ _ ht => ⟨ht.1, ht.2.1⟩) fun _ _ _ => trivial

theorem cloneSlots_shows (hw : Atomic deeper) (hs : Sharing deeper) {own : Location → Prop}
    {src : StructView} {j n : Nat} {st : CopyState} (hv : st.store.Valid)
    (he : s₀.Extends slots.segment.message own st.store)
    (hown : ∀ k, (slots.shift (j * 8)).Extent (n * 8) k → own k) (ha : slots.address % 8 = 0)
    (hc : st.store.covers (slots.shift (j * 8)) (n * 8) = true)
    (hm : ∀ i l, src.slot? i = some l → l.segment.message = slots.segment.message)
    (hn : j + n ≤ src.shape.slots.toNat)
    (hapart : ∀ i l q, i < j + n → src.slot? i = some l → s₀.pointerAt l = .ok q →
      q.Aligned ∧ ∀ k, s₀.Consults l k → s₀.Used k → ¬ own k) :
    Outcome (cloneSlots deeper slots src j n) st
      (fun _ t => ((∀ i q u, src.pointerAt i u = .ok q → q.Aligned) → t.budget = st.budget) ∧
        (t.store.Numbered slots.segment.message → ∀ i, j ≤ i → i < j + n → ∀ q,
          src.pointerAt i s₀ = .ok q → ∀ u, t.store.Grows slots.segment.message
            (fun l => s₀.Outside (slots.shift (i * 8)) 8 l ∧ ¬ q.Tag l) u →
          u.pointerAt (slots.shift (i * 8)) = .ok (q.shownAt (slots.shift (i * 8)))))
      fun _ _ => True := by
  induction n generalizing j st with
  | zero => exact Outcome.pure ⟨fun _ => rfl, fun _ i hlo hhi => absurd hlo (by omega)⟩
  | succ n ih =>
    have hslot : st.store.covers (slots.shift (j * 8)) 8 = true := covers_take hc (by omega)
    have hrest : st.store.covers (slots.shift ((j + 1) * 8)) (n * 8) = true :=
      covers_within hc (by omega)
    have hmod := Location.shift_mod ha (Nat.mul_mod_left j 8)
    obtain ⟨l, hl⟩ := src.exists_slot (i := j) (by omega)
    unfold cloneSlots
    refine Outcome.bind_of (outcome_onQuery _ st) (fun _ _ _ => trivial) ?_
    rintro q st' ⟨rfl, hq⟩
    have hnull := ((StructView.pointerAt_answers _ j st'.store).of_ok hq).2.2.1
    have hone := (Outcome.of_imp fun haligned : q.Aligned => cloneSlot_shows hs
      (Shareable.of_slot hv hslot hmod hl (hm j l hl) hq haligned) hnull).and
      (cloneSlot_confined hw (slots.shift (j * 8)) q st')
    refine Outcome.bind_of hone (fun _ _ _ => trivial) ?_
    rintro _ t₁ ⟨hshown, he₁⟩
    have hnew : s₀.Extends slots.segment.message own t₁.store :=
      he.trans (he₁.weaken fun k _ _ hk => hown k (hk.mono (by omega)))
    have hlater (k : Location) (hk : (slots.shift ((j + 1) * 8)).Extent (n * 8) k) : own k :=
      hown k (hk.within (by omega) (by omega))
    have hall := (ih (he₁.valid hv) hnew hlater (he₁.covers hrest) (by omega)
      fun i l q hi => hapart i l q (by omega)).and
      (cloneSlots_confined hw slots src (j + 1) n t₁)
    refine hall.mono ?_ fun _ _ _ => trivial
    rintro _ t ⟨⟨hfree, hrow⟩, he₂⟩
    refine ⟨fun hall => (hfree hall).trans (hshown (hall j q _ hq)).2, ?_⟩
    intro hids i hlo hhi p hp u hu
    rcases Nat.lt_or_eq_of_le hlo with hlt | rfl
    · exact hrow hids i hlt (by omega) p hp u hu
    · have hp₀ : s₀.pointerAt l = .ok p := (src.pointerAt_of_slot hl s₀).symm.trans hp
      obtain ⟨haligned, hclear⟩ := hapart _ l p (by omega) hl hp₀
      have hused : s₀.Extends slots.segment.message (fun k => own k ∧ s₀.Used k) st'.store :=
        he.weaken fun _ _ hu hk => ⟨hk, hu⟩
      -- nothing that decoding the source slot reads has been written to by now
      have hkept := Store.pointerAt_kept hused (fun k hk h => hclear k hk h.2 h.1) p hp₀
      rw [← src.pointerAt_of_slot hl] at hkept
      obtain rfl : q = p := Except.ok.inj (hq.symm.trans hkept)
      have hinside := ((s₀.pointerAt_answers l).of_ok hp₀).inside
      have htag {k : Location} (hk : own k) : ¬ q.Tag k := fun h =>
        hclear k ((s₀.pointerAt_consults l).of_ok hp₀ k h) (h.used hinside) hk
      refine (hshown haligned).1 (hids.before he₂)
        (fun k hk => htag (hown k (hk.mono (by omega)))) u ?_
      refine (he₂.grows.weaken fun k _ _ hk => ?_).trans (hu.weaken fun k _ _ hk => ?_)
      · exact ⟨⟨used_of_extent hrest hk, hk.apart (by omega)⟩, htag (hlater k hk)⟩
      · exact ⟨⟨he.used hk.1.1, hk.1.2⟩, hk.2⟩

theorem cloneSlots_mirrored (hw : Atomic deeper) (hs : Sharing deeper) {j n : Nat} {st : CopyState}
    (hv : st.store.Valid) (he : s₀.Extends slots.segment.message untouched st.store)
    (hfresh : s₀.Fresh slots) (ha : slots.address % 8 = 0)
    (hc : st.store.covers (slots.shift (j * 8)) (n * 8) = true) (hr : shape.Regular)
    (hm : loc.segment.message = slots.segment.message) (hloc : loc.address % 8 = 0)
    (hn : j + n ≤ shape.slots.toNat) :
    Outcome (cloneSlots deeper slots (.backed loc shape member) j n) st
      (fun _ t => t.budget = st.budget ∧
        Mirrored s₀ t.store slots (.backed loc shape member) j n) fun _ _ => True := by
  have hold {l : Location} (hl : s₀.Used l) (k i : Nat) : ¬ (slots.shift k).Extent i l :=
    fun h => hfresh.not_used ⟨h.1, Nat.le_trans (Nat.le_add_right _ _) h.2.1⟩ hl
  have hslot (i : Nat) (l : Location) (hl : (StructView.backed loc shape member).slot? i = some l) :
      l.segment.message = slots.segment.message ∧ l.address % 8 = 0 := by
    obtain ⟨_, _, _, hview, _, rfl⟩ := StructView.slot?_eq_some.mp hl
    cases hview
    have hdata := hr.1
    exact ⟨hm, Location.shift_mod hloc (by omega)⟩
  have haligned (i : Nat) (q : Pointer) (u : Store)
      (hq : (StructView.backed loc shape member).pointerAt i u = .ok q) : q.Aligned :=
    ((StructView.pointerAt_whole _ i u).of_ok hq).2 fun l hl => (hslot i l hl).2
  have hnew : s₀.Extends slots.segment.message (fun k => ¬ s₀.Used k) st.store :=
    he.weaken fun _ _ _ h => h.elim
  have hshows := cloneSlots_shows hw hs hv hnew (fun k hk hu => hold hu _ _ hk) ha hc
    (fun i l hl => (hslot i l hl).1) hn fun i l q _ hl hq =>
      ⟨haligned i q s₀ ((StructView.pointerAt_of_slot hl s₀).trans hq), fun _ _ hu h => h hu⟩
  refine hshows.mono ?_ fun _ _ _ => trivial
  rintro _ t ⟨hfree, hrow⟩
  refine ⟨hfree haligned, fun hids i hlo hhi q hq u hu => hrow hids i hlo hhi q hq u ?_⟩
  exact hu.weaken fun l _ _ hl => ⟨⟨hl.1, hold hl.1 _ _⟩, hl.2⟩

theorem fillSlots_mirrored (hw : Atomic deeper) (hs : Sharing deeper) {st : CopyState}
    (hv : st.store.Valid) (he : s₀.Extends slots.segment.message untouched st.store)
    (hfresh : s₀.Fresh slots) (ha : slots.address % 8 = 0)
    (hc : st.store.covers slots (shape.slots.toNat * 8) = true) (hr : shape.Regular)
    (hm : loc.segment.message = slots.segment.message) (hloc : loc.address % 8 = 0) :
    Outcome (fillSlots deeper slots shape.slots.toNat (.backed loc shape member)) st
      (fun _ t => t.budget = st.budget ∧
        Mirrored s₀ t.store slots (.backed loc shape member) 0 shape.slots.toNat)
      fun _ _ => True := by
  unfold fillSlots
  simp only [StructView.shape, Nat.min_self, Nat.sub_self, Nat.zero_mul]
  have hfirst : st.store.covers (slots.shift (0 * 8)) (shape.slots.toNat * 8) = true :=
    covers_take hc (by omega)
  refine Outcome.bind_of (cloneSlots_mirrored hw hs hv he hfresh ha hfirst hr hm hloc
    (by omega))
    (fun _ _ _ => trivial) ?_
  rintro _ st₁ ⟨hbudget, hmirrored⟩
  refine (outcome_onStore (clear_extends _ 0 st₁.store)).mono ?_ fun _ _ _ => trivial
  rintro _ t ⟨he₁, hb₁⟩
  refine ⟨hb₁.trans hbudget, fun hids i hlo hhi q hq u hu => ?_⟩
  refine hmirrored (hids.before he₁) i hlo hhi q hq u (.trans ?_ hu)
  exact he₁.grows.weaken fun l _ _ hl => (Location.not_extent_zero hl).elim

theorem fillWith_mirrored (hw : Atomic deeper) (hs : Sharing deeper) {target : Location}
    {whole : Bool} {st : CopyState} (hv : st.store.Valid)
    (he : s₀.Extends target.segment.message untouched st.store) (hfresh : s₀.Fresh target)
    (ha : target.address % 8 = 0) (hc : st.store.covers target shape.bytes = true)
    (hin : (StructView.backed loc shape member).Inside st.store)
    (hm : loc.segment.message = target.segment.message) (hloc : loc.address % 8 = 0) :
    Outcome (fillWith deeper (.backed target shape whole) (.backed loc shape member)) st
      (fun _ t => st.budget = t.budget + max (shape.bytes / 8) 1 ∧
        t.store.range target shape.data = st.store.range loc shape.data ∧
        Mirrored s₀ t.store (target.shift shape.data) (.backed loc shape member) 0
          shape.slots.toNat) fun _ _ => True := by
  have hslots : st.store.covers (target.shift shape.data) (shape.slots.toNat * 8) = true :=
    covers_shift hc (Nat.le_refl _)
  have hlater : s₀.Fresh (target.shift shape.data) := Nat.le_trans hfresh (Nat.le_add_right _ _)
  have haligned := Location.shift_mod ha hin.1.1
  have hfilled (st₁ : CopyState)
      (he₁ : st.store.Extends target.segment.message (target.Extent shape.data) st₁.store)
      (hspent : st.budget = st₁.budget + max (shape.bytes / 8) 1) :
      Outcome (fillSlots deeper (target.shift shape.data) shape.slots.toNat
        (.backed loc shape member)) st₁
        (fun _ u => st.budget = u.budget + max (shape.bytes / 8) 1 ∧
          Mirrored s₀ u.store (target.shift shape.data) (.backed loc shape member) 0
            shape.slots.toNat) fun _ _ => True := by
    have hnew : s₀.Extends (target.shift shape.data).segment.message untouched st₁.store :=
      he.into_fresh hfresh he₁ fun k hk => hk.onward
    refine (fillSlots_mirrored hw hs (he₁.valid hv) hnew hlater haligned (he₁.covers hslots) hin.1
      hm hloc).mono ?_ fun _ _ _ => trivial
    rintro _ u ⟨hbudget, hmirrored⟩
    exact ⟨by rw [hbudget, hspent], hmirrored⟩
  refine (fillWith_overlays hw hc (hin.data rfl) hfilled).mono ?_ fun _ _ _ => trivial
  rintro _ t ⟨hover, hbudget, hmirrored⟩
  have hcopied := hover.copied
  rw [StructView.shape, Nat.min_self] at hcopied
  exact ⟨hbudget, hcopied, hmirrored⟩

structure Extracted (s t : Store) (slot loc target : Location) (shape : StructShape)
    (member : Bool) : Prop where
  shown : t.pointerAt slot = .ok (.struct (.backed target shape false))
  covers : t.covers target shape.bytes = true
  fresh : ∀ l, target.Extent shape.bytes l → ¬ s.Used l
  data : t.range target shape.data = s.range loc shape.data
  slots : ∀ i l q, (StructView.backed target shape false).slot? i = some l →
    (StructView.backed loc shape member).pointerAt i s = .ok q →
    (∀ k, slot.Extent 8 k → ¬ q.Tag k) → t.pointerAt l = .ok (q.shownAt l)

theorem cloneStruct_extracts (hw : Atomic deeper) (hs : Sharing deeper) {slot : Location}
    {st : CopyState} (hv : st.store.Valid) (hc : st.store.covers slot 8 = true)
    (ha : slot.address % 8 = 0) (hin : (StructView.backed loc shape member).Inside st.store)
    (hm : loc.segment.message = slot.segment.message) (hloc : loc.address % 8 = 0)
    (hne : shape.isEmpty = false) :
    Outcome (cloneStruct deeper slot shape (.backed loc shape member)) st
      (fun _ t => st.budget = t.budget + max (shape.bytes / 8) 1 ∧
        (t.store.Numbered slot.segment.message →
          ∃ target, Extracted st.store t.store slot loc target shape member))
      fun _ _ => True := by
  unfold cloneStruct
  refine Outcome.bind_of (outcome_onStore (outcome_allocate slot.segment shape.bytes st.store))
    (fun _ _ _ => trivial) ?_
  rintro target st₁ ⟨h₁, hb₁⟩
  have htarget : target.segment.message = slot.segment.message := h₁.message
  have hcov := h₁.covers (lt_size_of_covers hc)
  have he₁ := h₁.extends_
  have hv₁ := he₁.valid hv
  have hfill : Outcome (fillWith deeper (.backed target shape false) (.backed loc shape member)) st₁
      _ _ := (fillWith_mirrored hw hs hv₁ (htarget ▸ he₁) h₁.fresh (h₁.aligned hv) hcov
        (hin.mono he₁) (hm.trans htarget.symm) hloc).and
      (fillWith_confined hw target shape false (.backed loc shape member) st₁)
  refine Outcome.bind_of hfill (fun _ _ _ => trivial) ?_
  rintro _ st₂ ⟨⟨hb₂, hrange, hmirrored⟩, he₂⟩
  rw [htarget] at he₂
  have hslot := he₂.covers (he₁.covers hc)
  have hcov₂ := he₂.covers hcov
  have hplaced : Placed slot.segment.message (slot.Extent 8) st₂.store target (.ofStruct 0 shape)
      (.struct (.backed target shape false)) :=
    .struct htarget (h₁.address_aligned hv) hin.1 hne hcov₂
  have hlink : Linkable st₂.store slot target (.ofStruct 0 shape) :=
    ⟨he₂.valid hv₁, hslot, ha, hplaced.message, hplaced.segment, hplaced.aligned, hplaced.direct⟩
  have hwrites := (link_leads hlink).and (link_writesOnly (.ofStruct 0 shape) htarget st₂.store)
  refine (outcome_onStore hwrites).mono ?_ fun _ _ _ => trivial
  rintro _ t ⟨⟨hleads, he₃⟩, hb₃⟩
  rw [hb₁] at hb₂
  refine ⟨by rw [hb₂, hb₃], fun hids => ⟨target, ?_⟩⟩
  have hfresh {l : Location} (hl : target.Onward l) : ¬ st.store.Used l := h₁.fresh.not_used hl
  have happart {l : Location} (hl : target.Onward l) : ¬ slot.Extent 8 l :=
    fun h => hfresh hl (used_of_extent hc h)
  refine ⟨?_, he₃.covers hcov₂, fun l hl => hfresh hl.onward, ?_, fun i l q hl hq hq' => ?_⟩
  · exact hplaced.shown t.store slot he₃.grows (hleads hids t.store (.refl _ _ _))
  · have hdata : st₂.store.covers target shape.data = true :=
      covers_take hcov₂ (Nat.le_add_right _ _)
    rw [he₃.range_eq (covers_iff.mp hdata).2 fun l hl => happart hl.onward, hrange]
    exact he₁.range_eq (covers_iff.mp (hin.data rfl)).2 fun _ _ h => h
  · obtain ⟨_, _, _, hview, hi, rfl⟩ := StructView.slot?_eq_some.mp hl
    cases hview
    have hnumbered : st₂.store.Numbered (target.shift shape.data).segment.message :=
      htarget ▸ hids.before he₃
    rw [← Location.shift_shift]
    refine hmirrored hnumbered i (Nat.zero_le i) (by omega) q hq t.store ?_
    rw [Location.shift_segment, htarget]
    exact he₃.grows.weaken fun k _ _ hk => ⟨used_of_extent hc hk, hq' k hk⟩

end Row

end Copy

end SegmentedMessage
