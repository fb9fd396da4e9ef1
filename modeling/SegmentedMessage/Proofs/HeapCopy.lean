import SegmentedMessage.Proofs.Duplicate
import SegmentedMessage.Proofs.HeapStep

namespace SegmentedMessage

open Store

namespace Heap

variable {H new : Heap} {m : Nat} {s t : Store}

theorem View.slot {loc : Location} {shape : StructShape} {member : Bool} {j : Nat}
    (h : H.View (.struct (.backed loc shape member))) (hj : j < shape.slots.toNat) :
    H.Slot (loc.shift (shape.data + j * 8)) := by
  rcases h with (hnull | ⟨i, hcap⟩ | ⟨l, hempty⟩ | ⟨_, ha⟩) | ⟨tag, _, len, i, ha, hi, hmember⟩
  · cases hnull
  · cases hcap
  · cases hempty
    exact absurd hj (Nat.not_lt_zero j)
  · exact ⟨_, ha, j, hj, rfl⟩
  · cases hmember
    exact ⟨_, ha, i, hi, j, hj, rfl⟩

theorem View.data {loc l : Location} {shape : StructShape} {member : Bool}
    (h : H.View (.struct (.backed loc shape member))) (hl : loc.Extent shape.data l) : H.Data l := by
  rcases h with (hnull | ⟨i, hcap⟩ | ⟨_, hempty⟩ | ⟨_, ha⟩) | ⟨tag, _, len, i, ha, hi, hmember⟩
  · cases hnull
  · cases hcap
  · cases hempty
    obtain ⟨_, hlo, hhi⟩ := hl
    exact absurd hhi (Nat.not_lt.mpr hlo)
  · exact ⟨_, ha, hl⟩
  · cases hmember
    exact ⟨_, ha, i, hi, hl⟩

theorem View.list {v : ListView} (h : H.View (.list v)) : H.Object (.list v) := by
  rcases h with (hnull | ⟨i, hcap⟩ | ⟨_, hempty⟩ | hobject) | ⟨tag, _, len, i, _, _, hmember⟩
  · cases hnull
  · cases hcap
  · cases hempty
  · exact hobject
  · cases hmember

theorem View.plain {loc : Location} {len : Nat} {elem : ElementKind} {shape : StructShape}
    (h : H.View (.list (.backed loc len elem shape))) (hne : elem ≠ .composite) :
    ⟨loc, .list elem len⟩ ∈ H := by
  have hobject := h.list
  cases elem with
  | composite => exact absurd rfl hne
  | _ => exact hobject.2

theorem View.object {loc : Location} {shape : StructShape}
    (h : H.View (.struct (.backed loc shape false))) (hne : shape.isEmpty = false) :
    ⟨loc, .struct shape⟩ ∈ H := by
  rcases h with (hnull | ⟨i, hcap⟩ | ⟨_, hempty⟩ | hobject) | ⟨tag, _, len, i, _, _, hmember⟩
  · cases hnull
  · cases hcap
  · cases hempty
    cases hne
  · exact hobject.2
  · cases hmember

structure Known (H : Heap) (m : Nat) (s : Store) (p : Pointer) : Prop where
  inside : p.Inside s
  view : ∀ l, p.loc? = some l → l.segment.message = m → H.View p

namespace Known

variable {p : Pointer}

theorem mono (h : H.Known m s p) (ht : s.Retains t) : Known (new ++ H) m t p :=
  ⟨h.inside.retained ht, fun l hl hm => (h.view l hl hm).mono⟩

theorem later (h : H.Known m s p) (ht : s.Retains t) : H.Known m t p :=
  ⟨h.inside.retained ht, h.view⟩

theorem absent (hp : p.loc? = none) : H.Known m s p :=
  ⟨Pointer.inside_of_absent hp s, fun l hl => by rw [hp] at hl; cases hl⟩

theorem foreign (hp : p.Inside s) (hne : ∀ l, p.loc? = some l → l.segment.message ≠ m) :
    H.Known m s p :=
  ⟨hp, fun l hl hm => absurd hm (hne l hl)⟩

theorem of_slot {slot : Location} (h : H.WellFormed m s) (hs : slot.segment.message = m → H.Slot slot)
    (hp : s.pointerAt slot = .ok p) : H.Known m s p := by
  have hdecoded := (s.pointerAt_answers slot).of_ok hp
  refine ⟨hdecoded.inside, fun l hl hm => ?_⟩
  obtain ⟨q, hq⟩ := h.slots slot (hs (by rw [← hdecoded.message l hl, hm]))
  rw [hq.pointerAt] at hp
  cases hp
  exact .inl hq.shows

theorem field_slot {v : StructView} {j : Nat} {l : Location} (hv : H.Known m s (.struct v))
    (hl : v.slot? j = some l) (hm : l.segment.message = m) : H.Slot l := by
  obtain ⟨loc, shape, member, rfl, hj, rfl⟩ := StructView.slot?_eq_some.mp hl
  exact (hv.view loc rfl hm).slot hj

theorem element_slot {v : ListView} {i : Nat} {l : Location} (hv : H.Known m s (.list v))
    (hl : v.slot? i = some l) (hm : l.segment.message = m) : H.Slot l := by
  obtain ⟨loc, len, shape, rfl, hi, rfl⟩ := ListView.slot?_eq_some.mp hl
  obtain ⟨_, ha⟩ := (hv.view loc rfl hm).list
  exact ⟨_, ha, i, hi, rfl⟩

theorem slot {v : StructView} {j : Nat} (hv : H.Known m s (.struct v)) (h : H.WellFormed m s)
    (hp : v.pointerAt j s = .ok p) : H.Known m s p := by
  unfold StructView.pointerAt at hp
  split at hp
  · rename_i l hl
    exact of_slot h (hv.field_slot hl) hp
  · cases hp
    exact .absent rfl

theorem element {v : ListView} {i : Nat} (hv : H.Known m s (.list v)) (h : H.WellFormed m s)
    (hp : v.pointerAt i s = .ok p) : H.Known m s p := by
  unfold ListView.pointerAt at hp
  split at hp
  · rename_i l hl
    exact of_slot h (hv.element_slot hl) hp
  · cases hp
    exact .absent rfl

theorem member {v : ListView} (hv : H.Known m s (.list v)) (i : Nat) :
    H.Known m s (.struct (v.member i)) := by
  refine ⟨ListView.Inside.member hv.inside i, fun l hl hm => ?_⟩
  cases v with
  | absent => cases hl
  | backed loc len elem shape =>
      cases elem with
      | composite =>
          by_cases hi : i < len
          · rw [Copy.member_eq hi] at hl ⊢
            obtain rfl := Option.some.inj hl
            obtain ⟨tag, rfl, ha⟩ := (hv.view loc rfl hm).list
            exact .inr ⟨tag, shape, len, i, ha, hi, rfl⟩
          · rw [ListView.member, if_neg hi] at hl
            cases hl
      | _ => cases hl

end Known

/-- However the copy ends, the heap is kept. -/
def Withstands {α : Type} (H : Heap) (m : Nat) (act : CopyM α) (st : CopyState) : Prop :=
  Outcome act st (fun _ t => H.Kept m t.store) fun _ t => H.Kept m t.store

theorem Withstands.further {α : Type} {act : CopyM α} {st : CopyState}
    (h : Withstands (new ++ H) m act st) : H.Withstands m act st :=
  h.mono (fun _ _ ht => ht.further) fun _ _ ht => ht.further

end Heap

namespace Copy

open Heap

variable {H : Heap} {m : Nat} {deeper : Writer}

def Tidy (m : Nat) (w : Writer) : Prop :=
  ∀ (H : Heap) slot p (st : CopyState), H.WellFormed m st.store → H.Slot slot →
    H.Known m st.store p → H.Withstands m (w slot p) st

theorem withstands_unnumbered {α : Type} {k : Nat} {own free : Location → Prop} {act : CopyM α}
    {st : CopyState} (hids : ¬ st.store.Numbered m)
    (h : Outcome act st (fun _ t => st.store.Extends k own t.store)
      fun _ t => st.store.Extends k free t.store) :
    H.Withstands m act st := by
  refine h.mono ?_ ?_
  · exact fun _ t ht hlater => absurd (hlater.before ht) hids
  · exact fun _ t ht hlater => absurd (hlater.before ht) hids

theorem withstands_bind {α β : Type} {k : Nat} {own free own' free' : Location → Prop} {act : CopyM α}
    {f : α → CopyM β} {st : CopyState} (h : H.Withstands m act st)
    (he : Outcome act st (fun _ t => st.store.Extends k own t.store)
      fun _ t => st.store.Extends k free t.store)
    (hf : ∀ a t, Outcome (f a) t (fun _ u => t.store.Extends k own' u.store)
      fun _ u => t.store.Extends k free' u.store)
    (hw : ∀ a t new, st.store.Extends k own t.store → Heap.WellFormed (new ++ H) m t.store →
      Withstands (new ++ H) m (f a) t) :
    H.Withstands m (act >>= f) st := by
  refine Outcome.bind_of (h.and he) (fun _ _ ht => ht.1) ?_
  rintro a t ⟨hkept, hext⟩
  -- with too many segments after the first action there are too many after the second
  by_cases hids : t.store.Numbered m
  · obtain ⟨new, hnew⟩ := hkept hids
    exact (hw a t new hext hnew).further
  · exact withstands_unnumbered hids (hf a t)

theorem withstands_onStore {act : StoreM Unit} {st : CopyState} (h : H.WellFormed m st.store)
    (hact : Outcome act st.store (fun _ t => H.Kept m t) fun _ t => t = st.store) :
    H.Withstands m (onStore act) st := by
  refine (outcome_onStore hact).mono (fun _ _ ht => ht.1) fun _ t ht => ?_
  rw [ht.1]
  exact h.kept

theorem withstands_assigned {slot : Location} {p : Pointer} {act : StoreM Unit} {st : CopyState}
    (h : H.WellFormed m st.store)
    (hact : Outcome act st.store (fun _ t => H.Assigned m slot p t) fun _ t => t = st.store) :
    H.Withstands m (onStore act) st :=
  withstands_onStore h (hact.mono (fun _ _ ht => ht.kept) fun _ _ ht => ht)

theorem cloneSlot_tidy (hd : Tidy m deeper) {slot : Location} {p : Pointer} {st : CopyState}
    (h : H.WellFormed m st.store) (hs : H.Slot slot) (hp : H.Known m st.store p) :
    H.Withstands m (cloneSlot deeper slot p) st := by
  unfold cloneSlot
  split
  · exact hd H slot p st h hs hp
  · exact withstands_assigned h (h.outcome_writeNull hs)

theorem cloneSlots_tidy (hw : Atomic deeper) (hd : Tidy m deeper) {slots : Location}
    {src : StructView} {j n : Nat} {st : CopyState} (h : H.WellFormed m st.store)
    (hs : ∀ i, j ≤ i → i < j + n → H.Slot (slots.shift (i * 8)))
    (hsrc : H.Known m st.store (.struct src)) :
    H.Withstands m (cloneSlots deeper slots src j n) st := by
  induction n generalizing H j st with
  | zero => exact Outcome.pure h.kept
  | succ n ih =>
      unfold cloneSlots
      refine Outcome.bind_of (outcome_onQuery (src.pointerAt j) st) ?_ ?_
      · rintro e t ⟨rfl, _⟩
        exact h.kept
      rintro p t ⟨rfl, hp⟩
      have hslot := hs j (Nat.le_refl j) (by omega)
      refine withstands_bind (cloneSlot_tidy hd h hslot (hsrc.slot h hp)) (cloneSlot_confined hw _ p t)
        (fun _ => cloneSlots_confined hw slots src (j + 1) n) fun _ u new he hu => ?_
      exact ih hu (fun i hlo hhi => (hs i (by omega) (by omega)).mono) (hsrc.mono he.retains)

theorem clear_tidy {slots : Location} {n count : Nat} {st : CopyState}
    (h : H.WellFormed m st.store) (hm : slots.segment.message = m)
    (hs : ∀ i, i < count → H.Slot (slots.shift (i * 8))) :
    H.Withstands m (onStore (clear (slots.shift (n * 8)) ((count - n) * 8))) st := by
  have hmod (hn : 0 < count - n) : (slots.shift (n * 8)).address % 8 = 0 :=
    h.slot_aligned (hs n (by omega))
  have hslots (k : Location) (hk : (slots.shift (n * 8)).Extent ((count - n) * 8) k) :
      H.Mutable k := by
    obtain ⟨hseg, hlo, hhi⟩ := hk
    rw [Location.shift_address] at hlo hhi
    refine (hs ((k.address - slots.address) / 8) (by omega)).mutable ⟨hseg, ?_, ?_⟩
    · rw [Location.shift_address]
      omega
    · rw [Location.shift_address]
      omega
  have hclear := h.outcome_clear (l := slots.shift (n * 8)) hm hmod hslots
  exact withstands_onStore h (hclear.mono (fun _ _ ht => ht.kept) fun _ _ ht => ht)

theorem fillSlots_tidy (hw : Atomic deeper) (hd : Tidy m deeper) {slots : Location} {count : Nat}
    {src : StructView} {st : CopyState} (h : H.WellFormed m st.store)
    (hm : slots.segment.message = m) (hs : ∀ i, i < count → H.Slot (slots.shift (i * 8)))
    (hsrc : H.Known m st.store (.struct src)) :
    H.Withstands m (fillSlots deeper slots count src) st := by
  unfold fillSlots
  have hclone := cloneSlots_tidy hw hd (j := 0) (n := min count src.shape.slots.toNat) h
    (fun i _ hi => hs i (by omega)) hsrc
  refine withstands_bind hclone (cloneSlots_confined hw slots src 0 _ st)
    (fun _ => clear_confined (slots.shift _) _) fun _ u new _ hu => ?_
  exact clear_tidy hu hm fun i hi => (hs i hi).mono

theorem fillWith_tidy (hw : Atomic deeper) (hd : Tidy m deeper) {loc : Location}
    {shape : StructShape} {member : Bool} {src : StructView} {st : CopyState}
    (h : H.WellFormed m st.store) (hm : loc.segment.message = m)
    (hdst : H.View (.struct (.backed loc shape member)))
    (hsrc : H.Known m st.store (.struct src)) :
    H.Withstands m (fillWith deeper (.backed loc shape member) src) st := by
  have hslots (i : Nat) (hi : i < shape.slots.toNat) :
      H.Slot ((loc.shift shape.data).shift (i * 8)) := by
    have hslot := hdst.slot hi
    rwa [Location.shift, ← Nat.add_assoc] at hslot
  have hdata {s t : Store} (hs : H.WellFormed m s)
      (ht : s.Overwrites loc.segment.message (loc.Extent shape.data) t) : H.WellFormed m t := by
    rw [hm] at ht
    exact hs.data ht fun l hl => hdst.data hl
  unfold fillWith
  refine Outcome.bind_of (outcome_spend _ st) ?_ ?_
  · rintro _ t ⟨_, ht⟩
    rw [ht]
    exact h.kept
  intro _ st₁ h₁
  rw [← h₁] at h hsrc
  have hfill := fillData_overwrites loc shape.data src st₁.store
  refine Outcome.bind_of (outcome_onStore hfill) (fun _ t ht => (hdata h ht.1).kept) ?_
  rintro _ t ⟨ht, _⟩
  exact fillSlots_tidy hw hd (hdata h ht) hm hslots (hsrc.later ht.1.retains)

theorem fillMembers_tidy (hw : Atomic deeper) (hd : Tidy m deeper) {tag : Location} {len i n : Nat}
    {shape : StructShape} {src : ListView} {st : CopyState} (h : H.WellFormed m st.store)
    (ha : ⟨tag, .composite shape len⟩ ∈ H) (hin : i + n ≤ len)
    (hsrc : H.Known m st.store (.list src)) :
    H.Withstands m (fillMembers deeper (.backed (tag.shift 8) len .composite shape) src i n) st := by
  induction n generalizing H i st with
  | zero => exact Outcome.pure h.kept
  | succ n ih =>
      have hi : i < len := by omega
      have hdst : H.View (.struct (.backed ((tag.shift 8).shift (i * shape.bytes)) shape true)) :=
        .inr ⟨tag, shape, len, i, ha, hi, rfl⟩
      have hmember := fillMember_confined hw (tag.shift 8) len shape i (src.member i) st
      have hm : ((tag.shift 8).shift (i * shape.bytes)).segment.message = m := (h.sound _ ha).message
      have hfill := fillWith_tidy hw hd h hm hdst (hsrc.member i)
      unfold fillMembers
      rw [member_eq hi] at hmember ⊢
      refine withstands_bind hfill hmember
        (fun _ => fillMembers_confined hw (tag.shift 8) len shape src (i + 1) n) ?_
      intro _ u new he hu
      exact ih hu (List.mem_append_right new ha) (by omega) (hsrc.mono he.retains)

theorem cloneElements_tidy (hw : Atomic deeper) (hd : Tidy m deeper) {loc : Location}
    {len i n : Nat} {shape : StructShape} {src : ListView} {st : CopyState}
    (h : H.WellFormed m st.store) (ha : ⟨loc, .list .pointer len⟩ ∈ H) (hin : i + n ≤ len)
    (hsrc : H.Known m st.store (.list src)) :
    H.Withstands m (cloneElements deeper (.backed loc len .pointer shape) src i n) st := by
  induction n generalizing H i st with
  | zero => exact Outcome.pure h.kept
  | succ n ih =>
      have hi : i < len := by omega
      unfold cloneElements
      refine Outcome.bind_of (outcome_onQuery (src.pointerAt i) st) ?_ ?_
      · rintro e t ⟨rfl, _⟩
        exact h.kept
      rintro p t ⟨rfl, hp⟩
      have helement := cloneElement_confined hw loc len shape i p t
      rw [slot_eq hi] at helement ⊢
      have hclone : H.Withstands m (cloneElement deeper (some (loc.shift (i * 8))) p) t := by
        change Outcome (if p.isBacked then deeper (loc.shift (i * 8)) p else pure ()) t _ _
        split
        · exact hd H _ p t h ⟨_, ha, i, hi, rfl⟩ (hsrc.element h hp)
        · exact Outcome.pure h.kept
      refine withstands_bind hclone helement
        (fun _ => cloneElements_confined hw loc len shape src (i + 1) n) ?_
      intro _ u new he hu
      exact ih hu (List.mem_append_right new ha) (by omega) (hsrc.mono he.retains)

end Copy

end SegmentedMessage
