import SegmentedMessage.Proofs.Decoding
import SegmentedMessage.Proofs.Objects
import SegmentedMessage.Proofs.Safety

namespace SegmentedMessage

open Store Copy Observation

section Elsewhere

variable {m : Nat} {s t : Store}

theorem StructView.pointerAt_elsewhere (h : ∀ k, k ≠ m → t.message k = s.message k)
    {v : StructView} (hv : ∀ l, v.loc? = some l → l.segment.message ≠ m) (j : Nat) :
    v.pointerAt j t = v.pointerAt j s := by
  unfold StructView.pointerAt
  split
  · rename_i l hl
    obtain ⟨loc, shape, member, rfl, _, rfl⟩ := StructView.slot?_eq_some.mp hl
    exact pointerAt_congr (.of_message (h _ (hv loc rfl))) rfl fun _ _ => id
  · rfl

theorem ListView.pointerAt_elsewhere (h : ∀ k, k ≠ m → t.message k = s.message k)
    {v : ListView} (hv : ∀ l, v.loc? = some l → l.segment.message ≠ m) (i : Nat) :
    v.pointerAt i t = v.pointerAt i s := by
  unfold ListView.pointerAt
  split
  · rename_i l hl
    obtain ⟨loc, len, shape, rfl, _, rfl⟩ := ListView.slot?_eq_some.mp hl
    exact pointerAt_congr (.of_message (h _ (hv loc rfl))) rfl fun _ _ => id
  · rfl

end Elsewhere

structure Store.Keeps (m : Nat) (s₀ s : Store) : Prop where
  valid : s.Valid
  same : ∀ k, k ≠ m → s.message k = s₀.message k

namespace Store.Keeps

variable {m : Nat} {s₀ s t : Store} {free : Location → Prop}

theorem refl (m : Nat) {s : Store} (h : s.Valid) : Keeps m s s :=
  ⟨h, fun _ _ => rfl⟩

theorem later (h : Keeps m s₀ s) (ht : s.Extends m free t) : Keeps m s₀ t where
  valid := ht.valid h.valid
  same k hk := (ht.others k hk).trans (h.same k hk)

theorem range_eq (h : Keeps m s₀ s) {l : Location} (hl : l.segment.message ≠ m) (n : Nat) :
    s.range l n = s₀.range l n :=
  range_congr (h.same _ hl) rfl n

theorem structPointer (h : Keeps m s₀ s) {v : StructView}
    (hv : ∀ l, v.loc? = some l → l.segment.message ≠ m) (j : Nat) :
    v.pointerAt j s = v.pointerAt j s₀ :=
  StructView.pointerAt_elsewhere h.same hv j

theorem listPointer (h : Keeps m s₀ s) {v : ListView}
    (hv : ∀ l, v.loc? = some l → l.segment.message ≠ m) (i : Nat) :
    v.pointerAt i s = v.pointerAt i s₀ :=
  ListView.pointerAt_elsewhere h.same hv i

end Store.Keeps

theorem StructView.pointerAt_foreign {v : StructView} {m j : Nat} {s : Store} {p : Pointer}
    (hv : ∀ l, v.loc? = some l → l.segment.message ≠ m) (hp : v.pointerAt j s = .ok p) :
    ∀ l, p.loc? = some l → l.segment.message ≠ m := by
  intro l hl
  unfold StructView.pointerAt at hp
  split at hp
  · rename_i slot hslot
    obtain ⟨loc, shape, member, rfl, _, rfl⟩ := StructView.slot?_eq_some.mp hslot
    rw [((s.pointerAt_answers _).of_ok hp).message l hl]
    exact hv loc rfl
  · cases hp
    cases hl

theorem ListView.pointerAt_foreign {v : ListView} {m i : Nat} {s : Store} {p : Pointer}
    (hv : ∀ l, v.loc? = some l → l.segment.message ≠ m) (hp : v.pointerAt i s = .ok p) :
    ∀ l, p.loc? = some l → l.segment.message ≠ m := by
  intro l hl
  unfold ListView.pointerAt at hp
  split at hp
  · rename_i slot hslot
    obtain ⟨loc, len, shape, rfl, _, rfl⟩ := ListView.slot?_eq_some.mp hslot
    rw [((s.pointerAt_answers _).of_ok hp).message l hl]
    exact hv loc rfl
  · cases hp
    cases hl

namespace Copy

variable {m k : Nat} {s₀ : Store} {deeper : Writer}

/-- `slot` came to hold a copy of what `source` reads in `s₀`. -/
def Copied {α : Type} (m : Nat) (own free : Location → Prop) (s t : Store) (o : Observation α)
    (source : Option α) : Prop :=
  t.Numbered m → ∃ x, source = some x ∧ Settled m own free s t o x

theorem Copied.row {α : Type} {size i n : Nat} {loc : Location} {own own₁ own₂ : Location → Prop}
    {s t₁ t : Store} {o : Nat → Observation α} {source : Nat → Option α}
    (h₁ : Copied m own₁ (s.Outside (loc.shift (i * size)) size) s t₁ (o i) (source i))
    (h₂ : Copied m own₂ (t₁.Outside (loc.shift ((i + 1) * size)) (n * size)) t₁ t
      (gathered o (i + 1) n) (gather source (i + 1) n))
    (hc : s.covers (loc.shift (i * size)) ((n + 1) * size) = true)
    (he₁ : s.Extends m ((loc.shift (i * size)).Extent size) t₁)
    (he₂ : t₁.Extends m ((loc.shift ((i + 1) * size)).Extent (n * size)) t)
    (hown₁ : ∀ l, own₁ l → own l ∧ (loc.shift (i * size)).Extent size l)
    (hown₂ : ∀ l, own₂ l → own l ∧ (loc.shift ((i + 1) * size)).Extent (n * size) l) :
    Copied m own (s.Outside (loc.shift (i * size)) ((n + 1) * size)) s t
      (gathered o i (n + 1)) (gather source i (n + 1)) := by
  intro hids
  obtain ⟨x, hx, hS⟩ := h₁ (hids.before he₂)
  obtain ⟨xs, hxs, hSs⟩ := h₂ hids
  refine ⟨x :: xs, gather_succ_eq_some.mpr ⟨x, xs, hx, hxs, rfl⟩, ?_⟩
  have hrow := hS.row hSs hc he₁ he₂ (fun l hl => (hown₁ l hl).2) fun l hl => (hown₂ l hl).2
  refine hrow.since fun l _ hl => ⟨hl, ?_⟩
  rintro (hfirst | hrest)
  · exact (hown₁ l hfirst).1
  · exact (hown₂ l hrest).1

structure Ready (m : Nat) (s₀ s : Store) (slot : Location) (p : Pointer) : Prop where
  keeps : Keeps m s₀ s
  message : slot.segment.message = m
  covers : s.covers slot 8 = true
  aligned : slot.address % 8 = 0
  inside : p.Inside s
  foreign : ∀ l, p.loc? = some l → l.segment.message ≠ m

def Faithful (s₀ : Store) (m k : Nat) (w : Writer) : Prop :=
  ∀ slot p st, Ready m s₀ st.store slot p →
    Outcome (w slot p) st (fun _ t => Copied m untouched (st.store.Outside slot 8) st.store t.store
      (ofSlot k slot) (s₀.tree? k p)) fun _ _ => True

theorem writeWord_copied {slot : Location} {p : Pointer} {w : PointerWord} {T : Tree}
    {st : CopyState} (hm : slot.segment.message = m)
    (hT : ∀ own free s t, Settled m own free s t (ofPointer k p) T)
    (hp : ∀ u : Store, u.covers slot 8 = true → u.wordAt slot = w → u.pointerAt slot = .ok p) :
    Outcome (onStore (writeWord slot w)) st
      (fun _ t => Settled m untouched (st.store.Outside slot 8) st.store t.store (ofSlot k slot) T)
      fun _ _ => True := by
  refine (outcome_onStore (outcome_writeWord slot w st.store)).mono ?_ fun _ _ _ => trivial
  rintro _ t ⟨⟨ht, hc⟩, _⟩
  refine (hT untouched _ _ _).of_pointer fun u hu => ?_
  rw [← hm] at hu
  obtain ⟨hcu, hword⟩ := wordAt_slot ht hc hu
  exact hp u hcu hword

theorem writeNull_copied {slot : Location} {st : CopyState} (hm : slot.segment.message = m) :
    Outcome (onStore (writeWord slot .null)) st
      (fun _ t => Settled m untouched (st.store.Outside slot 8) st.store t.store
        (ofSlot (k + 1) slot) .null) fun _ _ => True :=
  writeWord_copied hm (fun _ _ _ _ => .null k) fun _ hc hw => pointerAt_null hc hw

theorem cloneSlot_copied (hf : Faithful s₀ m (k + 1) deeper) {slot : Location} {p : Pointer}
    {st : CopyState} (hr : Ready m s₀ st.store slot p) (hnull : p.isBacked = false → p = .null) :
    Outcome (cloneSlot deeper slot p) st
      (fun _ t => Copied m untouched (st.store.Outside slot 8) st.store t.store
        (ofSlot (k + 1) slot) (s₀.tree? (k + 1) p)) fun _ _ => True := by
  unfold cloneSlot
  split
  · exact hf slot p st hr
  · rename_i hb
    rw [hnull (by simpa using hb)]
    refine (writeNull_copied hr.message).mono (fun _ t ht _ => ⟨.null, ?_, ht⟩) fun _ _ h => h
    simp only [tree?, treeWith]

theorem cloneSlots_copied (hw : Atomic deeper) (hf : Faithful s₀ m (k + 1) deeper)
    {slots : Location} {src : StructView} {j n : Nat} {st : CopyState}
    (hk : Keeps m s₀ st.store) (hm : slots.segment.message = m)
    (hc : st.store.covers (slots.shift (j * 8)) (n * 8) = true) (ha : slots.address % 8 = 0)
    (hsrc : ∀ l, src.loc? = some l → l.segment.message ≠ m) :
    Outcome (cloneSlots deeper slots src j n) st
      (fun _ t => Copied m untouched (st.store.Outside (slots.shift (j * 8)) (n * 8)) st.store t.store
        (gathered (fun i => ofSlot (k + 1) (slots.shift (i * 8))) j n)
        (gather (fun i => slotTree (s₀.tree? (k + 1)) (src.pointerAt i s₀)) j n))
      fun _ _ => True := by
  subst hm
  induction n generalizing j st with
  | zero => exact Outcome.pure fun _ => ⟨[], rfl, .nil _ _⟩
  | succ n ih =>
      have hslot : st.store.covers (slots.shift (j * 8)) 8 = true := covers_take hc (by omega)
      have hrest : st.store.covers (slots.shift ((j + 1) * 8)) (n * 8) = true :=
        covers_within hc (by omega)
      have hread := src.pointerAt_answers j st.store
      unfold cloneSlots
      refine Outcome.bind_of (outcome_onQuery (src.pointerAt j) st) (fun _ _ _ => trivial) ?_
      rintro p st' ⟨rfl, hp⟩
      obtain ⟨hin, _, hnull, hmess⟩ := hread.of_ok hp
      have hready : Ready slots.segment.message s₀ st'.store (slots.shift (j * 8)) p := by
        have hmod := Location.shift_mod ha (Nat.mul_mod_left j 8)
        exact ⟨hk, rfl, hslot, hmod, hin, StructView.pointerAt_foreign hsrc hp⟩
      have hone := (cloneSlot_copied hf hready hnull).and (cloneSlot_confined hw _ p st')
      have hsource : s₀.tree? (k + 1) p = slotTree (s₀.tree? (k + 1)) (src.pointerAt j s₀) := by
        rw [← hk.structPointer hsrc, hp, slotTree]
      rw [hsource] at hone
      refine Outcome.bind_of hone (fun _ _ _ => trivial) ?_
      rintro _ t₁ ⟨h₁, he₁⟩
      have hkeep := hk.later he₁
      have hall := (ih (he₁.covers hrest) hkeep).and
        (cloneSlots_confined hw slots src (j + 1) n t₁)
      refine hall.mono ?_ fun _ _ _ => trivial
      rintro _ t ⟨h₂, he₂⟩
      exact h₁.row h₂ hc he₁ he₂ (fun _ h => h.elim) fun _ h => h.elim

theorem outcome_copyRange (dst src : Location) (n : Nat) (s : Store)
    (hs : s.covers src n = true) :
    Outcome (copyBytes dst src n) s (fun _ t => t.range dst n = s.range src n) fun _ _ => True := by
  refine (outcome_copyBytes dst src n s).mono ?_ fun _ _ _ => trivial
  intro _ t ht
  by_cases hn : n = 0
  · subst hn
    rw [range_zero, range_zero]
  · rw [if_neg hn] at ht
    exact ht.range_self (length_range hs)

theorem outcome_fillData {dst loc : Location} {shape : StructShape} {member : Bool} {s : Store}
    (hs : s.covers loc shape.data = true) :
    Outcome (fillData dst shape.data (.backed loc shape member)) s
      (fun _ t => t.range dst shape.data = s.range loc shape.data) fun _ _ => True := by
  unfold fillData
  simp only [StructView.shape, StructView.loc?, Nat.min_self, Nat.sub_self]
  refine Outcome.bind_of (outcome_copyRange dst loc shape.data s hs) (fun _ _ _ => trivial) ?_
  intro _ t ht
  refine (outcome_clear (dst.shift shape.data) 0 t).mono ?_ fun _ _ _ => trivial
  intro _ u hu
  have hcontents : u.contents dst.segment = t.contents dst.segment := by
    rw [hu.contents, List.replicate_zero, splice_nil, ite_self]
  rw [range, hcontents]
  exact ht

theorem fillSlots_copied (hw : Atomic deeper) (hf : Faithful s₀ m (k + 1) deeper)
    {slots : Location} {src : StructView} {st : CopyState} (hk : Keeps m s₀ st.store)
    (hm : slots.segment.message = m)
    (hc : st.store.covers slots (src.shape.slots.toNat * 8) = true) (ha : slots.address % 8 = 0)
    (hsrc : ∀ l, src.loc? = some l → l.segment.message ≠ m) :
    Outcome (fillSlots deeper slots src.shape.slots.toNat src) st
      (fun _ t => Copied m untouched (st.store.Outside slots (src.shape.slots.toNat * 8))
        st.store t.store
        (gathered (fun i => ofSlot (k + 1) (slots.shift (i * 8))) 0 src.shape.slots.toNat)
        (gather (fun i => slotTree (s₀.tree? (k + 1)) (src.pointerAt i s₀)) 0
          src.shape.slots.toNat))
      fun _ _ => True := by
  unfold fillSlots
  simp only [Nat.min_self, Nat.sub_self, Nat.zero_mul]
  have hclone := cloneSlots_copied hw hf (j := 0) hk hm hc ha hsrc
  refine Outcome.bind_of hclone (fun _ _ _ => trivial) ?_
  intro _ t ht
  refine (outcome_onStore (clear_extends _ 0 t.store)).mono ?_ fun _ _ _ => trivial
  rintro _ u ⟨he, _⟩ hids
  obtain ⟨Ts, hTs, hS⟩ := ht (hids.before he)
  refine ⟨Ts, hTs, hS.later ?_⟩
  rw [← hm]
  exact he.grows.weaken fun l _ _ hl => (Location.not_extent_zero hl).elim

theorem fillWith_copied (hw : Atomic deeper) (hf : Faithful s₀ m (k + 1) deeper)
    {loc loc' : Location} {shape : StructShape} {member member' : Bool} {st : CopyState}
    (hk : Keeps m s₀ st.store) (hm : loc.segment.message = m)
    (hc : st.store.covers loc shape.bytes = true) (ha : loc.address % 8 = 0)
    (hs : (StructView.backed loc' shape member').Inside st.store)
    (hne : loc'.segment.message ≠ m) :
    Outcome (fillWith deeper (.backed loc shape member) (.backed loc' shape member')) st
      (fun _ t => Copied m (loc.Extent shape.bytes) (st.store.Outside loc shape.bytes)
        st.store t.store (ofStruct (k + 1) (.backed loc shape member))
        (s₀.structTree (s₀.tree? (k + 1)) (.backed loc' shape member')))
      fun _ _ => True := by
  subst hm
  have hmod := hs.1.1
  have hdata : st.store.covers loc shape.data = true :=
    covers_take hc (Nat.le_add_right _ _)
  have hslots : st.store.covers (loc.shift shape.data) (shape.slots.toNat * 8) = true :=
    covers_shift hc (Nat.le_refl _)
  have haligned : (loc.shift shape.data).address % 8 = 0 := Location.shift_mod ha hmod
  have hforeign (l : Location) (hl : (StructView.backed loc' shape member').loc? = some l) :
      l.segment.message ≠ loc.segment.message := by
    cases hl
    exact hne
  unfold fillWith
  refine Outcome.bind_of (outcome_spend _ st) (fun _ _ _ => trivial) ?_
  intro _ st₁ h₁
  rw [← h₁] at hk hdata hslots hc hs ⊢
  have hcov : st₁.store.covers loc' shape.data = true := hs.data rfl
  have hfill : Outcome (onStore (fillData loc shape.data (.backed loc' shape member'))) st₁ _ _ :=
    (outcome_onStore (outcome_fillData hcov)).and
      (fillData_confined loc shape.data (.backed loc' shape member') st₁)
  refine Outcome.bind_of hfill (fun _ _ _ => trivial) ?_
  rintro _ st₂ ⟨⟨hrange, _⟩, he₂⟩
  have hkeep := hk.later he₂
  have hcopied : Outcome (fillSlots deeper (loc.shift shape.data) shape.slots.toNat
      (.backed loc' shape member')) st₂ _ _ :=
    fillSlots_copied hw hf hkeep rfl (he₂.covers hslots) haligned hforeign
  have hparts := hcopied.and (fillSlots_confined hw (loc.shift shape.data) shape.slots.toNat
    (.backed loc' shape member') st₂)
  refine hparts.mono ?_ fun _ _ _ => trivial
  rintro _ t ⟨h₃, he₃⟩ hids
  obtain ⟨Ts, hTs, hS⟩ := h₃ hids
  have hkept : t.store.range loc shape.data = s₀.range loc' shape.data := by
    rw [he₃.range_eq (covers_iff.mp (he₂.covers hdata)).2 fun l hl => hl.before, hrange,
      hk.range_eq hne]
  refine ⟨.struct shape (s₀.range loc' shape.data) Ts, ?_, ?_⟩
  · exact Option.map_eq_some_iff.mpr ⟨Ts, hTs, rfl⟩
  · refine Settled.struct rfl hc (he₃.covers (he₂.covers hc))
      (fun l _ hl => he₃.used (he₂.used hl)) hkept ?_
    refine (hS.narrow ?_).since fun l _ hl => ⟨he₂.used hl, id⟩
    exact fun l _ _ hl => ⟨he₂.used hl.1, fun h => hl.2 h.of_shift⟩

end Copy

end SegmentedMessage
