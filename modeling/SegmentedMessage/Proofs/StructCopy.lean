import SegmentedMessage.Proofs.Containment
import SegmentedMessage.Proofs.Sharing

namespace SegmentedMessage

open Store Copy

namespace StructView

/-- What decoding the slots of a source in the same message reads is apart from the struct at `loc`,
and what they lead to is aligned. A source in another message is never in the way. -/
def ClearOf (s : Store) (v : StructView) (loc : Location) (shape : StructShape) : Prop :=
  ∀ l, v.loc? = some l → l.segment.message = loc.segment.message →
    ∀ i slot q, i < shape.slots.toNat → v.slot? i = some slot → s.pointerAt slot = .ok q →
      q.Aligned ∧ ∀ k, s.Consults slot k → ¬ loc.Extent shape.bytes k

end StructView

namespace Store

def Filled (s t : Store) (loc : Location) (data : Nat) : StructView → Prop
  | .absent => t.range loc data = List.replicate data 0
  | .backed l shape _ => s.Overlaid t l loc shape.data data

theorem Filled.kept {s t u : Store} {src : StructView} {loc : Location} {data m : Nat}
    {free : Location → Prop} (h : s.Filled t loc data src) (he : t.Extends m free u)
    (hc : t.covers loc data = true) (hf : ∀ k, loc.Extent data k → ¬ free k) :
    s.Filled u loc data src := by
  cases src with
  | absent => exact (he.range_eq (covers_iff.mp hc).2 hf).trans h
  | backed l shape member => exact Overlaid.kept h he hc hf

/-- What a slot shows after slot `i` of a source has been copied there: the same pointer, if the source
is in the same message, and else a deep copy in the message of the slot. -/
structure SlotCopied (s t : Store) (src : StructView) (i : Nat) (slot : Location) : Prop where
  shared : ∀ l, src.loc? = some l → l.segment.message = slot.segment.message →
    ∀ q, src.pointerAt i s = .ok q → t.pointerAt slot = .ok (q.shownAt slot)
  cloned : ∀ l, src.loc? = some l → l.segment.message ≠ slot.segment.message →
    ∃ p q k T, src.pointerAt i s = .ok p ∧ t.pointerAt slot = .ok q ∧ (q = .null ↔ p = .null) ∧
      q.In slot.segment.message ∧ s.tree? k p = some T ∧ t.tree? k q = some T

structure FilledTo (s t : Store) (loc : Location) (shape : StructShape) (src : StructView)
    (j : Nat) : Prop where
  data : s.Filled t loc shape.data src
  slots : t.Numbered loc.segment.message →
    ∀ i, i < j → s.SlotCopied t src i (loc.shift (shape.data + i * 8))

section Trees

variable {s t : Store} {k : Nat} {p q : Pointer} {T : Tree}

theorem null_of_tree (hp : s.tree? k p = some T) (hq : t.tree? k q = some T)
    (hnull : p.isBacked = false → p = .null) (h : q = .null) : p = .null := by
  subst h
  obtain rfl := tree?_null hq
  exact hnull (isBacked_of_null hp)

theorem SlotCopied.of_trees {src : StructView} {i : Nat} {slot : Location}
    (hp : slotTree (s.tree? k) (src.pointerAt i s) = some T)
    (hq : slotTree (t.tree? k) (t.pointerAt slot) = some T)
    (hne : ∀ l, src.loc? = some l → l.segment.message ≠ slot.segment.message) :
    s.SlotCopied t src i slot := by
  refine ⟨fun l hl hm => absurd hm (hne l hl), fun l hl _ => ?_⟩
  obtain ⟨p, hp, hT⟩ := slotTree_eq_some.mp hp
  obtain ⟨q, hq, hU⟩ := slotTree_eq_some.mp hq
  have hsource := (src.pointerAt_answers i s).of_ok hp
  have hcopy := (t.pointerAt_answers slot).of_ok hq
  exact ⟨p, q, k, T, hp, hq, ⟨null_of_tree hT hU hsource.2.2.1, null_of_tree hU hT hcopy.null⟩,
    hcopy.message, hT, hU⟩

end Trees

end Store

namespace Copy

variable {deeper : Writer}

theorem fillData_fills {dst : Location} {space : Nat} {src : StructView} {s : Store} (hv : s.Valid)
    (hd : s.covers dst space = true) (hs : src.Inside s) :
    Outcome (fillData dst space src) s (fun _ t => s.Filled t dst space src) fun _ _ => False := by
  have hfills : Outcome (fillData dst space src) s (fun _ t => s.Filled t dst space src)
      fun _ _ => True := by
    cases src with
    | absent =>
        unfold fillData
        simp only [StructView.shape, StructShape.empty, Nat.min_zero, Nat.sub_zero]
        refine Outcome.bind_of (P := fun _ t => t = s) (Outcome.pure rfl) (fun _ _ h => h) ?_
        rintro _ t rfl
        exact (outcome_clear dst space t).mono (fun _ u hu => hu.range_self
          (List.length_replicate ..)) fun _ _ _ => trivial
    | backed loc shape member => exact fillData_overlays hd (hs.data rfl)
  exact (hfills.and (fillData_done hv hd hs)).mono (fun _ _ h => h.1) fun _ _ h => h.2

theorem pointerAt_cleared {slots : Location} {n count i : Nat} {s t : Store}
    (h : Pasted (slots.shift (n * 8)) (List.replicate ((count - n) * 8) 0) s t)
    (hc : t.covers slots (count * 8) = true) (hlo : n ≤ i) (hhi : i < count) :
    t.pointerAt (slots.shift (i * 8)) = .ok .null := by
  have hslot : t.covers (slots.shift (i * 8)) 8 = true := covers_shift hc (by omega)
  have hzero := h.range_self (List.length_replicate ..)
  have hword := range_shift_zero hzero (i := (i - n) * 8) (w := 8) (by omega)
  rw [Location.shift_shift, show n * 8 + (i - n) * 8 = i * 8 by omega] at hword
  exact pointerAt_null hslot (wordAt_of_zero hword)

theorem cloneSlot_halts (hw : Atomic deeper) (slot : Location) (p : Pointer) (st : CopyState) :
    Outcome (cloneSlot deeper slot p) st (fun _ _ => True)
      fun _ t => st.store.Extends slot.segment.message untouched t.store := by
  unfold cloneSlot
  split
  · exact (hw slot p st).mono (fun _ _ _ => trivial) fun _ _ h => h
  · refine (outcome_onStore (outcome_writeWord slot .null st.store)).mono (fun _ _ _ => trivial) ?_
    rintro _ t ⟨⟨ht, _⟩, _⟩
    rw [ht]
    exact .refl _ _ _

theorem cloneSlots_stops (hw : Atomic deeper) (slots : Location) (src : StructView) (j n : Nat)
    (st : CopyState) :
    Outcome (cloneSlots deeper slots src j n) st (fun _ _ => True)
      fun _ t => ∃ i st', i < n ∧ cloneSlots deeper slots src j i st = .ok () st' ∧
        st'.store.Extends slots.segment.message untouched t.store := by
  induction n generalizing j st with
  | zero => exact Outcome.pure trivial
  | succ n ih =>
    unfold cloneSlots
    refine Outcome.bind_of ((outcome_onQuery (src.pointerAt j) st).and (.self _ st)) ?_ ?_
    · rintro e t ⟨⟨rfl, _⟩, _⟩
      exact ⟨0, t, Nat.succ_pos n, rfl, .refl _ _ _⟩
    · rintro q st' ⟨⟨rfl, _⟩, hquery⟩
      refine Outcome.bind_of ((cloneSlot_halts hw (slots.shift (j * 8)) q st').and (.self _ st')) ?_ ?_
      · rintro e t ⟨he, _⟩
        exact ⟨0, st', Nat.succ_pos n, rfl, he⟩
      · rintro _ t₁ ⟨_, hone⟩
        refine (ih (j + 1) t₁).mono (fun _ _ h => h) ?_
        rintro e t ⟨i, t₂, hi, hrun, he⟩
        -- the shorter run that ended well begins with this slot
        refine ⟨i + 1, t₂, Nat.succ_lt_succ hi, ?_, he⟩
        simp only [Bind.bind, EStateM.bind, hquery, hone, hrun]

section Slots

variable {s₀ : Store} {k n : Nat} {slots : Location} {own : Location → Prop} {src : StructView}
  {st : CopyState}

def RowCopied (s₀ t : Store) (own : Location → Prop) (slots : Location) (src : StructView)
    (n : Nat) : Prop :=
  ∀ u, t.Extends slots.segment.message (fun l => own l ∧ ¬ slots.Extent (n * 8) l) u →
    u.Numbered slots.segment.message → ∀ i, i < n → s₀.SlotCopied u src i (slots.shift (i * 8))

theorem cloneSlots_shared (hw : Atomic deeper) (hs : Sharing deeper) (hv : s₀.Valid)
    (he : s₀.Extends slots.segment.message own st.store)
    (hown : ∀ l, slots.Extent (n * 8) l → own l) (hused : ∀ l, own l → s₀.Used l)
    (hc : st.store.covers (slots.shift (0 * 8)) (n * 8) = true) (ha : slots.address % 8 = 0)
    (hn : n ≤ src.shape.slots.toNat)
    (hm : ∀ l, src.loc? = some l → l.segment.message = slots.segment.message)
    (hclear : ∀ i slot q, i < 0 + n → src.slot? i = some slot → s₀.pointerAt slot = .ok q →
      q.Aligned ∧ ∀ k, s₀.Consults slot k → ¬ own k) :
    Outcome (cloneSlots deeper slots src 0 n) st
      (fun _ t => RowCopied s₀ t.store own slots src n) fun _ _ => True := by
  have hslot (i : Nat) (l : Location) (hl : src.slot? i = some l) :
      l.segment.message = slots.segment.message := by
    obtain ⟨loc, _, _, rfl, _, rfl⟩ := StructView.slot?_eq_some.mp hl
    exact hm loc rfl
  have hshows := cloneSlots_shows hw hs (he.valid hv) he
    (fun l hl => hown l (hl.of_shift.mono (by omega))) ha hc hslot (by omega)
    fun i l q hi hl hq => ⟨(hclear i l q hi hl hq).1, fun k hk _ => (hclear i l q hi hl hq).2 k hk⟩
  refine hshows.mono ?_ fun _ _ h => h
  rintro _ t ⟨_, hrow⟩ u hu hids i hi
  refine ⟨fun _ _ _ q hq => ?_, fun l hl hne => absurd (hm l hl) hne⟩
  obtain ⟨slot, hl⟩ := src.exists_slot (Nat.lt_of_lt_of_le hi hn)
  have hq₀ := (StructView.pointerAt_of_slot hl s₀).symm.trans hq
  have hapart := (hclear i slot q (by omega) hl hq₀).2
  refine hrow (hids.before hu) i (Nat.zero_le i) (by omega) q hq u ?_
  refine hu.grows.weaken fun k _ _ hk => ⟨⟨hused k hk.1, fun h => hk.2 ?_⟩, fun h => ?_⟩
  · exact h.of_shift.mono (by omega)
  · exact hapart k ((s₀.pointerAt_consults slot).of_ok hq₀ k h) hk.1

theorem cloneSlots_cloned (hw : Atomic deeper)
    (hf : Faithful s₀ slots.segment.message (k + 1) deeper) (hv : s₀.Valid)
    (he : s₀.Extends slots.segment.message own st.store) (hused : ∀ l, own l → s₀.Used l)
    (hc : st.store.covers (slots.shift (0 * 8)) (n * 8) = true) (ha : slots.address % 8 = 0)
    (hne : ∀ l, src.loc? = some l → l.segment.message ≠ slots.segment.message) :
    Outcome (cloneSlots deeper slots src 0 n) st
      (fun _ t => RowCopied s₀ t.store own slots src n) fun _ _ => True := by
  refine (cloneSlots_copied hw hf (.later (.refl _ hv) he) rfl hc ha hne).mono ?_ fun _ _ h => h
  intro _ t hcopied u hu hids i hi
  obtain ⟨Ts, hTs, hS⟩ := hcopied (hids.before hu)
  have hgrows : t.store.Grows slots.segment.message
      (st.store.Outside (slots.shift (0 * 8)) (n * 8)) u := by
    refine hu.grows.weaken fun k _ _ hk => ⟨he.used (hused k hk.1), fun h => hk.2 ?_⟩
    exact h.of_shift.mono (by omega)
  obtain ⟨T, hT, hU⟩ := gather_agree hTs (hS.value u hgrows) (Nat.zero_le i) (by omega)
  exact .of_trees hT hU hne

theorem cloneSlots_copies (hw : Atomic deeper) (hs : Sharing deeper)
    (hf : Faithful s₀ slots.segment.message (k + 1) deeper) (hv : s₀.Valid)
    (he : s₀.Extends slots.segment.message own st.store)
    (hown : ∀ l, slots.Extent (n * 8) l → own l) (hused : ∀ l, own l → s₀.Used l)
    (hc : st.store.covers slots (n * 8) = true) (ha : slots.address % 8 = 0)
    (hn : n ≤ src.shape.slots.toNat)
    (hclear : ∀ l, src.loc? = some l → l.segment.message = slots.segment.message →
      ∀ i slot q, i < n → src.slot? i = some slot → s₀.pointerAt slot = .ok q →
        q.Aligned ∧ ∀ k, s₀.Consults slot k → ¬ own k) :
    Outcome (cloneSlots deeper slots src 0 n) st
      (fun _ t => RowCopied s₀ t.store own slots src n) fun _ _ => True := by
  have hfirst : st.store.covers (slots.shift (0 * 8)) (n * 8) = true := covers_take hc (by omega)
  rcases (Pointer.struct src).in_or_elsewhere slots.segment.message with hm | hne
  · cases hloc : src.loc? with
    | none => exact cloneSlots_cloned hw hf hv he hused hfirst ha fun l hl => nomatch hloc ▸ hl
    | some loc =>
      refine cloneSlots_shared hw hs hv he hown hused hfirst ha hn hm fun i slot q hi => ?_
      exact hclear loc hloc (hm loc hloc) i slot q (by omega)
  · exact cloneSlots_cloned hw hf hv he hused hfirst ha hne

end Slots

section Fill

variable {loc : Location} {shape : StructShape} {member : Bool} {src : StructView} {k : Nat}
  {s₀ : Store} {st : CopyState}

theorem cloneSlots_fill (hw : Atomic deeper) (hs : Sharing deeper) {n : Nat}
    (hf : Faithful s₀ loc.segment.message (k + 1) deeper) (hv : s₀.Valid)
    (hd : (StructView.backed loc shape member).Inside s₀) (ha : loc.address % 8 = 0)
    (hclear : src.ClearOf s₀ loc shape) (hn : n ≤ min shape.slots.toNat src.shape.slots.toNat)
    (hdata : s₀.Filled st.store loc shape.data src)
    (he : s₀.Extends loc.segment.message (loc.Extent shape.data) st.store) :
    Outcome (cloneSlots deeper (loc.shift shape.data) src 0 n) st
      (fun _ t => s₀.Extends loc.segment.message (loc.Extent (shape.data + n * 8)) t.store ∧
        ∀ u, t.store.Extends loc.segment.message
          (fun l => loc.Extent shape.bytes l ∧ ¬ loc.Extent (shape.data + n * 8) l) u →
        s₀.FilledTo u loc shape src n) fun _ _ => True := by
  have hwhole : shape.data + n * 8 ≤ shape.bytes := by
    simp only [StructShape.bytes, StructShape.slotBytes]
    omega
  have hall : s₀.covers loc (shape.data + n * 8) = true := covers_take hd.2 hwhole
  have hfirst : st.store.covers loc (shape.data + n * 8) = true := he.covers hall
  have hown : s₀.Extends (loc.shift shape.data).segment.message (loc.Extent shape.bytes) st.store :=
    he.weaken fun l _ _ hl => hl.mono (Nat.le_add_right _ _)
  have hcopies : Outcome (cloneSlots deeper (loc.shift shape.data) src 0 n) st _ _ :=
    cloneSlots_copies hw hs hf hv hown (fun l hl => hl.of_shift.mono hwhole)
      (fun l hl => used_of_extent hd.2 hl) (covers_shift hfirst (Nat.le_refl _))
      (Location.shift_mod ha hd.1.1) (by omega) fun l hl hm i slot q hi =>
        hclear l hl hm i slot q (by omega)
  refine (hcopies.and (cloneSlots_confined hw (loc.shift shape.data) src 0 n st)).mono ?_
    fun _ _ _ => trivial
  rintro _ t ⟨hslots, he'⟩
  refine ⟨?_, fun u hu => ⟨?_, fun hids i hi => ?_⟩⟩
  · exact (he.weaken fun l _ _ hl => hl.mono (Nat.le_add_right _ _)).trans
      (he'.weaken fun l _ _ hl => hl.of_shift.of_shift.mono (by omega))
  · have hcov : st.store.covers loc shape.data = true := covers_take hfirst (Nat.le_add_right _ _)
    have hafter : st.store.Extends loc.segment.message (fun l => ¬ loc.Extent shape.data l) u :=
      (he'.weaken fun l _ _ hl h => h.before hl.of_shift).trans
        (hu.weaken fun l _ _ hl h => hl.2 (h.mono (Nat.le_add_right _ _)))
    exact hdata.kept hafter hcov fun l hl h => h hl
  · rw [← Location.shift_shift]
    exact hslots u (hu.weaken fun l _ _ hl => ⟨hl.1, fun h => hl.2 h.of_shift⟩) hids i hi

/-- A run that ends well has filled the whole struct. One that fails has failed before the data was
filled, or at a slot. Slots beyond those of the source cannot fail. -/
def Staged (loc : Location) (shape : StructShape) (member : Bool) (src : StructView)
    (act : CopyM Unit) (st : CopyState) : Prop :=
  Outcome act st
    (fun _ t => st.store.FilledTo t.store loc shape src
        (min shape.slots.toNat src.shape.slots.toNat) ∧
      ∀ i, min shape.slots.toNat src.shape.slots.toNat ≤ i →
        (StructView.backed loc shape member).pointerAt i t.store = .ok .null)
    fun e t => (t.store = st.store ∧ e = .failure .overBudget ∧
        st.budget < max (src.shape.bytes / 8) 1) ∨
      ∃ j, j < min shape.slots.toNat src.shape.slots.toNat ∧
        st.store.FilledTo t.store loc shape src j ∧
        st.store.Extends loc.segment.message (loc.Extent (shape.data + j * 8)) t.store

theorem fillWith_staged (hw : Atomic deeper) (hs : Sharing deeper)
    (hf : Faithful st.store loc.segment.message (k + 1) deeper) (hv : st.store.Valid)
    (hd : (StructView.backed loc shape member).Inside st.store) (ha : loc.address % 8 = 0)
    (hsrc : src.Inside st.store) (hclear : src.ClearOf st.store loc shape) :
    Staged loc shape member src (fillWith deeper (.backed loc shape member) src) st := by
  have hdata : st.store.covers loc shape.data = true := covers_take hd.2 (Nat.le_add_right _ _)
  unfold fillWith
  refine Outcome.bind_of (outcome_spend_exact (src.shape.bytes / 8) st)
    (fun _ _ h => .inl h) ?_
  rintro _ st₁ ⟨h₁, _⟩
  rw [← h₁] at hf hv hd hsrc hclear hdata ⊢
  have hfill : Outcome (onStore (fillData loc shape.data src)) st₁ _ _ :=
    (outcome_onStore (fillData_fills hv hdata hsrc)).and (fillData_confined loc shape.data src st₁)
  refine Outcome.bind_of hfill (fun _ _ h => h.1.1.elim) ?_
  rintro _ st₂ ⟨⟨hfilled, _⟩, he⟩
  have hcopies (n : Nat) (hn : n ≤ min shape.slots.toNat src.shape.slots.toNat) :=
    cloneSlots_fill hw hs hf hv hd ha hclear hn hfilled he
  unfold fillSlots
  dsimp only
  refine Outcome.bind_of ((cloneSlots_stops hw (loc.shift shape.data) src 0 _ st₂).and
    (hcopies _ (Nat.le_refl _))) ?_ ?_
  · rintro e t ⟨⟨j, st', hj, hrun, he'⟩, _⟩
    obtain ⟨honly, hto⟩ := (hcopies j (Nat.le_of_lt hj)).of_ok hrun
    exact .inr ⟨j, hj, hto t.store he'.of_untouched, honly.trans he'.of_untouched⟩
  · rintro _ t ⟨_, honly, hto⟩
    have hrow : t.store.covers (loc.shift shape.data) (shape.slots.toNat * 8) = true :=
      honly.covers (covers_shift hd.2 (Nat.le_refl _))
    generalize hn : min shape.slots.toNat src.shape.slots.toNat = n at honly hto ⊢
    have htail : t.store.covers ((loc.shift shape.data).shift (n * 8))
        ((shape.slots.toNat - n) * 8) = true := covers_shift hrow (by omega)
    have hclear := (outcome_clear ((loc.shift shape.data).shift (n * 8))
      ((shape.slots.toNat - n) * 8) t.store).and (clear_done (honly.valid hv) htail)
    refine (outcome_onStore hclear).mono ?_ fun _ _ h => h.1.2.elim
    rintro _ u ⟨⟨hu, _⟩, _⟩
    have he' := hu.extends_
    rw [List.length_replicate] at he'
    refine ⟨hto u.store (he'.weaken fun l _ _ hl => ?_), fun i hlo => ?_⟩
    · rw [Location.shift_shift] at hl
      exact ⟨hl.of_shift.mono (by simp only [StructShape.bytes, StructShape.slotBytes]; omega),
        fun h => h.before hl⟩
    · rcases Nat.lt_or_ge i shape.slots.toNat with hin | hbeyond
      · exact (StructView.pointerAt_eq hin u.store).trans
          (pointerAt_cleared hu (he'.covers hrow) hlo hin)
      · exact StructView.pointerAt_beyond hbeyond

theorem fill_staged (c : CopyScope) (hv : st.store.Valid)
    (hd : (StructView.backed loc shape member).Inside st.store) (ha : loc.address % 8 = 0)
    (hsrc : src.Inside st.store) (hclear : src.ClearOf st.store loc shape) :
    Staged loc shape member src (fill c (.backed loc shape member) src) st :=
  fillWith_staged (follow_atomic c.limit c.levels) (follow_sharing c.limit c.levels)
    (follow_faithful st.store loc.segment.message c.limit c.levels) hv hd ha hsrc hclear

theorem fill_confined (c : CopyScope) (loc : Location) (shape : StructShape) (member : Bool)
    (src : StructView) : Confined loc.segment.message (loc.Extent shape.bytes)
      (fill c (.backed loc shape member) src) :=
  fillWith_confined (follow_atomic c.limit c.levels) loc shape member src

end Fill

end Copy

/-- A struct copy that fails has either not been paid for, and then nothing has changed, or it has
stopped at a slot that both structs have: the data is complete, the slots before that one hold their
copies, and that one and all after it are as they were. -/
theorem structCopy_stops_at_slot {σ : Session}
    (h : Session.Reaches Session.Allows Session.empty σ) {loc : Location} {shape : StructShape}
    {member : Bool} (hdst : σ.Holds (.struct (.backed loc shape member)))
    (ha : loc.address % 8 = 0) {src : StructView} (hsrc : σ.Holds (.struct src))
    (hclear : src.ClearOf σ.store loc shape) {c : CopyScope} {budget : Nat} {e : Abort}
    {t : CopyState} (hrun : fill c (.backed loc shape member) src ⟨σ.store, budget⟩ = .error e t) :
    (t.store = σ.store ∧ e = .failure .overBudget ∧ budget < max (src.shape.bytes / 8) 1) ∨
      ∃ j, j < min shape.slots.toNat src.shape.slots.toNat ∧
        σ.store.FilledTo t.store loc shape src j ∧
        (∀ i slot, j ≤ i → (StructView.backed loc shape member).slot? i = some slot →
          t.store.range slot 8 = σ.store.range slot 8) ∧
        σ.store.Extends loc.segment.message (loc.Extent (shape.data + j * 8)) t.store := by
  have hs : σ.Safe := h.safe Session.safe_empty
  have hd : (StructView.backed loc shape member).Inside σ.store := hs.holds hdst
  have hstaged : Staged loc shape member src (fill c (.backed loc shape member) src)
      ⟨σ.store, budget⟩ := fill_staged c hs.valid hd ha (hs.holds hsrc) hclear
  rcases Outcome.of_error hstaged hrun with hbudget | ⟨j, hj, hto, honly⟩
  · exact .inl hbudget
  · refine .inr ⟨j, hj, hto, fun i slot hi hslot => ?_, honly⟩
    have hcov : σ.store.covers slot 8 = true := hd.slot hslot
    obtain ⟨_, _, _, hview, _, rfl⟩ := StructView.slot?_eq_some.mp hslot
    cases hview
    exact honly.range_eq (covers_iff.mp hcov).2 fun l hl h => hl.apart (j := 0) (by omega) h

/-- Of the two slots of the source the first holds a capability, and the second does not decode. -/
theorem structCopy_stops_at_slot_unknownWord :
    let ρ := ((Session.empty.after (.creation (.opened
      [⟨#[0, 0, 0, 0, 1, 0, 2, 0, 1, 2, 3, 4, 5, 6, 7, 8,
        3, 0, 0, 0, 9, 0, 0, 0, 7, 0, 0, 0, 0, 0, 0, 0]⟩] []))).after
      (.creation (.message []))).after (.query (.rootView 0))
    let σ := ρ.after (.creation (.struct ⟨1, 0⟩ ⟨16, 3⟩))
    let src := StructView.backed ⟨⟨0, 0⟩, 8⟩ ⟨8, 2⟩ false
    let loc : Location := ⟨⟨1, 0⟩, 8⟩
    ∃ e t, fill (.top 64) (.backed loc ⟨16, 3⟩ false) src ⟨σ.store, 100⟩ = .error e t ∧
      ∃ j, j < 2 ∧ σ.store.FilledTo t.store loc ⟨16, 3⟩ src j ∧
        (∀ i slot, j ≤ i → (StructView.backed loc ⟨16, 3⟩ false).slot? i = some slot →
          t.store.range slot 8 = σ.store.range slot 8) ∧
        σ.store.Extends 1 (loc.Extent (16 + j * 8)) t.store := by
  intro ρ σ src loc
  have hopened : Session.Reaches Session.Allows Session.empty ρ :=
    .tail (.tail (.single ⟨.creation (.opened _ []), trivial, rfl⟩)
      ⟨.creation (.message []), trivial, rfl⟩) ⟨.query (.rootView 0), trivial, rfl⟩
  have hallows : ρ.Allows (.creation (.struct ⟨1, 0⟩ ⟨16, 3⟩)) :=
    (by decide +kernel : 1 < ρ.store.messages.size)
  have hdst : σ.Holds (.struct (.backed loc ⟨16, 3⟩ false)) := .inr (by decide +kernel)
  have hsrc : σ.Holds (.struct src) := .inr (by decide +kernel)
  have ha : loc.address % 8 = 0 := by decide
  have hclear : src.ClearOf σ.store loc ⟨16, 3⟩ := by
    rintro _ ⟨⟩ hm
    cases hm
  have hfails : Outcome.failsIn (fill (.top 64) (.backed loc ⟨16, 3⟩ false) src) ⟨σ.store, 100⟩
      (fun _ => true) = true := by decide +kernel
  obtain ⟨e, t, hrun, -⟩ := Outcome.failsIn_iff.mp hfails
  rcases structCopy_stops_at_slot (hopened.tail ⟨_, hallows, rfl⟩) hdst ha hsrc hclear hrun with
    ⟨-, -, hbudget⟩ | hstopped
  · exact absurd hbudget (by decide)
  · exact ⟨e, t, hrun, hstopped⟩

end SegmentedMessage
