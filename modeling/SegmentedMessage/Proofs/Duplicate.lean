import SegmentedMessage.Proofs.Faithful

namespace SegmentedMessage

open Store Copy Observation

namespace Copy

variable {m k : Nat} {s₀ : Store} {deeper : Writer}

theorem fillMember_copied (hw : Atomic deeper) (hf : Faithful s₀ m (k + 1) deeper)
    {loc loc' : Location} {len i : Nat} {shape : StructShape} {st : CopyState} (hi : i < len)
    (hk : Keeps m s₀ st.store) (hm : loc.segment.message = m)
    (hc : st.store.covers (loc.shift (i * shape.bytes)) shape.bytes = true)
    (ha : loc.address % 8 = 0) (hs : (ListView.backed loc' len .composite shape).Inside st.store)
    (hne : loc'.segment.message ≠ m) :
    Outcome (fillWith deeper ((ListView.backed loc len .composite shape).member i)
      ((ListView.backed loc' len .composite shape).member i)) st
      (fun _ t => Copied m ((loc.shift (i * shape.bytes)).Extent shape.bytes)
        (st.store.Outside (loc.shift (i * shape.bytes)) shape.bytes) st.store t.store
        (ofStruct (k + 1) ((ListView.backed loc len .composite shape).member i))
        (s₀.structTree (s₀.tree? (k + 1)) ((ListView.backed loc' len .composite shape).member i)))
      fun _ _ => True := by
  have hr : shape.Regular := hs.1
  have haligned : (loc.shift (i * shape.bytes)).address % 8 = 0 :=
    Location.shift_mod ha (hr.mul_bytes_mod i)
  have hmember := hs.member i
  rw [member_eq hi] at hmember
  rw [member_eq hi, member_eq hi]
  exact fillWith_copied hw hf hk hm hc haligned hmember hne

theorem fillMembers_copied (hw : Atomic deeper) (hf : Faithful s₀ m (k + 1) deeper)
    {loc loc' : Location} {len i n : Nat} {shape : StructShape} {st : CopyState}
    (hk : Keeps m s₀ st.store) (hm : loc.segment.message = m) (hin : i + n ≤ len)
    (hc : st.store.covers (loc.shift (i * shape.bytes)) (n * shape.bytes) = true)
    (ha : loc.address % 8 = 0) (hs : (ListView.backed loc' len .composite shape).Inside st.store)
    (hne : loc'.segment.message ≠ m) :
    Outcome (fillMembers deeper (.backed loc len .composite shape)
      (.backed loc' len .composite shape) i n) st
      (fun _ t => Copied m ((loc.shift (i * shape.bytes)).Extent (n * shape.bytes))
        (st.store.Outside (loc.shift (i * shape.bytes)) (n * shape.bytes)) st.store t.store
        (gathered (fun i => ofStruct (k + 1)
          ((ListView.backed loc len .composite shape).member i)) i n)
        (gather (fun i => s₀.structTree (s₀.tree? (k + 1))
          ((ListView.backed loc' len .composite shape).member i)) i n))
      fun _ _ => True := by
  subst hm
  induction n generalizing i st with
  | zero => exact Outcome.pure fun _ => ⟨[], rfl, .nil _ _⟩
  | succ n ih =>
      have hi : i < len := by omega
      have hnext : (i + 1) * shape.bytes = i * shape.bytes + shape.bytes := Nat.succ_mul _ _
      have hall : (n + 1) * shape.bytes = n * shape.bytes + shape.bytes := Nat.succ_mul _ _
      have hone : st.store.covers (loc.shift (i * shape.bytes)) shape.bytes = true :=
        covers_take hc (by omega)
      have hrest : st.store.covers (loc.shift ((i + 1) * shape.bytes)) (n * shape.bytes) = true :=
        covers_within hc (by omega)
      have hfill := (fillMember_copied hw hf hi hk rfl hone ha hs hne).and
        (fillMember_confined hw loc len shape i _ st)
      unfold fillMembers
      refine Outcome.bind_of hfill (fun _ _ _ => trivial) ?_
      rintro _ t₁ ⟨h₁, he₁⟩
      have hmembers := (ih (by omega) (he₁.covers hrest) (hs.mono he₁) (hk.later he₁)).and
        (fillMembers_confined hw loc len shape (.backed loc' len .composite shape) (i + 1) n t₁)
      refine hmembers.mono ?_ fun _ _ _ => trivial
      rintro _ t ⟨h₂, he₂⟩
      refine h₁.row h₂ hc he₁ he₂ (fun l hl => ⟨hl.mono ?_, hl⟩) fun l hl => ⟨hl.within ?_ ?_, hl⟩
      · omega
      · omega
      · omega

theorem cloneElement_copied (hf : Faithful s₀ m (k + 1) deeper) {slot : Location} {p : Pointer}
    {st : CopyState} (hr : Ready m s₀ st.store slot p) (hnull : p.isBacked = false → p = .null)
    (hword : st.store.wordAt slot = .null) :
    Outcome (cloneElement deeper (some slot) p) st
      (fun _ t => Copied m untouched (st.store.Outside slot 8) st.store t.store
        (ofSlot (k + 1) slot) (s₀.tree? (k + 1) p)) fun _ _ => True := by
  change Outcome (if p.isBacked then deeper slot p else pure ()) st _ _
  split
  · exact hf slot p st hr
  · rename_i hb
    obtain rfl := hnull (by simpa using hb)
    refine Outcome.pure fun _ => ⟨.null, by simp only [tree?, treeWith], ?_⟩
    refine (Settled.null k).of_pointer fun u hu => ?_
    refine pointerAt_null (hu.covers hr.message hr.covers) ?_
    rw [hu.wordAt_eq hr.message hr.covers fun _ hl hfree => hfree.2 hl, hword]

theorem cloneElements_copied (hw : Atomic deeper) (hf : Faithful s₀ m (k + 1) deeper)
    {loc : Location} {src : ListView} {len i n : Nat} {st : CopyState}
    (hk : Keeps m s₀ st.store) (hm : loc.segment.message = m) (hin : i + n ≤ len)
    (hc : st.store.covers (loc.shift (i * 8)) (n * 8) = true) (ha : loc.address % 8 = 0)
    (hzero : ∀ j, i ≤ j → j < i + n → st.store.wordAt (loc.shift (j * 8)) = .null)
    (hsrc : ∀ l, src.loc? = some l → l.segment.message ≠ m) :
    Outcome (cloneElements deeper (.backed loc len .pointer .empty) src i n) st
      (fun _ t => Copied m untouched (st.store.Outside (loc.shift (i * 8)) (n * 8)) st.store t.store
        (gathered (fun i => ofSlot (k + 1) (loc.shift (i * 8))) i n)
        (gather (fun i => slotTree (s₀.tree? (k + 1)) (src.pointerAt i s₀)) i n))
      fun _ _ => True := by
  subst hm
  induction n generalizing i st with
  | zero => exact Outcome.pure fun _ => ⟨[], rfl, .nil _ _⟩
  | succ n ih =>
      have hi : i < len := by omega
      have hslot : st.store.covers (loc.shift (i * 8)) 8 = true := covers_take hc (by omega)
      have hrest : st.store.covers (loc.shift ((i + 1) * 8)) (n * 8) = true :=
        covers_within hc (by omega)
      have hread := src.pointerAt_answers i st.store
      unfold cloneElements
      refine Outcome.bind_of (outcome_onQuery (src.pointerAt i) st) (fun _ _ _ => trivial) ?_
      rintro p st' ⟨rfl, hp⟩
      obtain ⟨hinside, _, hnull, _⟩ := hread.of_ok hp
      have hready : Ready loc.segment.message s₀ st'.store (loc.shift (i * 8)) p := by
        have hmod := Location.shift_mod ha (Nat.mul_mod_left i 8)
        exact ⟨hk, rfl, hslot, hmod, hinside, ListView.pointerAt_foreign hsrc hp⟩
      have hone := cloneElement_confined hw loc len .empty i p st'
      rw [slot_eq hi] at hone ⊢
      have hcopied := cloneElement_copied hf hready hnull (hzero i (Nat.le_refl i) (by omega))
      have hsource : s₀.tree? (k + 1) p = slotTree (s₀.tree? (k + 1)) (src.pointerAt i s₀) := by
        rw [← hk.listPointer hsrc, hp, slotTree]
      rw [hsource] at hcopied
      refine Outcome.bind_of (hcopied.and hone) (fun _ _ _ => trivial) ?_
      rintro _ t₁ ⟨h₁, he₁⟩
      have hzero₁ (j : Nat) (hlo : i + 1 ≤ j) (hhi : j < i + 1 + n) :
          t₁.store.wordAt (loc.shift (j * 8)) = .null := by
        have hword : st'.store.covers (loc.shift (j * 8)) 8 = true :=
          covers_within hrest (by omega)
        rw [he₁.wordAt_eq hword fun l hl => hl.apart (by omega)]
        exact hzero j (by omega) (by omega)
      have hall := (ih (by omega) (he₁.covers hrest) hzero₁ (hk.later he₁)).and
        (cloneElements_confined hw loc len .empty src (i + 1) n t₁)
      refine hall.mono ?_ fun _ _ _ => trivial
      rintro _ t ⟨h₂, he₂⟩
      exact h₁.row h₂ hc he₁ he₂ (fun _ h => h.elim) fun _ h => h.elim

theorem link_copied {s : Store} {st : CopyState} {slot target : Location} {w : PointerWord}
    {p : Pointer} {source : Option Tree} (hv : s.Valid) (hm : slot.segment.message = m)
    (hc : s.covers slot 8 = true) (ha : slot.address % 8 = 0)
    (he : s.Extends m untouched st.store) (hp : Placed m s.Used st.store target w p)
    (hS : Copied m untouched s.Used s st.store (ofPointer k p) source) :
    Outcome (onStore (link slot target w)) st
      (fun _ t => Copied m untouched (s.Outside slot 8) s t.store (ofSlot k slot) source)
      fun _ _ => True := by
  subst hm
  have hlinkable : Linkable st.store slot target w :=
    ⟨he.valid hv, he.covers hc, ha, hp.message, hp.segment, hp.aligned, hp.direct⟩
  have hlink := (link_leads hlinkable).and (link_writesOnly w hp.message st.store)
  refine (outcome_onStore hlink).mono ?_ fun _ _ _ => trivial
  rintro _ t ⟨⟨hleads, hwrites⟩, _⟩ hids
  obtain ⟨T, hT, hS⟩ := hS (hids.before hwrites)
  have hgrow : st.store.Grows slot.segment.message s.Used t.store :=
    hwrites.grows.weaken fun l _ _ hl => used_of_extent hc hl
  have hsettled : Settled slot.segment.message untouched (s.Outside slot 8) s t.store
      (ofPointer k p) T := (hS.later hgrow).narrow fun l _ _ hl => hl.1
  refine ⟨T, hT, hsettled.of_pointer fun u hu => ?_⟩
  refine hp.shown u slot (hgrow.trans (hu.weaken fun l _ _ hl => hl.1)) ?_
  exact hleads hids u (hu.weaken fun l _ _ hl => ⟨he.used hl.1, hl.2⟩)

theorem cloneStruct_copied (hw : Atomic deeper) (hf : Faithful s₀ m (k + 1) deeper)
    {slot loc : Location} {shape : StructShape} {member : Bool} {st : CopyState}
    (hr : Ready m s₀ st.store slot (.struct (.backed loc shape member)))
    (hne : shape.isEmpty = false) :
    Outcome (cloneStruct deeper slot shape (.backed loc shape member)) st
      (fun _ t => Copied m untouched (st.store.Outside slot 8) st.store t.store
        (ofSlot (k + 2) slot) (s₀.tree? (k + 2) (.struct (.backed loc shape member))))
      fun _ _ => True := by
  obtain ⟨hk, hm, hc, ha, hin, hforeign⟩ := hr
  have hv := hk.valid
  subst hm
  unfold cloneStruct
  refine Outcome.bind_of (outcome_onStore (outcome_allocate slot.segment shape.bytes st.store))
    (fun _ _ _ => trivial) ?_
  rintro target t₁ ⟨ht, _⟩
  have hcov := ht.covers (lt_size_of_covers hc)
  have hfill : Outcome (fillWith deeper (.backed target shape false) (.backed loc shape member))
      t₁ _ _ := fillWith_copied hw hf (hk.later ht.extends_) ht.message hcov (ht.aligned hv)
    (StructView.Inside.mono ht.extends_ hin) (hforeign loc rfl)
  have hconfined := fillWith_confined hw target shape false (.backed loc shape member) t₁
  rw [ht.message] at hconfined
  refine Outcome.bind_of (hfill.and hconfined) (fun _ _ _ => trivial) ?_
  rintro _ t₂ ⟨h₂, he₂⟩
  have he := ht.extends_.into_fresh ht.fresh he₂ fun _ h => h.onward
  have hregular : shape.Regular := hin.1
  have hplaced : Placed slot.segment.message st.store.Used t₂.store target (.ofStruct 0 shape)
      (.struct (.backed target shape false)) :=
    .struct ht.message (ht.address_aligned hv) hregular hne (he₂.covers hcov)
  refine link_copied hv rfl hc ha he hplaced fun hids => ?_
  obtain ⟨T, hT, hS⟩ := h₂ hids
  refine ⟨T, ?_, ?_⟩
  · rw [tree?, treeWith]
    exact hT
  · rw [ofPointer_struct]
    exact hS.of_fresh ht.extends_ ht.fresh

/-- `v` is a copy in new memory. No slot points to it yet. -/
def Duplicated (m k : Nat) (s t : Store) (v : ListView) (source : Option Tree) : Prop :=
  ∃ target, v.start? = some target ∧ Placed m s.Used t target v.word (.list v) ∧
    Copied m untouched s.Used s t (ofPointer k (.list v)) source

theorem cloneComposite_copied (hw : Atomic deeper) (hf : Faithful s₀ m (k + 1) deeper)
    {r : SegmentRef} {loc : Location} {len : Nat} {shape : StructShape} {st : CopyState}
    (hk : Keeps m s₀ st.store) (hm : r.message = m) (hsize : m < st.store.messages.size)
    (hin : (ListView.backed loc len .composite shape).Inside st.store)
    (hne : loc.segment.message ≠ m) :
    Outcome (cloneListWith deeper r (.backed loc len .composite shape)) st
      (fun v t => Duplicated m (k + 2) st.store t.store v
        (s₀.tree? (k + 2) (.list (.backed loc len .composite shape)))) fun _ _ => True := by
  subst hm
  have hr : shape.Regular := hin.1
  refine outcome_charged (ListView.outcome_allocateComposite r shape len st.store)
    (fun _ _ => trivial) (fun _ _ _ => trivial) ?_
  rintro v t₁ ⟨tag, u, rfl, _, hfits, ht⟩
  rw [hr.roundUp_eq] at hfits ht ⊢
  have hv := hk.valid
  have hm : tag.segment.message = r.message := ht.allocated.message
  have hcov := ht.covers hsize hr
  have hmod : (tag.shift 8).address % 8 = 0 :=
    Location.shift_mod (ht.allocated.aligned hv) (Nat.mod_self 8)
  have hrow : t₁.store.covers ((tag.shift 8).shift (0 * shape.bytes)) (len * shape.bytes) = true :=
    covers_shift (covers_shift hcov (Nat.le_refl _)) (by omega)
  have hconfined := fillMembers_confined hw (tag.shift 8) len shape
    (.backed loc len .composite shape) 0 len t₁
  rw [Location.shift_segment, hm] at hconfined
  have hfill : Outcome (fillMembers deeper (.backed (tag.shift 8) len .composite shape)
      (.backed loc len .composite shape) 0 len) t₁ _ _ :=
    fillMembers_copied hw hf (hk.later ht.extends_) hm (Nat.le_of_eq (Nat.zero_add len)) hrow hmod
      (ListView.Inside.mono ht.extends_ hin) hne
  refine Outcome.bind_of (hfill.and hconfined) (fun _ _ _ => trivial) ?_
  rintro _ t₂ ⟨h₂, he₂⟩
  have hmember (l : Location)
      (hl : ((tag.shift 8).shift (0 * shape.bytes)).Extent (len * shape.bytes) l) :
      (tag.shift 8).Extent (len * shape.bytes) l := hl.of_shift.mono (by omega)
  refine Outcome.pure ⟨tag, ListView.start_eq tag len shape, ?_, fun hids => ?_⟩
  · refine .composite hm (ht.allocated.address_aligned hv) hr (ListView.compositeFits_length hfits)
      (ListView.compositeFits_words hr hfits) (he₂.covers hcov) ?_ ?_
    · refine (he₂.wordAt_eq (covers_take hcov (by omega)) ?_).trans (ht.wordAt hsize)
      rintro l ⟨_, _, hhi⟩ hl
      obtain ⟨_, hlo, _⟩ := hmember l hl
      rw [Location.shift_address] at hlo
      omega
    · exact fun l hl => ht.allocated.fresh.not_used hl.onward
  · obtain ⟨Ts, hTs, hS⟩ := h₂ hids
    refine ⟨.composite shape len Ts, ?_, ?_⟩
    · rw [tree?, treeWith]
      exact Option.map_eq_some_iff.mpr ⟨Ts, hTs, rfl⟩
    · have hlist := Settled.composite hm hcov (fun l _ hl => he₂.used hl) hmember
        (hS.narrow fun l _ _ hl => ⟨hl.1, fun h => hl.2 (hmember l h).of_shift⟩)
      exact hlist.of_fresh ht.extends_ ht.allocated.fresh

theorem clonePointers_copied (hw : Atomic deeper) (hf : Faithful s₀ m (k + 1) deeper)
    {r : SegmentRef} {loc : Location} {len : Nat} {shape : StructShape} {st : CopyState}
    (hk : Keeps m s₀ st.store) (hm : r.message = m) (hsize : m < st.store.messages.size)
    (hne : loc.segment.message ≠ m) :
    Outcome (cloneListWith deeper r (.backed loc len .pointer shape)) st
      (fun v t => Duplicated m (k + 2) st.store t.store v
        (s₀.tree? (k + 2) (.list (.backed loc len .pointer shape)))) fun _ _ => True := by
  subst hm
  refine outcome_charged (ListView.outcome_allocate r .pointer len st.store) (fun _ _ => trivial)
    (fun _ _ _ => trivial) ?_
  rintro v t₁ ⟨l, rfl, hcomp, hlen, ht⟩
  have hv := hk.valid
  have hm : l.segment.message = r.message := ht.message
  have hcov := ht.covers hsize
  rw [ElementKind.bytesFor_pointer] at hcov
  have hrow : t₁.store.covers (l.shift (0 * 8)) (len * 8) = true :=
    covers_shift hcov (by omega)
  have hzero (j : Nat) (_ : 0 ≤ j) (hj : j < 0 + len) :
      t₁.store.wordAt (l.shift (j * 8)) = .null := by
    have honward : l.Onward (l.shift (j * 8)) := ⟨rfl, Nat.le_add_right _ _⟩
    refine ht.wordAt_null hsize honward ?_
    rw [ElementKind.bytesFor_pointer, Location.shift_address]
    omega
  have hforeign (q : Location) (hq : (ListView.backed loc len .pointer shape).loc? = some q) :
      q.segment.message ≠ r.message := by
    cases hq
    exact hne
  have hconfined := cloneElements_confined hw l len .empty (.backed loc len .pointer shape) 0 len t₁
  rw [hm] at hconfined
  have hclone := cloneElements_copied hw hf (hk.later ht.extends_) hm
    (Nat.le_of_eq (Nat.zero_add len)) hrow (ht.aligned hv) hzero hforeign
  refine Outcome.bind_of (hclone.and hconfined) (fun _ _ _ => trivial) ?_
  rintro _ t₂ ⟨h₂, he₂⟩
  have hcov₂ := he₂.covers (ht.covers hsize)
  refine Outcome.pure ⟨l, rfl, .plain hm (ht.address_aligned hv) hcomp hlen hcov₂, fun hids => ?_⟩
  obtain ⟨Ts, hTs, hS⟩ := h₂ hids
  refine ⟨.pointers len Ts, ?_, ?_⟩
  · rw [tree?, treeWith]
    exact Option.map_eq_some_iff.mpr ⟨Ts, hTs, rfl⟩
  · have hlist : Settled r.message (l.Extent (len * 8)) (t₁.store.Outside l (len * 8)) t₁.store
        t₂.store (ofPointer (k + 2) (.list (.backed l len .pointer .empty))) (.pointers len Ts) :=
      .pointers hm hcov (fun l _ hl => he₂.used hl) (hS.narrow fun q _ _ hq =>
        ⟨hq.1, fun h => hq.2 (h.of_shift.mono (by omega))⟩)
    exact hlist.of_fresh ht.extends_ ht.fresh

theorem cloneListWith_plain {elem : ElementKind} (hcomp : elem ≠ .composite) (hptr : elem ≠ .pointer)
    (r : SegmentRef) (loc : Location) (len : Nat) (shape : StructShape) :
    cloneListWith deeper r (.backed loc len elem shape) = (do
      spend (((ListView.backed loc len elem shape).contentSize + 7) / 8)
      let dst ← onStore (ListView.allocate r elem len)
      onStore (fillContent dst (.backed loc len elem shape))
      return dst) := by
  cases elem with
  | composite => exact absurd rfl hcomp
  | pointer => exact absurd rfl hptr
  | _ => rfl

theorem fillContent_range {elem : ElementKind} (hcomp : elem ≠ .composite) {l loc : Location}
    {len : Nat} {shape : StructShape} {st : CopyState}
    (hc : st.store.covers loc (elem.bytesFor len) = true) :
    Outcome (onStore (fillContent (.backed l len elem .empty) (.backed loc len elem shape))) st
      (fun _ t => t.store.range l (elem.bytesFor len) = st.store.range loc (elem.bytesFor len))
      fun _ _ => True := by
  have hsize : (ListView.backed l len elem .empty).contentSize = elem.bytesFor len :=
    ListView.contentSize_plain hcomp
  have hcopy : Outcome (onStore (copyBytes l loc (elem.bytesFor len))) st _ _ :=
    outcome_onStore (outcome_copyRange l loc _ st.store hc)
  rw [← hsize] at hcopy ⊢
  exact hcopy.mono (fun _ _ ht => ht.1) fun _ _ _ => trivial

theorem clonePlain_copied {elem : ElementKind} (hcomp : elem ≠ .composite) (hptr : elem ≠ .pointer)
    {r : SegmentRef} {loc : Location} {len : Nat} {shape : StructShape} {st : CopyState}
    (hk : Keeps m s₀ st.store) (hm : r.message = m) (hsize : m < st.store.messages.size)
    (hin : (ListView.backed loc len elem shape).Inside st.store) (hne : loc.segment.message ≠ m) :
    Outcome (cloneListWith deeper r (.backed loc len elem shape)) st
      (fun v t => Duplicated m (k + 1) st.store t.store v
        (s₀.tree? (k + 1) (.list (.backed loc len elem shape)))) fun _ _ => True := by
  subst hm
  rw [cloneListWith_plain hcomp hptr]
  refine outcome_charged (ListView.outcome_allocate r elem len st.store) (fun _ _ => trivial)
    (fun _ _ _ => trivial) ?_
  rintro v t₁ ⟨l, rfl, _, hlen, ht⟩
  have hv := hk.valid
  have hm : l.segment.message = r.message := ht.message
  have hcov := ht.covers hsize
  have hcontent (loc : Location) (shape : StructShape) :
      (ListView.backed loc len elem shape).contentSize = elem.bytesFor len :=
    ListView.contentSize_plain hcomp
  have hsource := (ListView.Inside.mono ht.extends_ hin).content rfl
  rw [hcontent] at hsource
  have hconfined := fillContent_confined l len elem .empty (.backed loc len elem shape) t₁
  rw [hm, hcontent] at hconfined
  refine Outcome.bind_of ((fillContent_range hcomp hsource).and hconfined) (fun _ _ _ => trivial) ?_
  rintro _ t₂ ⟨hrange, he₂⟩
  have hcov₂ := he₂.covers hcov
  refine Outcome.pure ⟨l, ListView.start_plain hcomp l len .empty, ?_, fun _ => ?_⟩
  · rw [ListView.word_plain hcomp]
    exact .plain hm (ht.address_aligned hv) hcomp hlen hcov₂
  refine ⟨.plain elem len (s₀.range loc (elem.bytesFor len)), ?_, ?_⟩
  · exact listTree_plain s₀ _ hcomp hptr loc len shape
  · have hkeep := (hk.later ht.extends_).range_eq hne (elem.bytesFor len)
    have hlist : Settled r.message (l.Extent (elem.bytesFor len))
        (t₁.store.Outside l (elem.bytesFor len)) t₁.store t₂.store
        (ofPointer (k + 1) (.list (.backed l len elem .empty)))
        (.plain elem len (s₀.range loc (elem.bytesFor len))) :=
      .plain hcomp hptr hm hcov hcov₂ (fun l _ hl => he₂.used hl) (hrange.trans hkeep)
    exact hlist.of_fresh ht.extends_ ht.fresh

theorem cloneListWith_copied (hw : Atomic deeper) (hf : Faithful s₀ m (k + 1) deeper)
    {r : SegmentRef} {loc : Location} {len : Nat} {elem : ElementKind} {shape : StructShape}
    {st : CopyState} (hk : Keeps m s₀ st.store) (hm : r.message = m)
    (hsize : m < st.store.messages.size)
    (hin : (ListView.backed loc len elem shape).Inside st.store) (hne : loc.segment.message ≠ m) :
    Outcome (cloneListWith deeper r (.backed loc len elem shape)) st
      (fun v t => Duplicated m (k + 2) st.store t.store v
        (s₀.tree? (k + 2) (.list (.backed loc len elem shape)))) fun _ _ => True := by
  by_cases hcomp : elem = .composite
  · subst hcomp
    exact cloneComposite_copied hw hf hk hm hsize hin hne
  · by_cases hptr : elem = .pointer
    · subst hptr
      exact clonePointers_copied hw hf hk hm hsize hne
    · exact clonePlain_copied hcomp hptr hk hm hsize hin hne

theorem cloneList_copied (hw : Atomic deeper) (hf : Faithful s₀ m (k + 1) deeper)
    {slot loc : Location} {len : Nat} {elem : ElementKind} {shape : StructShape} {st : CopyState}
    (hr : Ready m s₀ st.store slot (.list (.backed loc len elem shape))) :
    Outcome (cloneList deeper slot (.backed loc len elem shape)) st
      (fun _ t => Copied m untouched (st.store.Outside slot 8) st.store t.store
        (ofSlot (k + 2) slot) (s₀.tree? (k + 2) (.list (.backed loc len elem shape))))
      fun _ _ => True := by
  obtain ⟨hk, hm, hc, ha, hin, hforeign⟩ := hr
  have hsize : m < st.store.messages.size := by
    rw [← hm]
    exact lt_size_of_covers hc
  have hclone := (cloneListWith_copied hw hf hk hm hsize hin (hforeign loc rfl)).and
    (cloneListWith_atomic hw slot.segment (.backed loc len elem shape) st)
  rw [hm] at hclone
  unfold cloneList
  refine Outcome.bind_of hclone (fun _ _ _ => trivial) ?_
  rintro v t ⟨⟨target, hstart, hplaced, hcopied⟩, hnew, _⟩
  rw [hm] at hnew
  unfold linkList
  rw [hstart]
  simp only
  split
  · exact link_copied hk.valid hm hc ha hnew hplaced hcopied
  · exact Outcome.throw trivial

end Copy

end SegmentedMessage
