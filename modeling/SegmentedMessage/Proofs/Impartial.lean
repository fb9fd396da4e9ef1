import SegmentedMessage.Proofs.Agreement
import SegmentedMessage.Proofs.Fill
import SegmentedMessage.Proofs.Price

namespace SegmentedMessage

open Store Copy

namespace Store

/-- The tree of a pointer down to a number of levels; what lies deeper counts as null. -/
def unfolding (s : Store) : Nat → Pointer → Option Tree
  | 0, _ => some .null
  | k + 1, p => s.treeWith (s.unfolding k) p

/-- What a pointer is whose tree begins in a given way. -/
def Begins (s : Store) (f : Pointer → Option Tree) (p : Pointer) : Tree → Prop
  | .null => p.isBacked = false
  | .capability i => p = .capability i
  | .struct shape data Ts => ∃ loc member, p = .struct (.backed loc shape member) ∧
      s.range loc shape.data = data ∧
      gather (fun j => slotTree f ((StructView.backed loc shape member).pointerAt j s)) 0
        shape.slots.toNat = some Ts
  | .plain elem len content => ∃ loc shape, p = .list (.backed loc len elem shape) ∧
      elem ≠ .composite ∧ elem ≠ .pointer ∧ s.range loc (elem.bytesFor len) = content
  | .pointers len Ts => ∃ loc shape, p = .list (.backed loc len .pointer shape) ∧
      gather (fun i => slotTree f ((ListView.backed loc len .pointer shape).pointerAt i s)) 0 len
        = some Ts
  | .composite shape len Ts => ∃ loc, p = .list (.backed loc len .composite shape) ∧
      gather (fun i => s.structTree f ((ListView.backed loc len .composite shape).member i)) 0 len
        = some Ts

theorem treeWith_begins {s : Store} {f : Pointer → Option Tree} {p : Pointer} {T : Tree}
    (h : s.treeWith f p = some T) : s.Begins f p T := by
  cases p with
  | null =>
      cases h
      rfl
  | capability i =>
      cases h
      rfl
  | struct v =>
      cases v with
      | absent =>
          cases h
          rfl
      | backed loc shape member =>
          obtain ⟨Ts, hTs, rfl⟩ := Option.map_eq_some_iff.mp h
          exact ⟨loc, member, rfl, rfl, hTs⟩
  | list v =>
      cases v with
      | absent =>
          cases h
          rfl
      | backed loc len elem shape =>
          by_cases hcomp : elem = .composite
          · subst hcomp
            obtain ⟨Ts, hTs, rfl⟩ := Option.map_eq_some_iff.mp h
            exact ⟨loc, rfl, hTs⟩
          · by_cases hptr : elem = .pointer
            · subst hptr
              obtain ⟨Ts, hTs, rfl⟩ := Option.map_eq_some_iff.mp h
              exact ⟨loc, shape, rfl, hTs⟩
            · rw [treeWith, listTree_plain s f hcomp hptr] at h
              cases h
              exact ⟨loc, shape, rfl, hcomp, hptr, rfl⟩

end Store

structure Source (m : Nat) (s : Store) (p : Pointer) : Prop where
  inside : p.Inside s
  foreign : ∀ l, p.loc? = some l → l.segment.message ≠ m

namespace Source

variable {m i : Nat} {s : Store} {p : Pointer}

theorem elsewhere {loc slot : Location} (h : Source m s p) (hp : p.loc? = some loc)
    (hm : slot.segment.message = m) : loc.segment.message ≠ slot.segment.message :=
  fun hs => h.foreign loc hp (hs.trans hm)

theorem slot {v : StructView} (h : Source m s (.struct v)) (hp : v.pointerAt i s = .ok p) :
    Source m s p :=
  ⟨((v.pointerAt_answers i s).of_ok hp).1, StructView.pointerAt_foreign h.foreign hp⟩

theorem element {v : ListView} (h : Source m s (.list v)) (hp : v.pointerAt i s = .ok p) :
    Source m s p :=
  ⟨((v.pointerAt_answers i s).of_ok hp).1, ListView.pointerAt_foreign h.foreign hp⟩

theorem member {v : ListView} (h : Source m s (.list v)) (i : Nat) :
    Source m s (.struct (v.member i)) := by
  refine ⟨ListView.Inside.member h.inside i, fun l hl => ?_⟩
  obtain ⟨loc, hloc, hseg⟩ := v.member_segment hl
  rw [hseg]
  exact h.foreign loc hloc

end Source

inductive SlotsAlike (R : Pointer → Pointer → Prop) :
    Except Abort Pointer → Except Abort Pointer → Prop where
  | ok {p p' : Pointer} (h : R p p') : SlotsAlike R (.ok p) (.ok p')
  | error (e : Abort) : SlotsAlike R (.error e) (.error e)

inductive StructsAlike (s s' : Store) (R : Pointer → Pointer → Prop) (data slots : Nat) :
    StructView → StructView → Prop where
  | absent : StructsAlike s s' R data slots .absent .absent
  | backed {loc loc' : Location} {shape : StructShape} {member member' : Bool}
      (hdata : s'.range loc' (min data shape.data) = s.range loc (min data shape.data))
      (hslots : ∀ j, j < min slots shape.slots.toNat →
        SlotsAlike R ((StructView.backed loc shape member).pointerAt j s)
          ((StructView.backed loc' shape member').pointerAt j s')) :
      StructsAlike s s' R data slots (.backed loc shape member) (.backed loc' shape member')

inductive ListsAlike (s s' : Store) (R : Pointer → Pointer → Prop) :
    ListView → ListView → Prop where
  | plain {loc loc' : Location} {len : Nat} {elem : ElementKind} {shape shape' : StructShape}
      (hcomp : elem ≠ .composite) (hptr : elem ≠ .pointer)
      (hcontent : s'.range loc' (elem.bytesFor len) = s.range loc (elem.bytesFor len)) :
      ListsAlike s s' R (.backed loc len elem shape) (.backed loc' len elem shape')
  | pointers {loc loc' : Location} {len : Nat} {shape shape' : StructShape}
      (hslots : ∀ i, i < len →
        SlotsAlike R ((ListView.backed loc len .pointer shape).pointerAt i s)
          ((ListView.backed loc' len .pointer shape').pointerAt i s')) :
      ListsAlike s s' R (.backed loc len .pointer shape) (.backed loc' len .pointer shape')
  | composite {loc loc' : Location} {len : Nat} {shape : StructShape}
      (hmembers : ∀ i, i < len → ∀ data slots, StructsAlike s s' R data slots
        ((ListView.backed loc len .composite shape).member i)
        ((ListView.backed loc' len .composite shape).member i)) :
      ListsAlike s s' R (.backed loc len .composite shape) (.backed loc' len .composite shape)

inductive PointersAlike (s s' : Store) (R : Pointer → Pointer → Prop) : Pointer → Pointer → Prop where
  | absent {p p' : Pointer} (h : p.isBacked = false) (h' : p'.isBacked = false) :
      PointersAlike s s' R p p'
  | capability (i : UInt32) : PointersAlike s s' R (.capability i) (.capability i)
  | struct {loc loc' : Location} {shape : StructShape} {member member' : Bool}
      (h : ∀ data slots, StructsAlike s s' R data slots (.backed loc shape member)
        (.backed loc' shape member')) :
      PointersAlike s s' R (.struct (.backed loc shape member)) (.struct (.backed loc' shape member'))
  | list {v v' : ListView} (h : ListsAlike s s' R v v') : PointersAlike s s' R (.list v) (.list v')

/-- What is read behind the pointers is the same down to a number of levels, errors included. -/
def Store.ReadsAlike (s s' : Store) : Nat → Pointer → Pointer → Prop
  | 0 => fun _ _ => True
  | k + 1 => PointersAlike s s' (s.ReadsAlike s' k)

section Trees

variable {s s' : Store} {k : Nat} {f f' : Pointer → Option Tree} {R : Pointer → Pointer → Prop}

theorem SlotsAlike.of_trees (hR : ∀ p p' T, f p = some T → f' p' = some T → R p p')
    {r r' : Except Abort Pointer} {T : Tree} (hT : slotTree f r = some T)
    (hT' : slotTree f' r' = some T) : SlotsAlike R r r' := by
  obtain ⟨p, rfl, hp⟩ := slotTree_eq_some.mp hT
  obtain ⟨p', rfl, hp'⟩ := slotTree_eq_some.mp hT'
  exact .ok (hR p p' T hp hp')

theorem StructsAlike.of_trees (hR : ∀ p p' T, f p = some T → f' p' = some T → R p p')
    {v v' : StructView} {T : Tree} (hT : s.structTree f v = some T)
    (hT' : s'.structTree f' v' = some T) (data slots : Nat) :
    StructsAlike s s' R data slots v v' := by
  have hv := treeWith_begins (p := .struct v) hT
  have hv' := treeWith_begins (p := .struct v') hT'
  cases T with
  | null =>
      cases v with
      | absent =>
          cases v' with
          | absent => exact .absent
          | backed => cases hv'
      | backed => cases hv
  | struct shape bytes Ts =>
      obtain ⟨loc, member, hp, hdata, hgather⟩ := hv
      obtain ⟨loc', member', hp', hdata', hgather'⟩ := hv'
      cases hp
      cases hp'
      refine .backed (range_shift_eq (i := 0) (hdata'.trans hdata.symm) (by omega)) fun j hj => ?_
      obtain ⟨U, hU, hU'⟩ := gather_agree hgather hgather' (Nat.zero_le j) (by omega)
      exact .of_trees hR hU hU'
  | capability i => cases hv
  | plain elem len content =>
      obtain ⟨_, _, hp, _⟩ := hv
      cases hp
  | pointers len Ts =>
      obtain ⟨_, _, hp, _⟩ := hv
      cases hp
  | composite shape len Ts =>
      obtain ⟨_, hp, _⟩ := hv
      cases hp

theorem PointersAlike.of_trees (hR : ∀ p p' T, f p = some T → f' p' = some T → R p p')
    {p p' : Pointer} {T : Tree} (hT : s.treeWith f p = some T) (hT' : s'.treeWith f' p' = some T) :
    PointersAlike s s' R p p' := by
  have hp := treeWith_begins hT
  have hp' := treeWith_begins hT'
  cases T with
  | null => exact .absent hp hp'
  | capability i =>
      cases hp
      cases hp'
      exact .capability i
  | struct shape data Ts =>
      obtain ⟨loc, member, rfl, _⟩ := hp
      obtain ⟨loc', member', rfl, _⟩ := hp'
      exact .struct (StructsAlike.of_trees hR hT hT')
  | plain elem len content =>
      obtain ⟨loc, shape, rfl, hcomp, hptr, hcontent⟩ := hp
      obtain ⟨loc', shape', rfl, -, -, hcontent'⟩ := hp'
      exact .list (.plain hcomp hptr (hcontent'.trans hcontent.symm))
  | pointers len Ts =>
      obtain ⟨loc, shape, rfl, hgather⟩ := hp
      obtain ⟨loc', shape', rfl, hgather'⟩ := hp'
      refine .list (.pointers fun i hi => ?_)
      obtain ⟨U, hU, hU'⟩ := gather_agree hgather hgather' (Nat.zero_le i) (by omega)
      exact .of_trees hR hU hU'
  | composite shape len Ts =>
      obtain ⟨loc, rfl, hgather⟩ := hp
      obtain ⟨loc', rfl, hgather'⟩ := hp'
      refine .list (.composite fun i hi data slots => ?_)
      obtain ⟨U, hU, hU'⟩ := gather_agree hgather hgather' (Nat.zero_le i) (by omega)
      exact .of_trees hR hU hU' data slots

theorem Store.ReadsAlike.of_unfolding {p p' : Pointer} {T : Tree} (hT : s.unfolding k p = some T)
    (hT' : s'.unfolding k p' = some T) : s.ReadsAlike s' k p p' := by
  induction k generalizing p p' T with
  | zero => trivial
  | succ k ih => exact .of_trees (fun _ _ _ => ih) hT hT'

end Trees

theorem StructsAlike.shape {s s' : Store} {R : Pointer → Pointer → Prop} {data slots : Nat}
    {v v' : StructView} (h : StructsAlike s s' R data slots v v') : v'.shape = v.shape := by
  cases h with
  | absent => rfl
  | backed => rfl

theorem StructsAlike.slots {s s' : Store} {R : Pointer → Pointer → Prop} {data slots j : Nat}
    {v v' : StructView} (h : StructsAlike s s' R data slots v v')
    (hj : j < min slots v.shape.slots.toNat) : SlotsAlike R (v.pointerAt j s) (v'.pointerAt j s') := by
  cases h with
  | absent => exact absurd (Nat.lt_min.mp hj).2 (Nat.not_lt_zero j)
  | backed _ hslots => exact hslots j hj

theorem PointersAlike.isBacked {s s' : Store} {R : Pointer → Pointer → Prop} {p p' : Pointer}
    (h : PointersAlike s s' R p p') : p'.isBacked = p.isBacked := by
  cases h with
  | absent h h' => rw [h, h']
  | capability i => rfl
  | struct h => rfl
  | list h =>
      cases h with
      | plain => rfl
      | pointers => rfl
      | composite => rfl

structure Alike (m k : Nat) (s s' : Store) (p p' : Pointer) : Prop where
  first : Source m s p
  second : Source m s' p'
  same : s.ReadsAlike s' k p p'

namespace Copy

/-- The writer does the same for sources that unfold alike, wherever they lie. -/
def Impartial (m k : Nat) (s s' : Store) (w : Writer) : Prop :=
  ∀ slot p p' x y, slot.segment.message = m → Alike m k s s' p p' →
    CopyState.Beside m s s' x y → Agrees (CopyState.Beside m s s') (w slot p x) (w slot p' y)

variable {m k : Nat} {s s' : Store} {deeper : Writer} {x y : CopyState}

theorem writeWord_agrees {slot : Location} (hm : slot.segment.message = m) (w : PointerWord)
    (hb : CopyState.Beside m s s' x y) :
    Agrees (CopyState.Beside m s s') (onStore (writeWord slot w) x)
      (onStore (writeWord slot w) y) :=
  onStore_agrees hb (Local.writeWord hm w _ _ _ _ hb.store)

theorem query_agrees {α : Type} {R : Pointer → Pointer → Prop} {f f' : Store → Except Abort Pointer}
    {g g' : Pointer → CopyM α} (h : SlotsAlike R (f x.store) (f' y.store))
    (hb : CopyState.Beside m s s' x y) (hg : ∀ p p', f x.store = .ok p → f' y.store = .ok p' →
      R p p' → Agrees (CopyState.Beside m s s') (g p x) (g' p' y)) :
    Agrees (CopyState.Beside m s s') ((onStore (query f) >>= g) x)
      ((onStore (query f') >>= g') y) := by
  simp only [Bind.bind, EStateM.bind, onStore, query]
  generalize f x.store = r at h hg
  generalize f' y.store = r' at h hg
  cases h with
  | ok h => exact hg _ _ rfl rfl h
  | error e => exact .error hb

theorem cloneSlot_agrees (hw : Impartial m (k + 1) s s' deeper) {slot : Location} {p p' : Pointer}
    (hm : slot.segment.message = m) (h : Alike m (k + 1) s s' p p')
    (hb : CopyState.Beside m s s' x y) :
    Agrees (CopyState.Beside m s s') (cloneSlot deeper slot p x) (cloneSlot deeper slot p' y) := by
  unfold cloneSlot
  rw [PointersAlike.isBacked h.same]
  split
  · exact hw slot p p' x y hm h hb
  · exact writeWord_agrees hm .null hb

theorem cloneSlots_agrees (hw : Impartial m (k + 1) s s' deeper) {slots : Location}
    {v v' : StructView} {j n : Nat} (hm : slots.segment.message = m)
    (hv : Source m s (.struct v)) (hv' : Source m s' (.struct v'))
    (hslots : ∀ i, i < j + n →
      SlotsAlike (s.ReadsAlike s' (k + 1)) (v.pointerAt i s) (v'.pointerAt i s'))
    (hb : CopyState.Beside m s s' x y) :
    Agrees (CopyState.Beside m s s') (cloneSlots deeper slots v j n x)
      (cloneSlots deeper slots v' j n y) := by
  induction n generalizing j x y with
  | zero => exact .ok hb
  | succ n ih =>
      have hread (i : Nat) : v.pointerAt i x.store = v.pointerAt i s :=
        StructView.pointerAt_elsewhere hb.store.others hv.foreign i
      have hread' (i : Nat) : v'.pointerAt i y.store = v'.pointerAt i s' :=
        StructView.pointerAt_elsewhere hb.store.others' hv'.foreign i
      have hslot := hslots j (by omega)
      rw [← hread, ← hread'] at hslot
      unfold cloneSlots
      refine query_agrees hslot hb fun p p' hp hp' hsame => ?_
      have halike : Alike m (k + 1) s s' p p' :=
        ⟨hv.slot ((hread j).symm.trans hp), hv'.slot ((hread' j).symm.trans hp'), hsame⟩
      have hshift : (slots.shift (j * 8)).segment.message = m := hm
      have hone := cloneSlot_agrees hw hshift halike hb
      exact hone.bind fun _ _ _ _ hb => ih (fun i hi => hslots i (by omega)) hb

theorem fillData_agrees {R : Pointer → Pointer → Prop} {dst : Location} {v v' : StructView}
    {space slots : Nat} {t t' : Store} (hm : dst.segment.message = m)
    (hv : Source m s (.struct v)) (hv' : Source m s' (.struct v'))
    (h : StructsAlike s s' R space slots v v') (hb : Store.Beside m s s' t t') :
    Agrees (Store.Beside m s s') (fillData dst space v t) (fillData dst space v' t') := by
  have hin : v.Inside s := hv.inside
  have hin' : v'.Inside s' := hv'.inside
  unfold fillData
  rw [h.shape]
  have hprefix : Agrees (Store.Beside m s s')
      (pastePrefix dst v.loc? (min space v.shape.data) t)
      (pastePrefix dst v'.loc? (min space v.shape.data) t') := by
    have hle := Nat.min_le_right space v.shape.data
    cases h with
    | absent => exact .ok hb
    | backed hdata _ =>
        exact copyBytes_agrees hb hm (hv.foreign _ rfl) (hv'.foreign _ rfl)
          (covers_take (hin.data rfl) hle) (covers_take (hin'.data rfl) hle) hdata
  exact hprefix.bind fun _ _ _ _ hb => Local.clear (l := dst.shift _) hm _ _ _ _ _ hb

theorem fillWith_agrees (hw : Impartial m (k + 1) s s' deeper) {loc : Location}
    {shape : StructShape} {member : Bool} {v v' : StructView} (hm : loc.segment.message = m)
    (hv : Source m s (.struct v)) (hv' : Source m s' (.struct v'))
    (h : StructsAlike s s' (s.ReadsAlike s' (k + 1)) shape.data shape.slots.toNat v v')
    (hb : CopyState.Beside m s s' x y) :
    Agrees (CopyState.Beside m s s') (fillWith deeper (.backed loc shape member) v x)
      (fillWith deeper (.backed loc shape member) v' y) := by
  simp only [fillWith, fillSlots, h.shape]
  refine (spend_agrees _ hb).bind fun _ _ _ _ hb => ?_
  have hdata := fillData_agrees hm hv hv' h hb.store
  refine (onStore_agrees hb hdata).bind fun _ _ _ _ hb => ?_
  have hshift : (loc.shift shape.data).segment.message = m := hm
  have hslots (j : Nat) (hj : j < 0 + min shape.slots.toNat v.shape.slots.toNat) :
      SlotsAlike (s.ReadsAlike s' (k + 1)) (v.pointerAt j s) (v'.pointerAt j s') :=
    h.slots (by omega)
  refine (cloneSlots_agrees hw hshift hv hv' hslots hb).bind fun _ _ _ _ hb => ?_
  exact onStore_agrees hb
    (Local.clear (l := (loc.shift shape.data).shift _) hm _ _ _ _ _ hb.store)

theorem fillMembers_agrees (hw : Impartial m (k + 1) s s' deeper) {dst v v' : ListView} {i n : Nat}
    (hm : ∀ l, dst.loc? = some l → l.segment.message = m)
    (hv : Source m s (.list v)) (hv' : Source m s' (.list v'))
    (h : ∀ j, j < i + n → ∀ data slots, StructsAlike s s' (s.ReadsAlike s' (k + 1)) data slots
      (v.member j) (v'.member j)) (hb : CopyState.Beside m s s' x y) :
    Agrees (CopyState.Beside m s s') (fillMembers deeper dst v i n x)
      (fillMembers deeper dst v' i n y) := by
  induction n generalizing i x y with
  | zero => exact .ok hb
  | succ n ih =>
      have hone : Agrees (CopyState.Beside m s s') (fillWith deeper (dst.member i) (v.member i) x)
          (fillWith deeper (dst.member i) (v'.member i) y) := by
        cases hd : dst.member i with
        | absent => exact .ok hb
        | backed l shape member =>
            obtain ⟨loc, hloc, hseg⟩ := dst.member_segment (i := i) (l := l) (by rw [hd]; rfl)
            have hl : l.segment.message = m :=
              (congrArg SegmentRef.message hseg).trans (hm loc hloc)
            exact fillWith_agrees hw hl (hv.member i) (hv'.member i) (h i (by omega) _ _) hb
      exact hone.bind fun _ _ _ _ hb => ih (fun j hj => h j (by omega)) hb

theorem cloneElement_agrees (hw : Impartial m (k + 1) s s' deeper) {slot : Option Location}
    {p p' : Pointer} (hm : ∀ l, slot = some l → l.segment.message = m)
    (h : Alike m (k + 1) s s' p p') (hb : CopyState.Beside m s s' x y) :
    Agrees (CopyState.Beside m s s') (cloneElement deeper slot p x)
      (cloneElement deeper slot p' y) := by
  cases slot with
  | none => exact .ok hb
  | some slot =>
      simp only [cloneElement, PointersAlike.isBacked h.same]
      split
      · exact hw slot p p' x y (hm slot rfl) h hb
      · exact .ok hb

theorem cloneElements_agrees (hw : Impartial m (k + 1) s s' deeper) {dst v v' : ListView}
    {i n : Nat} (hm : ∀ l, dst.loc? = some l → l.segment.message = m)
    (hv : Source m s (.list v)) (hv' : Source m s' (.list v'))
    (hslots : ∀ j, j < i + n →
      SlotsAlike (s.ReadsAlike s' (k + 1)) (v.pointerAt j s) (v'.pointerAt j s'))
    (hb : CopyState.Beside m s s' x y) :
    Agrees (CopyState.Beside m s s') (cloneElements deeper dst v i n x)
      (cloneElements deeper dst v' i n y) := by
  induction n generalizing i x y with
  | zero => exact .ok hb
  | succ n ih =>
      have hread (j : Nat) : v.pointerAt j x.store = v.pointerAt j s :=
        ListView.pointerAt_elsewhere hb.store.others hv.foreign j
      have hread' (j : Nat) : v'.pointerAt j y.store = v'.pointerAt j s' :=
        ListView.pointerAt_elsewhere hb.store.others' hv'.foreign j
      have hslot (l : Location) (hl : dst.slot? i = some l) : l.segment.message = m := by
        obtain ⟨loc, len, shape, rfl, _, rfl⟩ := ListView.slot?_eq_some.mp hl
        exact hm loc rfl
      have hfirst := hslots i (by omega)
      rw [← hread, ← hread'] at hfirst
      unfold cloneElements
      refine query_agrees hfirst hb fun p p' hp hp' hsame => ?_
      have halike : Alike m (k + 1) s s' p p' :=
        ⟨hv.element ((hread i).symm.trans hp), hv'.element ((hread' i).symm.trans hp'), hsame⟩
      have hone := cloneElement_agrees hw hslot halike hb
      exact hone.bind fun _ _ _ _ hb => ih (fun j hj => hslots j (by omega)) hb

theorem cloneComposite_agrees (hw : Impartial m (k + 1) s s' deeper) {r : SegmentRef}
    (hr : r.message = m) {loc loc' : Location} {len : Nat} {shape : StructShape}
    (hv : Source m s (.list (.backed loc len .composite shape)))
    (hv' : Source m s' (.list (.backed loc' len .composite shape)))
    (hmembers : ∀ i, i < len → ∀ data slots, StructsAlike s s' (s.ReadsAlike s' (k + 1)) data slots
      ((ListView.backed loc len .composite shape).member i)
      ((ListView.backed loc' len .composite shape).member i))
    (hb : CopyState.Beside m s s' x y) :
    Agrees (CopyState.Beside m s s') (cloneListWith deeper r (.backed loc len .composite shape) x)
      (cloneListWith deeper r (.backed loc' len .composite shape) y) := by
  refine (spend_agrees 1 hb).bind fun _ x₁ _ _ hb => ?_
  refine (onStore_agrees hb (Local.allocateComposite hr shape len _ _ _ _ hb.store)).bind
    fun dst x₂ _ hrun hb => ?_
  have hm (l : Location) (hl : dst.loc? = some l) : l.segment.message = m := by
    obtain ⟨tag, u, rfl, _, _, ht⟩ := ((outcome_onStore
      (ListView.outcome_allocateComposite r shape len x₁.store)).of_ok hrun).1
    cases hl
    exact ht.allocated.message.trans hr
  refine (fillMembers_agrees hw hm hv hv' (fun j hj => ?_) hb).bind fun _ _ _ _ hb => .ok hb
  rw [Nat.zero_add] at hj
  exact hmembers j hj

theorem newList_agrees {r : SegmentRef} (hr : r.message = m) (words : Nat) (elem : ElementKind)
    (len : Nat) {fill fill' : ListView → CopyM Unit} (hb : CopyState.Beside m s s' x y)
    (hfill : ∀ l x y, l.segment.message = m → CopyState.Beside m s s' x y →
      Agrees (CopyState.Beside m s s') (fill (.backed l len elem .empty) x)
        (fill' (.backed l len elem .empty) y)) :
    Agrees (CopyState.Beside m s s')
      ((do
        spend words
        let dst ← onStore (ListView.allocate r elem len)
        fill dst
        return dst) x)
      ((do
        spend words
        let dst ← onStore (ListView.allocate r elem len)
        fill' dst
        return dst) y) := by
  refine (spend_agrees words hb).bind fun _ x₁ _ _ hb => ?_
  refine (onStore_agrees hb (Local.allocateList hr elem len _ _ _ _ hb.store)).bind
    fun dst x₂ _ hrun hb => ?_
  obtain ⟨l, rfl, _, _, ht⟩ := ((outcome_onStore
    (ListView.outcome_allocate r elem len x₁.store)).of_ok hrun).1
  exact (hfill l _ _ (ht.message.trans hr) hb).bind fun _ _ _ _ hb => .ok hb

theorem fillContent_agrees {elem : ElementKind} (hcomp : elem ≠ .composite) {l loc loc' : Location}
    {len : Nat} {shape shape' : StructShape} (hl : l.segment.message = m)
    (hv : Source m s (.list (.backed loc len elem shape)))
    (hv' : Source m s' (.list (.backed loc' len elem shape')))
    (hcontent : s'.range loc' (elem.bytesFor len) = s.range loc (elem.bytesFor len))
    (hb : CopyState.Beside m s s' x y) :
    Agrees (CopyState.Beside m s s')
      (onStore (fillContent (.backed l len elem .empty) (.backed loc len elem shape)) x)
      (onStore (fillContent (.backed l len elem .empty) (.backed loc' len elem shape')) y) := by
  have hsize : (ListView.backed l len elem .empty).contentSize = elem.bytesFor len :=
    ListView.contentSize_plain hcomp
  refine onStore_agrees hb ?_
  simp only [fillContent, ListView.loc?, pastePrefix, hsize]
  exact copyBytes_agrees hb.store hl (hv.foreign loc rfl) (hv'.foreign loc' rfl)
    (ListView.Inside.plain hv.inside hcomp) (ListView.Inside.plain hv'.inside hcomp) hcontent

theorem cloneListWith_agrees (hw : Impartial m (k + 1) s s' deeper) {r : SegmentRef}
    (hr : r.message = m) {v v' : ListView} (hv : Source m s (.list v)) (hv' : Source m s' (.list v'))
    (h : ListsAlike s s' (s.ReadsAlike s' (k + 1)) v v') (hb : CopyState.Beside m s s' x y) :
    Agrees (CopyState.Beside m s s') (cloneListWith deeper r v x)
      (cloneListWith deeper r v' y) := by
  cases h with
  | @plain loc loc' len elem shape shape' hcomp hptr hcontent =>
      have hsize (loc : Location) (shape : StructShape) :
          (ListView.backed loc len elem shape).contentSize = elem.bytesFor len :=
        ListView.contentSize_plain hcomp
      rw [cloneListWith_plain hcomp hptr, cloneListWith_plain hcomp hptr, hsize, hsize]
      exact newList_agrees hr _ elem len hb fun l x y hl hb =>
        fillContent_agrees hcomp hl hv hv' hcontent hb
  | @pointers loc loc' len shape shape' hslots =>
      refine newList_agrees hr _ .pointer len hb fun l x y hl hb => ?_
      refine cloneElements_agrees hw ?_ hv hv' (fun j hj => ?_) hb
      · rintro _ ⟨⟩
        exact hl
      · rw [Nat.zero_add] at hj
        exact hslots j hj
  | composite hmembers => exact cloneComposite_agrees hw hr hv hv' hmembers hb

theorem link_agrees {slot target : Location} (hm : slot.segment.message = m)
    (ht : target.segment.message = m) (w : PointerWord) (hb : CopyState.Beside m s s' x y) :
    Agrees (CopyState.Beside m s s') (onStore (link slot target w) x)
      (onStore (link slot target w) y) :=
  onStore_agrees hb (Local.link hm ht w _ _ _ _ hb.store)

theorem writeStruct_agrees (hw : Impartial m (k + 1) s s' deeper) {slot loc loc' : Location}
    {shape : StructShape} {member member' : Bool} (hm : slot.segment.message = m)
    (hv : Source m s (.struct (.backed loc shape member)))
    (hv' : Source m s' (.struct (.backed loc' shape member')))
    (h : StructsAlike s s' (s.ReadsAlike s' (k + 1)) shape.data shape.slots.toNat
      (.backed loc shape member) (.backed loc' shape member')) (hb : CopyState.Beside m s s' x y) :
    Agrees (CopyState.Beside m s s') (writeStructWith deeper slot loc shape member x)
      (writeStructWith deeper slot loc' shape member' y) := by
  have hne : ¬ (loc.segment.message = slot.segment.message ∧ member = false) :=
    fun hs => hv.elsewhere rfl hm hs.1
  have hne' : ¬ (loc'.segment.message = slot.segment.message ∧ member' = false) :=
    fun hs => hv'.elsewhere rfl hm hs.1
  unfold writeStructWith
  rw [if_neg hne, if_neg hne']
  split
  · exact writeWord_agrees hm .emptyStruct hb
  · refine (onStore_agrees hb (Local.allocate hm shape.bytes _ _ _ _ hb.store)).bind
      fun target _ _ hrun hb => ?_
    have hnew := ((outcome_onStore (outcome_allocate slot.segment shape.bytes _)).of_ok hrun).1
    have ht : target.segment.message = m := hnew.message.trans hm
    exact (fillWith_agrees hw ht hv hv' h hb).bind fun _ _ _ _ hb => link_agrees hm ht _ hb

theorem writeList_agrees (ha : Atomic deeper) (hw : Impartial m (k + 1) s s' deeper)
    {slot loc loc' : Location} {len len' : Nat} {elem elem' : ElementKind}
    {shape shape' : StructShape} (hm : slot.segment.message = m)
    (hv : Source m s (.list (.backed loc len elem shape)))
    (hv' : Source m s' (.list (.backed loc' len' elem' shape')))
    (h : ListsAlike s s' (s.ReadsAlike s' (k + 1)) (.backed loc len elem shape)
      (.backed loc' len' elem' shape')) (hb : CopyState.Beside m s s' x y) :
    Agrees (CopyState.Beside m s s')
      (writeListWith deeper slot loc (.backed loc len elem shape) x)
      (writeListWith deeper slot loc' (.backed loc' len' elem' shape') y) := by
  unfold writeListWith
  rw [if_neg (hv.elsewhere rfl hm), if_neg (hv'.elsewhere rfl hm)]
  refine (cloneListWith_agrees hw hm hv hv' h hb).bind fun dst x₁ _ hrun hb => ?_
  have hnew := ((cloneListWith_atomic ha slot.segment (.backed loc len elem shape) x).of_ok hrun).2
  exact onStore_agrees hb
    (Local.linkList hm (fun l hl => (hnew l hl).trans hm) _ _ _ _ hb.store)

theorem writeWith_absent (deeper : Writer) (slot : Location) {p : Pointer}
    (h : p.isBacked = false) : writeWith deeper slot p = onStore (writeWord slot .null) := by
  cases p with
  | null => rfl
  | capability i => cases h
  | struct v =>
      cases v with
      | absent => rfl
      | backed => cases h
  | list v =>
      cases v with
      | absent => rfl
      | backed => cases h

theorem writeWith_impartial (ha : Atomic deeper) (hw : Impartial m (k + 1) s s' deeper) :
    Impartial m (k + 2) s s' (writeWith deeper) := by
  rintro slot p p' x y hm ⟨hp, hp', h⟩ hb
  cases h with
  | absent h h' =>
      rw [writeWith_absent deeper slot h, writeWith_absent deeper slot h']
      exact writeWord_agrees hm .null hb
  | capability i => exact writeWord_agrees hm (.ofCapability i) hb
  | struct h => exact writeStruct_agrees hw hm hp hp' (h _ _) hb
  | list h =>
      cases h with
      | plain hcomp hptr hcontent =>
          exact writeList_agrees ha hw hm hp hp' (.plain hcomp hptr hcontent) hb
      | pointers hslots => exact writeList_agrees ha hw hm hp hp' (.pointers hslots) hb
      | composite hmembers => exact writeList_agrees ha hw hm hp hp' (.composite hmembers) hb

theorem follow_impartial (limit levels : Nat) :
    Impartial m (levels + 1) s s' (follow limit levels) := by
  induction levels with
  -- the deepest pointers are not followed, but whether they are null is seen, one level further
  | zero => exact fun _ _ _ _ _ _ _ hb => .error hb
  | succ levels ih => exact writeWith_impartial (follow_atomic limit levels) ih

end Copy

def CopyState.SameIn (m : Nat) (x y : CopyState) : Prop :=
  y.budget = x.budget ∧ y.store.message m = x.store.message m

theorem CopyState.Beside.sameIn {m : Nat} {s s' : Store} {x y : CopyState}
    (h : CopyState.Beside m s s' x y) : CopyState.SameIn m x y :=
  ⟨h.budget, h.store.message⟩

/-- In two sessions that agree on one message, sources that lie in other messages and unfold alike
are copied into it alike, whether the copies end well or fail. -/
theorem copy_impartial {σ σ' : Session} (h : Session.Reaches Session.Allows Session.empty σ)
    (h' : Session.Reaches Session.Allows Session.empty σ') {m : Nat}
    (hsame : σ'.store.message m = σ.store.message m) {p p' : Pointer} (hp : σ.Holds p)
    (hp' : σ'.Holds p') (hne : ∀ l, p.loc? = some l → l.segment.message ≠ m)
    (hne' : ∀ l, p'.loc? = some l → l.segment.message ≠ m)
    (hu : ∀ k, ∃ T, σ.store.unfolding k p = some T ∧ σ'.store.unfolding k p' = some T)
    (c : CopyScope) (budget : Nat) :
    (∀ slot, slot.segment.message = m → σ.store.covers slot 8 = true →
      Agrees (CopyState.SameIn m) (pointTo c slot p ⟨σ.store, budget⟩)
        (pointTo c slot p' ⟨σ'.store, budget⟩)) ∧
    ∀ dst v v', p = .struct v → p' = .struct v' → σ.Holds (.struct dst) →
      (∀ l, dst.loc? = some l → l.segment.message = m) →
      Agrees (CopyState.SameIn m) (fill c dst v ⟨σ.store, budget⟩)
        (fill c dst v' ⟨σ'.store, budget⟩) := by
  have hs : σ.Safe := h.safe Session.safe_empty
  have hs' : σ'.Safe := h'.safe Session.safe_empty
  have hsource : Source m σ.store p := ⟨hs.holds hp, hne⟩
  have hsource' : Source m σ'.store p' := ⟨hs'.holds hp', hne'⟩
  obtain ⟨T, hT, hT'⟩ := hu (c.levels + 2)
  have hfollow : Impartial m (c.levels + 1) σ.store σ'.store (follow c.limit c.levels) :=
    follow_impartial c.limit c.levels
  refine ⟨fun slot hm hc => ?_, ?_⟩
  · have hwrite := writeWith_impartial (follow_atomic c.limit c.levels) hfollow
    have halike : Alike m (c.levels + 2) σ.store σ'.store p p' :=
      ⟨hsource, hsource', .of_unfolding hT hT'⟩
    exact (hwrite slot p p' _ _ hm halike (.start hsame hm hc budget)).mono fun _ _ h => h.sameIn
  · rintro dst v v' rfl rfl hdst hm
    cases dst with
    | absent => exact .ok ⟨rfl, hsame⟩
    | backed loc shape member =>
        have hin : (StructView.backed loc shape member).Inside σ.store := hs.holds hdst
        have hb := CopyState.Beside.start hsame (hm loc rfl) hin.2 budget
        have hstructs (data slots : Nat) : StructsAlike σ.store σ'.store
            (σ.store.ReadsAlike σ'.store (c.levels + 1)) data slots v v' :=
          .of_trees (fun _ _ _ => .of_unfolding) hT hT' data slots
        exact (fillWith_agrees hfollow (hm loc rfl) hsource hsource' (hstructs _ _) hb).mono
          fun _ _ h => h.sameIn

theorem Store.unfolding_link {s : Store} {loc : Location} {member : Bool} {q : Pointer} {T : Tree}
    {k : Nat} (hq : (StructView.backed loc ⟨0, 1⟩ member).pointerAt 0 s = .ok q)
    (hT : s.unfolding k q = some T) :
    s.unfolding (k + 1) (.struct (.backed loc ⟨0, 1⟩ member)) = some (.struct ⟨0, 1⟩ [] [T]) := by
  have hslots : gather (fun j => slotTree (s.unfolding k)
      ((StructView.backed loc ⟨0, 1⟩ member).pointerAt j s)) 0 1 = some [T] := by
    simp only [gather, hq, slotTree, hT]
    rfl
  exact congrArg (Option.map _) hslots

/-- A struct whose one slot points back to it. -/
def ringOfOne : ByteArray :=
  ⟨#[0xfc, 0xff, 0xff, 0xff, 0, 0, 1, 0]⟩

/-- Two structs whose slots point to each other. -/
def ringOfTwo : ByteArray :=
  ⟨#[0, 0, 0, 0, 0, 0, 1, 0, 0xf8, 0xff, 0xff, 0xff, 0, 0, 1, 0]⟩

def rings : Session :=
  ((((Session.empty.after (.creation (.opened [ringOfOne] []))).after
    (.creation (.opened [ringOfTwo] []))).after (.creation (.message []))).after
    (.query (.root 0))).after (.query (.root 1))

/-- Both rings unfold without end, to the same trees. -/
theorem copy_impartial_rings :
    let p := Pointer.struct (.backed ⟨⟨0, 0⟩, 0⟩ ⟨0, 1⟩ false)
    let q := Pointer.struct (.backed ⟨⟨1, 0⟩, 8⟩ ⟨0, 1⟩ false)
    p ∈ rings.views ∧ q ∈ rings.views ∧
      (∀ k, ∃ T, rings.store.unfolding k p = some T ∧ rings.store.unfolding k q = some T) ∧
      Agrees (CopyState.SameIn 2) (pointTo (.top 3) (rootSlot 2) p ⟨rings.store, 9⟩)
        (pointTo (.top 3) (rootSlot 2) q ⟨rings.store, 9⟩) := by
  intro p q
  have hreach : Session.Reaches Session.Allows Session.empty rings :=
    .tail (.tail (.tail (.tail (.single ⟨.creation (.opened [ringOfOne] []), trivial, rfl⟩)
      ⟨.creation (.opened [ringOfTwo] []), trivial, rfl⟩)
      ⟨.creation (.message []), trivial, rfl⟩)
      ⟨.query (.root 0), trivial, rfl⟩) ⟨.query (.root 1), trivial, rfl⟩
  have hp : p ∈ rings.views := by decide
  have hq : q ∈ rings.views := by decide
  have hloop : (StructView.backed ⟨⟨0, 0⟩, 0⟩ ⟨0, 1⟩ false).pointerAt 0 rings.store = .ok p := rfl
  have hforth : (StructView.backed ⟨⟨1, 0⟩, 0⟩ ⟨0, 1⟩ false).pointerAt 0 rings.store = .ok q := rfl
  have hback : (StructView.backed ⟨⟨1, 0⟩, 8⟩ ⟨0, 1⟩ false).pointerAt 0 rings.store
      = .ok (.struct (.backed ⟨⟨1, 0⟩, 0⟩ ⟨0, 1⟩ false)) := rfl
  -- The ring of two goes through its other struct, so that one unfolds alike as well.
  have hboth (k : Nat) : ∃ T, rings.store.unfolding k p = some T ∧
      rings.store.unfolding k q = some T ∧
      rings.store.unfolding k (.struct (.backed ⟨⟨1, 0⟩, 0⟩ ⟨0, 1⟩ false)) = some T := by
    induction k with
    | zero => exact ⟨.null, rfl, rfl, rfl⟩
    | succ k ih =>
        obtain ⟨T, hT, hTq, hTo⟩ := ih
        exact ⟨.struct ⟨0, 1⟩ [] [T], unfolding_link hloop hT, unfolding_link hback hTo,
          unfolding_link hforth hTq⟩
  have halike (k : Nat) : ∃ T, rings.store.unfolding k p = some T ∧
      rings.store.unfolding k q = some T := by
    obtain ⟨T, hT, hTq, -⟩ := hboth k
    exact ⟨T, hT, hTq⟩
  have hne (l : Location) (hl : p.loc? = some l) : l.segment.message ≠ 2 := by
    cases hl
    decide
  have hne' (l : Location) (hl : q.loc? = some l) : l.segment.message ≠ 2 := by
    cases hl
    decide
  have hcopy := copy_impartial hreach hreach rfl (.inr hp) (.inr hq) hne hne' halike (.top 3) 9
  exact ⟨hp, hq, halike, hcopy.1 (rootSlot 2) rfl (by decide)⟩

end SegmentedMessage
