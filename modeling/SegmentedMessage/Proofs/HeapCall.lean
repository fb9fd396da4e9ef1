import SegmentedMessage.Proofs.HeapEdit

namespace SegmentedMessage

open Store Copy Heap

/-- The message whose bytes a call works on without a view. -/
def Call.raw? : Call → Option Nat
  | query (.pointerAt slot) => some slot.segment.message
  | edit (.write l _ _) => some l.segment.message
  | edit (.writeWord l _) => some l.segment.message
  | edit (.clear l _) => some l.segment.message
  | edit (.copyBytes dst _ _) => some dst.segment.message
  | edit (.pointTo _ _ slot _) => some slot.segment.message
  | creation (.bytes r _) => some r.message
  | creation (.bytesHere r _) => some r.message
  | _ => none

theorem lenient_eq_ok {r : Except Abort Pointer} {p : Pointer} (h : lenient r = .ok p) :
    r = .ok p ∨ p = .null := by
  unfold lenient at h
  split at h
  · cases h
    exact .inr rfl
  · exact .inl h

namespace Heap

variable {H : Heap} {m : Nat} {s t : Store} {σ : Session} {p : Pointer}

theorem Known.toStruct (h : H.Known m s p) : H.Known m s (.struct p.toStruct) := by
  cases p with
  | struct v => exact h
  | _ => exact .absent rfl

theorem Known.lenient {r : Except Abort Pointer} (h : ∀ q, r = .ok q → H.Known m s q)
    (hp : lenient r = .ok p) : H.Known m s p := by
  rcases lenient_eq_ok hp with hr | rfl
  · exact h p hr
  · exact .absent rfl

theorem query_known (h : H.WellFormed m σ.store) (hk : ∀ p, σ.Holds p → H.Known m σ.store p)
    {q : Query} (hq : σ.Queries q) (hraw : (Call.query q).raw? ≠ some m)
    (ha : q.answer σ.store = .ok p) : H.Known m σ.store p := by
  have hroot (msg : Nat) (q : Pointer) (hr : σ.store.root msg = .ok q) : H.Known m σ.store q :=
    .of_slot h h.root_slot hr
  cases q with
  | pointerAt slot => exact .of_slot h (fun hm => absurd (congrArg some hm) hraw) ha
  | root msg => exact hroot msg p ha
  | rootView msg =>
      simp only [Query.answer, rootView] at ha
      cases hr : SegmentedMessage.lenient (σ.store.root msg) with
      | error e =>
          rw [hr] at ha
          cases ha
      | ok q =>
          rw [hr] at ha
          cases ha
          exact (Known.lenient (hroot msg) hr).toStruct
  | field v i => exact (hk _ hq).slot h ha
  | fieldOrNull v i => exact .lenient (fun _ hr => (hk _ hq).slot h hr) ha
  | element v i => exact (hk _ hq).element h ha
  | elementOrNull v i => exact .lenient (fun _ hr => (hk _ hq).element h hr) ha
  | member v i =>
      cases ha
      exact (hk _ hq).member i

theorem edit_survives (h : H.WellFormed m σ.store) (hk : ∀ p, σ.Holds p → H.Known m σ.store p)
    {e : Edit} (he : σ.Edits e) (hraw : (Call.edit e).raw? ≠ some m) :
    H.Survives m e.run σ.store := by
  cases e with
  | write l w v =>
      exact survives_elsewhere h (fun hm => hraw (congrArg some hm)) (write_extends l w v _)
  | writeWord l w =>
      exact survives_elsewhere h (fun hm => hraw (congrArg some hm)) (write_extends l 8 w.toNat _)
  | clear l n =>
      exact survives_elsewhere h (fun hm => hraw (congrArg some hm)) (clear_extends l n _)
  | copyBytes dst src n =>
      exact survives_elsewhere h (fun hm => hraw (congrArg some hm)) (copyBytes_extends dst src n _)
  | pointTo c budget slot p =>
      exact survives_elsewhere h (fun hm => hraw (congrArg some hm))
        (outcome_withBudget (pointTo_atomic c slot p ⟨σ.store, budget⟩))
  | sealMessage msg =>
      exact (h.congr ((retains_seal σ.store msg).valid h.valid) (arena_seal σ.store msg m)).kept
  | setField v w off val => exact survives_writeAt? h fun _ hl hm _ hx => (hk _ he).field hl hm hx
  | setFieldBit v n val => exact survives_writeBitAt? h fun _ hl hm _ hx => (hk _ he).field hl hm hx
  | setElement v w i val => exact survives_writeAt? h fun _ hl hm _ hx => (hk _ he).entry hl hm hx
  | setElementBit v i val => exact survives_writeBitAt? h fun _ hl hm _ hx => (hk _ he).bit hl hm hx
  | assignField v i p =>
      exact survives_assignAt h (hk p he.2) fun _ hl hm => (hk _ he.1).field_slot hl hm
  | assignElement v i p =>
      exact survives_assignAt h (hk p he.2) fun _ hl hm => (hk _ he.1).element_slot hl hm
  | assignRoot msg p => exact survives_assignRoot h (hk p he)
  | replace dst src =>
      cases dst with
      | absent => exact Outcome.pure h.kept
      | backed loc shape member => exact survives_fill h (hk _ he.1) (hk _ he.2)
  | fill c budget dst src => exact survives_fill h (hk _ he.1) (hk _ he.2)

theorem Survives.null {α : Type} {act : StoreM α} (h : H.Survives m act s) :
    Outcome (act >>= fun _ => pure .null) s (fun p t => H.Gives m p t) fun _ t => H.Kept m t :=
  Outcome.bind h fun _ t ht => Outcome.pure (ht.gives (.absent rfl) (.refl t))

theorem survives_addOrFail {r : Except Failure Message} (h : H.WellFormed m s)
    (hr : ∀ x, r = .ok x → x.arena.Valid) : H.Survives m (addOrFail r) s := by
  unfold Survives Outcome addOrFail
  cases hx : r with
  | error e => exact h.kept
  | ok x =>
      have harena : ((s.push x).message m).arena = (s.message m).arena := by
        rw [message_push, if_neg (Nat.ne_of_lt h.message_lt)]
      exact (h.congr ((retains_push s (hr x hx)).valid h.valid) harena).kept

section Allocate

variable {k : Nat} {own : Location → Prop} (h : H.WellFormed m s)

include h

theorem grown_elsewhere (hk : k ≠ m) (ht : s.Extends k own t) (hp : p.Inside t) (hin : p.In k) :
    H.Grown m p t :=
  ⟨[], h.elsewhere hk ht, .foreign hp fun l hl hm => hk ((hin l hl).symm.trans hm)⟩

theorem allocateStruct_grown {r : SegmentRef} (hr : r.message < s.messages.size)
    (shape : StructShape) :
    Outcome (StructView.allocate r shape) s (fun v t => H.Grown m (.struct v) t)
      fun _ t => t = s := by
  by_cases hm : r.message = m
  · refine (h.outcome_allocateStruct hm shape).mono ?_ fun _ _ he => he
    rintro _ t ⟨l, rfl, ha⟩
    exact ha.grown
  · refine (StructView.outcome_allocate r shape s).mono ?_ fun _ _ he => he.1
    rintro _ t ⟨l, rfl, henc, ht⟩
    refine grown_elsewhere h hm ht.extends_
      (ht.struct_inside hr (StructShape.regular_roundUp henc) false) fun k hk => ?_
    cases hk
    exact ht.message

theorem allocateList_grown {r : SegmentRef} (hr : r.message < s.messages.size) (elem : ElementKind)
    (len : Nat) :
    Outcome (ListView.allocate r elem len) s (fun v t => H.Grown m (.list v) t)
      fun _ t => t = s := by
  by_cases hm : r.message = m
  · refine (h.outcome_allocateList hm elem len).mono ?_ fun _ _ he => he
    rintro _ t ⟨l, rfl, ha⟩
    exact ha.grown
  · refine (ListView.outcome_allocate r elem len s).mono ?_ fun _ _ he => he.1
    rintro _ t ⟨l, rfl, hne, hlen, ht⟩
    refine grown_elsewhere h hm ht.extends_ (ht.list_inside hr hne hlen) fun k hk => ?_
    cases hk
    exact ht.message

theorem allocateComposite_grown {r : SegmentRef} (hr : r.message < s.messages.size)
    (shape : StructShape) (len : Nat) :
    Outcome (ListView.allocateComposite r shape len) s (fun v t => H.Grown m (.list v) t)
      fun _ t => t = s := by
  by_cases hm : r.message = m
  · refine (h.outcome_allocateComposite hm shape len).mono ?_ fun _ _ he => he
    rintro _ t ⟨l, rfl, ha⟩
    exact ha.grown
  · refine (ListView.outcome_allocateComposite r shape len s).mono ?_ fun _ _ he => (he.2 hr).1
    rintro _ t ⟨tag, u, rfl, henc, hfits, ht⟩
    refine grown_elsewhere h hm ht.extends_ (ht.inside hr (StructShape.regular_roundUp henc)
      (ListView.compositeFits_length hfits)) fun k hk => ?_
    cases hk
    exact ht.allocated.message

end Allocate

theorem creation_gives (h : H.WellFormed m σ.store) {c : Creation} (hc : σ.Creates c)
    (hraw : (Call.creation c).raw? ≠ some m) :
    Outcome c.run σ.store (fun p t => H.Gives m p t) fun _ t => H.Kept m t := by
  have hfailed (t : Store) (ht : t = σ.store) : H.Kept m t := by
    rw [ht]
    exact h.kept
  cases c with
  | message opts => exact (survives_addOrFail h fun _ hx => Message.create_valid hx).null
  | opened bufs opts => exact (survives_addOrFail h fun _ hx => Message.ofBuffers_valid hx).null
  | bytes r n =>
      exact (survives_elsewhere h (fun hm => hraw (congrArg some hm)) (allocate_extends r n _)).null
  | bytesHere r n =>
      exact (survives_elsewhere h (fun hm => hraw (congrArg some hm))
        (allocateHere_extends r n _)).null
  | struct r shape =>
      exact Outcome.fmap ((allocateStruct_grown h hc shape).mono (fun _ _ ht _ => ht)
        fun _ t ht => hfailed t ht)
  | root r shape =>
      refine Outcome.fmap (Outcome.bind_of (allocateStruct_grown h hc shape)
        (fun _ t ht => hfailed t ht) ?_)
      rintro v t ⟨new, hnew, hv⟩
      have hassign : Survives (new ++ H) m (assignRoot r.message (.struct v)) t :=
        survives_assignRoot hnew hv
      refine Outcome.bind_of (hassign.and (assignRoot_writesOnly r.message (.struct v) t))
        (fun _ _ hu => hu.1.further) ?_
      rintro _ u ⟨hkept, hext⟩
      exact Outcome.pure (hkept.gives hv hext.retains).further
  | list r elem len =>
      exact Outcome.fmap ((allocateList_grown h hc elem len).mono (fun _ _ ht _ => ht)
        fun _ t ht => hfailed t ht)
  | composite r shape len =>
      exact Outcome.fmap ((allocateComposite_grown h hc shape len).mono (fun _ _ ht _ => ht)
        fun _ t ht => hfailed t ht)

theorem call_gives (h : H.WellFormed m σ.store) (hk : ∀ p, σ.Holds p → H.Known m σ.store p)
    {c : Call} (hc : σ.Allows c) (hraw : c.raw? ≠ some m) :
    Outcome c.run σ.store (fun p t => H.Gives m p t) fun _ t => H.Kept m t := by
  cases c with
  | query q =>
      exact outcome_query (fun p hp _ => ⟨[], h, query_known h hk hc hraw hp⟩) fun _ _ => h.kept
  | reading r =>
      have hread : H.Survives m (query r.answer) σ.store :=
        outcome_query (fun _ _ => h.kept) fun _ _ => h.kept
      exact hread.null
  | edit e => exact (edit_survives h hk hc hraw).null
  | creation c => exact creation_gives h hc hraw

end Heap

end SegmentedMessage
