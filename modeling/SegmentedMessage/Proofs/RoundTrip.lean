import SegmentedMessage.Proofs.Containment
import SegmentedMessage.Proofs.Sharing

namespace SegmentedMessage

open Store Copy

namespace Pointer

def Unshaped : Pointer → Prop
  | .list (.backed _ _ .composite _) => True
  | .list (.backed _ _ _ shape) => shape = .empty
  | _ => True

def Tagged (s : Store) : Pointer → Prop
  | .list (.backed loc len .composite shape) =>
    s.wordAt { loc with address := loc.address - 8 } = .ofTag len shape
  | _ => True

theorem Whole.unshaped {s : Store} {p : Pointer} (h : p.Whole s) : p.Unshaped := by
  match p, h with
  | .list (.backed _ _ elem _), h =>
    cases elem with
    | composite => trivial
    | _ => exact h
  | .null, _ | .capability _, _ | .struct _, _ | .list .absent, _ => trivial

theorem unshaped_of_absent {p : Pointer} (h : p.loc? = none) : p.Unshaped := by
  match p, h with
  | .null, _ | .capability _, _ | .struct _, _ | .list .absent, _ => trivial

theorem Unshaped.whole {s : Store} {p : Pointer} (h : p.Unshaped) (ht : p.Tagged s)
    (hm : p.isMember = true → p.toStruct.isSized = false) : p.Whole s := by
  match p, h, ht, hm with
  | .struct v, _, _, hm =>
    intro hv
    have hsize : (!v.shape.isEmpty) = false := hm hv
    simpa using hsize
  | .list (.backed _ _ elem _), h, ht, _ =>
    cases elem with
    | composite => exact ht
    | _ => exact h
  | .null, _, _, _ | .capability _, _, _, _ | .list .absent, _, _, _ => trivial

end Pointer

namespace Session

theorem unshaped_of_lenient {r : Except Abort Pointer} (hr : ∀ p, r = .ok p → p.Unshaped)
    {p : Pointer} (hp : lenient r = .ok p) : p.Unshaped := by
  unfold lenient at hp
  split at hp
  · cases hp
    trivial
  · exact hr p hp

theorem unshaped_of_query {q : Query} {s : Store} {p : Pointer} (hp : q.answer s = .ok p) :
    p.Unshaped := by
  have hslot (l : Location) (p : Pointer) (hp : s.pointerAt l = .ok p) : p.Unshaped :=
    ((pointerAt_whole s l).of_ok hp).1.unshaped
  have hfield (v : StructView) (i : Nat) (p : Pointer) (hp : v.pointerAt i s = .ok p) :
      p.Unshaped := ((v.pointerAt_whole i s).of_ok hp).1.unshaped
  have helement (v : ListView) (i : Nat) (p : Pointer) (hp : v.pointerAt i s = .ok p) :
      p.Unshaped := by
    unfold ListView.pointerAt at hp
    split at hp
    · exact hslot _ p hp
    · cases hp
      trivial
  cases q with
  | pointerAt slot => exact hslot slot p hp
  | root msg => exact hslot _ p hp
  | rootView msg =>
    change Pointer.struct <$> s.rootView msg = .ok p at hp
    cases hv : s.rootView msg with
    | ok v =>
      rw [hv] at hp
      cases hp
      trivial
    | error e =>
      rw [hv] at hp
      cases hp
  | field v i => exact hfield v i p hp
  | fieldOrNull v i => exact unshaped_of_lenient (hfield v i) hp
  | element v i => exact helement v i p hp
  | elementOrNull v i => exact unshaped_of_lenient (helement v i) hp
  | member v i =>
    cases hp
    trivial

theorem call_unshaped (c : Call) (s : Store) :
    Outcome c.run s (fun p _ => p.Unshaped) fun _ _ => True := by
  cases c with
  | query q => exact outcome_query (fun _ hp => unshaped_of_query hp) fun _ _ => trivial
  | reading r => exact (Outcome.any _ s).bind fun _ _ _ => Outcome.pure trivial
  | edit e => exact (Outcome.any _ s).bind fun _ _ _ => Outcome.pure trivial
  | creation c =>
    cases c with
    | message opts => exact (Outcome.any _ s).bind fun _ _ _ => Outcome.pure trivial
    | opened bufs opts => exact (Outcome.any _ s).bind fun _ _ _ => Outcome.pure trivial
    | bytes r n => exact (Outcome.any _ s).bind fun _ _ _ => Outcome.pure trivial
    | bytesHere r n => exact (Outcome.any _ s).bind fun _ _ _ => Outcome.pure trivial
    | struct r shape => exact (Outcome.any _ s).fmap
    | root r shape => exact (Outcome.any _ s).fmap
    | list r elem len =>
      refine Outcome.fmap ((ListView.outcome_allocate r elem len s).mono ?_ fun _ _ _ => trivial)
      rintro _ _ ⟨l, rfl, hne, _, _⟩
      cases elem with
      | composite => exact absurd rfl hne
      | _ => rfl
    | composite r shape len =>
      refine Outcome.fmap ((ListView.outcome_allocateComposite r shape len s).mono ?_
        fun _ _ _ => trivial)
      rintro _ _ ⟨_, _, rfl, _⟩
      trivial

theorem Reaches.unshaped {σ : Session} (h : Reaches Allows Session.empty σ) {p : Pointer}
    (hp : p ∈ σ.views) : p.Unshaped := by
  induction h with
  | refl => cases hp
  | @tail σ _ _ hstep ih =>
    obtain ⟨c, _, rfl⟩ := hstep
    have hcall := call_unshaped c σ.store
    unfold after at hp
    split at hp
    · rename_i hr
      rcases List.mem_cons.mp hp with rfl | hp
      · exact hcall.of_ok hr
      · exact ih hp
    · exact ih hp

end Session

/-- A pointer of the message of the slot is linked to, for a landing pad of two words at most, and
decodes as it was. A member of a list is copied, charged as one struct, and its slots are as they were
wherever the slot that is written does not lie in a tag that they need. -/
theorem pointer_round_trip {σ : Session} (h : Session.Reaches Session.Allows Session.empty σ)
    {p : Pointer} (hp : σ.Holds p) {slot : Location} (hc : σ.store.covers slot 8 = true)
    (ha : slot.address % 8 = 0) (hm : p.In slot.segment.message) (haligned : p.Aligned)
    (htag : p.Tagged σ.store) (hown : ∀ l, slot.Extent 8 l → ¬ p.Tag l) (c : CopyScope)
    (budget : Nat) :
    ((p.isMember = true → p.toStruct.isSized = false) →
      (∀ t, pointTo c slot p ⟨σ.store, budget⟩ = .ok () t →
        t.budget = budget ∧
        (∀ m, t.store.total m ≤ σ.store.total m + 16) ∧
        σ.store.Extends slot.segment.message (slot.Extent 8) t.store ∧
        (t.store.Numbered slot.segment.message → t.store.pointerAt slot = .ok (p.shownAt slot))) ∧
      ∀ e t, pointTo c slot p ⟨σ.store, budget⟩ = .error e t →
        t = ⟨σ.store, budget⟩ ∧ σ.store.Refused slot.segment.message e) ∧
    ∀ loc shape, p = .struct (.backed loc shape true) → shape.isEmpty = false →
      ∀ t, pointTo c slot p ⟨σ.store, budget⟩ = .ok () t →
        budget = t.budget + max (shape.bytes / 8) 1 ∧
        σ.store.Extends slot.segment.message (slot.Extent 8) t.store ∧
        (t.store.Numbered slot.segment.message →
          ∃ target, Extracted σ.store t.store slot loc target shape true) := by
  have hs : σ.Safe := h.safe Session.safe_empty
  have hin := hs.holds hp
  have hatomic := pointTo_atomic c slot p ⟨σ.store, budget⟩
  have hunshaped : p.Unshaped := hp.elim Pointer.unshaped_of_absent h.unshaped
  constructor
  · intro hwhole
    have hshare : σ.store.Shareable slot p :=
      ⟨hs.valid, hc, ha, hin, hm, hunshaped.whole htag hwhole, haligned⟩
    have hrun : Shares slot p (pointTo c slot p) ⟨σ.store, budget⟩ := writeWith_shares hshare
    unfold Shares at hrun
    refine ⟨fun t ht => ?_, fun e t ht => hrun.of_error ht⟩
    obtain ⟨hshows, hbudget, htotal⟩ := hrun.of_ok ht
    exact ⟨hbudget, htotal, hatomic.of_ok ht, fun hids => hshows hids hown t.store (.refl _ _ _)⟩
  · rintro loc shape rfl hne t ht
    have hclone : Outcome (cloneStruct (follow c.limit c.levels) slot shape (.backed loc shape true))
        ⟨σ.store, budget⟩ _ _ :=
      cloneStruct_extracts (follow_atomic c.limit c.levels) (follow_sharing c.limit c.levels)
        hs.valid hc ha hin (hm loc rfl) (haligned loc rfl) hne
    have hcopy : pointTo c slot (.struct (.backed loc shape true))
        = cloneStruct (follow c.limit c.levels) slot shape (.backed loc shape true) := by
      change writeStructWith _ slot loc shape true = _
      rw [writeStructWith, if_neg (by rw [hne]; exact Bool.false_ne_true),
        if_neg fun h => nomatch h.2]
    rw [hcopy] at ht hatomic
    obtain ⟨hbudget, hextracts⟩ := hclone.of_ok ht
    exact ⟨hbudget, hatomic.of_ok ht, hextracts⟩

/-- The root has no room for a word beside it, nor has the struct in the other segment, so the root
leads there over two words in a third one. -/
theorem pointer_round_trip_threeSegments :
    let σ := (Session.empty.after (.creation (.opened
      [⟨#[0, 0, 0, 0, 0, 0, 0, 0]⟩, ⟨#[0, 0, 0, 0, 1, 0, 0, 0, 1, 2, 3, 4, 5, 6, 7, 8]⟩] []))).after
      (.query (.pointerAt ⟨⟨0, 1⟩, 0⟩))
    let p := Pointer.struct (.backed ⟨⟨0, 1⟩, 8⟩ ⟨8, 0⟩ false)
    p ∈ σ.views ∧ ∃ t, pointTo (.top 0) (rootSlot 0) p ⟨σ.store, 0⟩ = .ok () t ∧
      t.store.count 0 = 3 ∧ t.store.total 0 ≤ σ.store.total 0 + 16 ∧
      t.store.pointerAt (rootSlot 0) = .ok p := by
  intro σ p
  have hreach : Session.Reaches Session.Allows Session.empty σ :=
    .tail (.single ⟨.creation (.opened _ []), trivial, rfl⟩)
      ⟨.query (.pointerAt ⟨⟨0, 1⟩, 0⟩), trivial, rfl⟩
  have hp : p ∈ σ.views := by decide
  have hwell : Outcome.endsIn (pointTo (.top 0) (rootSlot 0) p) ⟨σ.store, 0⟩
      (fun t => decide (t.store.Numbered 0) && decide (t.store.count 0 = 3)) = true := by
    decide +kernel
  obtain ⟨_, t, hrun, hids⟩ := Outcome.endsIn_iff.mp hwell
  obtain ⟨hids, hcount⟩ := Bool.and_eq_true_iff.mp hids
  have hm (l : Location) (hl : p.loc? = some l) : l.segment.message = 0 := by
    cases hl
    rfl
  have haligned (l : Location) (hl : p.loc? = some l) : l.address % 8 = 0 := by
    cases hl
    rfl
  obtain ⟨hok, _⟩ := (@pointer_round_trip σ hreach p (.inr hp) (rootSlot 0) (by decide) (by decide)
    hm haligned trivial (fun _ _ h => h) (.top 0) 0).1 (by rintro ⟨⟩)
  obtain ⟨_, htotal, _, hshown⟩ := hok t hrun
  exact ⟨hp, t, hrun, of_decide_eq_true hcount, htotal 0, hshown (of_decide_eq_true hids)⟩

end SegmentedMessage
