import SegmentedMessage.Proofs.Containment
import SegmentedMessage.Proofs.Duplicate

namespace SegmentedMessage

open Store Copy Observation

namespace Copy

variable {m k : Nat} {s₀ : Store} {deeper : Writer}

theorem writeWith_faithful (hw : Atomic deeper) (hf : Faithful s₀ m (k + 1) deeper) :
    Faithful s₀ m (k + 2) (writeWith deeper) := by
  intro slot p st hr
  have hm := hr.message
  have hnull (hT : s₀.tree? (k + 2) p = some .null) :
      Outcome (onStore (writeWord slot .null)) st
        (fun _ t => Copied m untouched (st.store.Outside slot 8) st.store t.store
          (ofSlot (k + 2) slot) (s₀.tree? (k + 2) p)) fun _ _ => True :=
    (writeNull_copied hm).mono (fun _ _ ht _ => ⟨.null, hT, ht⟩) fun _ _ h => h
  cases p with
  | null => exact hnull (by rw [tree?, treeWith])
  | capability i =>
      refine (writeWord_copied hm (fun _ _ _ _ => .capability (k + 1) i) fun _ hc hword =>
        pointerAt_capability hc hword).mono (fun _ _ ht _ => ⟨.capability i, ?_, ht⟩) fun _ _ h => h
      rw [tree?, treeWith]
  | struct v =>
      cases v with
      | absent => exact hnull (by rw [tree?, treeWith, structTree])
      | backed loc shape member =>
          have hne : loc.segment.message ≠ m := hr.foreign loc rfl
          change Outcome (writeStructWith deeper slot loc shape member) st _ _
          unfold writeStructWith
          split
          · rename_i hempty
            obtain rfl : shape = .empty := (StructShape.isEmpty_iff shape).mp hempty
            have hlt := hr.keeps.valid.address_lt_of_covers hr.covers
            refine (writeWord_copied hm (fun _ _ _ _ => .emptyStruct (k + 1) hm false)
              fun _ hc hword => pointerAt_emptyStruct hc hlt hword).mono
              (fun _ _ ht _ => ⟨_, ?_, ht⟩) fun _ _ h => h
            have hdata : s₀.range loc StructShape.empty.data = [] := range_zero s₀ loc
            rw [tree?, treeWith, structTree, hdata]
            rfl
          · rename_i hempty
            rw [if_neg (by rw [hm]; exact fun h => hne h.1)]
            exact cloneStruct_copied hw hf hr (by simpa using hempty)
  | list v =>
      cases v with
      | absent => exact hnull (by rw [tree?, treeWith, listTree])
      | backed loc len elem shape =>
          have hne : loc.segment.message ≠ m := hr.foreign loc rfl
          change Outcome (writeListWith deeper slot loc (.backed loc len elem shape)) st _ _
          unfold writeListWith
          rw [if_neg (by rw [hm]; exact hne)]
          exact cloneList_copied hw hf hr

theorem follow_faithful (s₀ : Store) (m limit levels : Nat) :
    Faithful s₀ m (levels + 1) (follow limit levels) := by
  induction levels with
  | zero =>
      intro slot p st _
      exact Outcome.throw trivial
  | succ levels ih => exact writeWith_faithful (follow_atomic limit levels) ih

end Copy

theorem pointTo_faithful (s₀ : Store) (m : Nat) (c : CopyScope) :
    Faithful s₀ m (c.levels + 2) (pointTo c) :=
  writeWith_faithful (follow_atomic c.limit c.levels) (follow_faithful s₀ m c.limit c.levels)

/-- Whatever message a copied pointer leads to, and wherever room was found for the copy: a run that
ends well has copied a finite tree to new memory, with each place of the tree apart from the others.
Segment ids have 32 bits, so a message has no more than that many segments. -/
theorem copy_faithful {σ : Session} (h : Session.Reaches Session.Allows Session.empty σ) {p : Pointer}
    (hp : σ.Holds p) {slot : Location} (hc : σ.store.covers slot 8 = true)
    (ha : slot.address % 8 = 0)
    (hne : ∀ l, p.loc? = some l → l.segment.message ≠ slot.segment.message) {c : CopyScope}
    {budget : Nat} {t : CopyState} (hrun : pointTo c slot p ⟨σ.store, budget⟩ = .ok () t)
    (hids : t.store.Numbered slot.segment.message) :
    ∃ k T q, σ.store.tree? k p = some T ∧ t.store.pointerAt slot = .ok q ∧
      q.In slot.segment.message ∧ t.store.tree? k q = some T ∧
      (∀ r ∈ t.store.regions k q, ∀ l, r.Has l → t.store.Used l ∧ ¬ σ.store.Used l) ∧
      (t.store.regions k q).Pairwise Region.Apart ∧
      ∀ m, m ≠ slot.segment.message → t.store.message m = σ.store.message m := by
  have hs : σ.Safe := h.safe Session.safe_empty
  have hready : Ready slot.segment.message σ.store σ.store slot p :=
    ⟨.refl _ hs.valid, rfl, hc, ha, hs.holds hp, hne⟩
  have hcopied := (pointTo_faithful σ.store slot.segment.message c slot p ⟨σ.store, budget⟩
    hready).of_ok hrun
  obtain ⟨T, hT, hS⟩ := hcopied hids
  have hvalue := hS.value t.store (.refl _ _ _)
  have hwrites := (pointTo_atomic c slot p ⟨σ.store, budget⟩).of_ok hrun
  cases hq : t.store.pointerAt slot with
  | error e =>
      simp only [ofSlot, hq, slotTree] at hvalue
      cases hvalue
  | ok q =>
      have hin := ((t.store.pointerAt_answers slot).of_ok hq).message
      have hregions : (ofSlot (c.levels + 2) slot).regions t.store
          = t.store.regions (c.levels + 2) q := by
        simp only [ofSlot, hq, slotRegions]
      simp only [ofSlot, hq, slotTree] at hvalue
      refine ⟨c.levels + 2, T, q, hT, rfl, hin, hvalue, ?_, ?_, hwrites.others⟩
      · rw [← hregions]
        exact fun r hr l hl => ⟨hS.used r hr l hl, hS.fresh r hr l hl⟩
      · rw [← hregions]
        exact hS.apart

/-- Both slots of the root point to one list. -/
def twoToOne : ByteArray :=
  ⟨#[0, 0, 0, 0, 0, 0, 2, 0, 5, 0, 0, 0, 26, 0, 0, 0,
    1, 0, 0, 0, 26, 0, 0, 0, 97, 98, 99, 0, 0, 0, 0, 0]⟩

theorem copy_faithful_twoToOne :
    let σ := ((Session.empty.after (.creation (.opened [twoToOne] []))).after
      (.creation (.message []))).after (.query (.root 0))
    let p := Pointer.struct (.backed ⟨⟨0, 0⟩, 8⟩ ⟨0, 2⟩ false)
    p ∈ σ.views ∧ ∃ t, pointTo (.top 64) (rootSlot 1) p ⟨σ.store, 100⟩ = .ok () t ∧
      ∃ k T q, σ.store.tree? k p = some T ∧ t.store.pointerAt (rootSlot 1) = .ok q ∧
        q.In 1 ∧ t.store.tree? k q = some T ∧
        (∀ r ∈ t.store.regions k q, ∀ l, r.Has l → t.store.Used l ∧ ¬ σ.store.Used l) ∧
        (t.store.regions k q).Pairwise Region.Apart ∧
        ∀ m, m ≠ 1 → t.store.message m = σ.store.message m := by
  intro σ p
  have hreach : Session.Reaches Session.Allows Session.empty σ :=
    .tail (.tail (.single ⟨.creation (.opened [twoToOne] []), trivial, rfl⟩)
      ⟨.creation (.message []), trivial, rfl⟩) ⟨.query (.root 0), trivial, rfl⟩
  have hp : p ∈ σ.views := by decide
  have hne (l : Location) (hl : p.loc? = some l) : l.segment.message ≠ 1 := by
    cases hl
    decide
  have hwell : Outcome.endsIn (pointTo (.top 64) (rootSlot 1) p) ⟨σ.store, 100⟩
      (fun t => decide (t.store.Numbered 1)) = true := by decide +kernel
  obtain ⟨_, t, hrun, hids⟩ := Outcome.endsIn_iff.mp hwell
  exact ⟨hp, t, hrun, copy_faithful hreach (.inr hp) (by decide) (by decide) hne hrun
    (of_decide_eq_true hids)⟩

end SegmentedMessage
