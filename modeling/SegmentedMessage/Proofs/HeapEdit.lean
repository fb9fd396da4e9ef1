import SegmentedMessage.Proofs.Containment
import SegmentedMessage.Proofs.HeapAssign

namespace SegmentedMessage

open Store Copy

namespace Heap

variable {H : Heap} {m : Nat} {s t : Store}

theorem WellFormed.congr (h : H.WellFormed m s) (hv : t.Valid)
    (ht : (t.message m).arena = (s.message m).arena) : H.WellFormed m t := by
  have hgrows (free : Location → Prop) : s.Grows m free t := by
    rw [Grows, ht]
    exact .refl _ _
  have hback : t.Grows m untouched s := by
    rw [Grows, ht]
    exact .refl _ _
  refine ⟨hv, h.apart, ?_, ?_, h.root, ?_⟩
  · intro l hl
    rw [← h.used l hl]
    exact ⟨hback.used hl, (hgrows untouched).used hl⟩
  · intro a ha
    have hsound := h.sound a ha
    have hm := hsound.message
    refine ⟨hm, hsound.aligned, (hgrows untouched).covers hm hsound.covers, hsound.regular, ?_⟩
    refine Place.words_congr hsound.words fun k hk _ => ?_
    have hkm : k.segment.message = m := by rw [hk.1, hm]
    exact (hgrows untouched).wordAt_eq hkm (covers_mono hsound.covers hk.1 hk.2.2) fun _ _ hl => hl
  · intro slot hslot
    obtain ⟨p, hp⟩ := h.slots slot hslot
    exact ⟨p, hp.shows, hp.home, fun u hu => hp.steady u ((hgrows _).trans hu)⟩

theorem WellFormed.elsewhere {k : Nat} {own : Location → Prop} (h : H.WellFormed m s)
    (hk : k ≠ m) (ht : s.Extends k own t) : H.WellFormed m t :=
  h.congr (ht.valid h.valid) (by rw [ht.message_eq hk.symm])

theorem WellFormed.root_slot {msg : Nat} (h : H.WellFormed m s)
    (hm : (rootSlot msg).segment.message = m) : H.Slot (rootSlot msg) := by
  obtain rfl : msg = m := hm
  exact ⟨_, h.root, rfl⟩

theorem Known.field {v : StructView} {off n : Nat} {l k : Location} (hv : H.Known m s (.struct v))
    (hl : v.field? off n = some l) (hm : l.segment.message = m) (hk : l.Extent n k) : H.Data k := by
  obtain ⟨loc, shape, member, rfl, hoff, rfl⟩ := StructView.field?_eq_some.mp hl
  exact (hv.view loc rfl hm).data (hk.of_shift.mono hoff)

theorem Known.entry {v : ListView} {i n : Nat} {l k : Location} (hv : H.Known m s (.list v))
    (hl : v.element? i n = some l) (hm : l.segment.message = m) (hk : l.Extent n k) : H.Data k := by
  obtain ⟨loc, len, elem, shape, rfl, hkind⟩ := ListView.element?_eq_some hl
  rcases hkind with ⟨rfl, hi, hn, rfl⟩ | ⟨hne, hp, off, hoff, rfl⟩
  · obtain ⟨tag, rfl, ha⟩ := (hv.view loc rfl hm).list
    exact ⟨_, ha, i, hi, hk.mono hn⟩
  · have ha := (hv.view loc rfl hm).plain hne
    refine .of_list ha (fun he => ?_) (hk.of_shift.mono hoff)
    obtain ⟨_, hlo, hhi⟩ := hk
    have hn := hp he
    omega

theorem Known.bit {v : ListView} {i : Nat} {l k : Location} (hv : H.Known m s (.list v))
    (hl : v.bit? i = some l) (hm : l.segment.message = m) (hk : l.Extent 1 k) : H.Data k := by
  obtain ⟨loc, len, shape, off, rfl, hoff, rfl⟩ := ListView.bit?_eq_some hl
  obtain ⟨_, ha⟩ := (hv.view loc rfl hm).list
  exact ⟨_, ha, hk.of_shift.mono hoff⟩

def Survives {α : Type} (H : Heap) (m : Nat) (act : StoreM α) (s : Store) : Prop :=
  Outcome act s (fun _ t => H.Kept m t) fun _ t => H.Kept m t

section Edits

variable {α : Type} {slot : Location} {p : Pointer} {f : Fault}

theorem survives_elsewhere {k : Nat} {own free : Location → Prop} {act : StoreM α}
    (h : H.WellFormed m s) (hk : k ≠ m)
    (hact : Outcome act s (fun _ t => s.Extends k own t) fun _ t => s.Extends k free t) :
    H.Survives m act s :=
  hact.mono (fun _ _ ht => (h.elsewhere hk ht).kept) fun _ _ ht => (h.elsewhere hk ht).kept

theorem survives_throw {e : Abort} (h : H.WellFormed m s) :
    H.Survives m (throw e : StoreM α) s :=
  Outcome.throw h.kept

theorem survives_write {l : Location} {w : Nat} (v : Nat) (h : H.WellFormed m s)
    (hl : l.segment.message = m → ∀ k, l.Extent w k → H.Data k) :
    H.Survives m (write l w v) s := by
  by_cases hm : l.segment.message = m
  · have hwrite := write_overwrites l w v s
    rw [hm] at hwrite
    exact hwrite.mono (fun _ _ ht => (h.data ht (hl hm)).kept) fun _ _ ht => (h.data ht (hl hm)).kept
  · exact survives_elsewhere h hm (write_extends l w v s)

theorem survives_writeAt? {loc : Option Location} {w : Width} {v : Nat} (h : H.WellFormed m s)
    (hin : ∀ l, loc = some l → l.segment.message = m → ∀ k, l.Extent w.bytes k → H.Data k) :
    H.Survives m (writeAt? loc f w v) s := by
  cases loc with
  | none => exact survives_throw h
  | some l => exact survives_write v h (hin l rfl)

theorem survives_writeBitAt? {loc : Option Location} {n : Nat} {v : Bool} (h : H.WellFormed m s)
    (hin : ∀ l, loc = some l → l.segment.message = m → ∀ k, l.Extent 1 k → H.Data k) :
    H.Survives m (writeBitAt? loc f n v) s := by
  cases loc with
  | none => exact survives_throw h
  | some l =>
      refine Outcome.bind (P := fun _ t => t = s) ?_ ?_
      · exact outcome_query (fun _ _ => rfl) fun _ _ => h.kept
      · rintro b t rfl
        exact survives_write _ h (hin l rfl)

theorem survives_assign (h : H.WellFormed m s) (hs : slot.segment.message = m → H.Slot slot)
    (hp : H.Known m s p) : H.Survives m (assign slot p) s := by
  by_cases hm : slot.segment.message = m
  · exact outcome_withBudget (pointTo_tidy m _ H slot p ⟨s, _⟩ h (hs hm) hp)
  · exact survives_elsewhere h hm (assign_writesOnly slot p s)

theorem survives_assignAt {loc : Option Location} (h : H.WellFormed m s) (hp : H.Known m s p)
    (hin : ∀ l, loc = some l → l.segment.message = m → H.Slot l) :
    H.Survives m (match loc with
      | some slot => assign slot p
      | none => throw (.fault f)) s := by
  cases loc with
  | none => exact survives_throw h
  | some l => exact survives_assign h (hin l rfl) hp

theorem survives_assignRoot {msg : Nat} (h : H.WellFormed m s) (hp : H.Known m s p) :
    H.Survives m (assignRoot msg p) s := by
  apply outcome_whenOpen
  · exact fun _ => h.kept
  · intro _
    refine Outcome.bind (P := fun _ t => t = s) ?_ ?_
    · exact outcome_query (fun _ _ => rfl) fun _ _ => h.kept
    · rintro _ t rfl
      exact survives_assign h h.root_slot hp

theorem survives_fill {c : CopyScope} {budget : Nat} {dst src : StructView} (h : H.WellFormed m s)
    (hdst : H.Known m s (.struct dst)) (hsrc : H.Known m s (.struct src)) :
    H.Survives m (withBudget budget (fill c dst src)) s := by
  have hw := follow_atomic c.limit c.levels
  cases dst with
  | absent => exact Outcome.pure h.kept
  | backed loc shape member =>
      by_cases hm : loc.segment.message = m
      · have hfill : Outcome (fill c (.backed loc shape member) src) ⟨s, budget⟩ _ _ :=
          fillWith_tidy hw (follow_tidy m c.limit c.levels) h hm (hdst.view loc rfl hm) hsrc
        exact outcome_withBudget hfill
      · have hfill := fillWith_confined hw loc shape member src ⟨s, budget⟩
        exact survives_elsewhere h hm (outcome_withBudget hfill)

end Edits

end Heap

end SegmentedMessage
