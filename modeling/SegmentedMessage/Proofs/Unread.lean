import SegmentedMessage.Proofs.Impartial
import SegmentedMessage.Proofs.StructCopy

namespace SegmentedMessage

open Store Copy

namespace Store

/-- The bytes of an object, and those that decoding its slots reads. The members of a composite list
are objects of their own. -/
inductive Reads (s : Store) : Pointer → Location → Prop where
  | data {loc k : Location} {shape : StructShape} {member : Bool} (h : loc.Extent shape.data k) :
      Reads s (.struct (.backed loc shape member)) k
  | field {v : StructView} {i : Nat} {slot k : Location} (hl : v.slot? i = some slot)
      (h : s.Consults slot k) : Reads s (.struct v) k
  | content {loc k : Location} {len : Nat} {elem : ElementKind} {shape : StructShape}
      (h : loc.Extent (elem.bytesFor len) k) : Reads s (.list (.backed loc len elem shape)) k
  | element {v : ListView} {i : Nat} {slot k : Location} (hl : v.slot? i = some slot)
      (h : s.Consults slot k) : Reads s (.list v) k

theorem Pasted.sameBut {s t : Store} {l : Location} {src : List UInt8} {D : Location → Prop}
    (h : Pasted l src s t) (hD : ∀ k, l.Extent src.length k → D k) (m : Nat) : s.SameBut m D t where
  count := h.count m
  length r _ := h.length_eq r
  byte k _ hk := by
    by_cases hused : s.Used k
    · exact h.extends_.getElem?_eq hused fun hin => hk (hD k hin)
    · have hle := Nat.le_of_not_lt hused
      rw [List.getElem?_eq_none hle, List.getElem?_eq_none (h.length_eq k.segment ▸ hle)]

end Store

section Same

variable {s s' : Store} {D : Location → Prop} {R : Pointer → Pointer → Prop}

theorem SlotsAlike.self {r : Except Abort Pointer} (h : ∀ q, r = .ok q → R q q) :
    SlotsAlike R r r := by
  cases r with
  | ok q => exact .ok (h q rfl)
  | error e => exact .error e

theorem SlotsAlike.at_slot (hs : ∀ m, s.SameBut m D s') {slot : Location}
    (hD : ∀ l, s.Consults slot l → ¬ D l) (hR : ∀ q, s.pointerAt slot = .ok q → R q q) :
    SlotsAlike R (s.pointerAt slot) (s'.pointerAt slot) := by
  rw [pointerAt_congr (hs _) rfl hD]
  exact .self hR

theorem StructsAlike.self (hs : ∀ m, s.SameBut m D s') {v : StructView} {data slots : Nat}
    (hdata : ∀ loc, v.loc? = some loc → ∀ l, loc.Extent (min data v.shape.data) l → ¬ D l)
    (hslots : ∀ j slot, j < slots → v.slot? j = some slot → (∀ l, s.Consults slot l → ¬ D l) ∧
      ∀ q, s.pointerAt slot = .ok q → R q q) : StructsAlike s s' R data slots v v := by
  cases v with
  | absent => exact .absent
  | backed loc shape member =>
    refine .backed ((hs _).range rfl (hdata loc rfl)) fun j hj => ?_
    have hboth := Nat.lt_min.mp hj
    obtain ⟨slot, hslot⟩ := (StructView.backed loc shape member).exists_slot hboth.2
    obtain ⟨hD, hR⟩ := hslots j slot hboth.1 hslot
    rw [StructView.pointerAt_of_slot hslot, StructView.pointerAt_of_slot hslot]
    exact .at_slot hs hD hR

theorem StructsAlike.whole (hs : ∀ m, s.SameBut m D s') {v : StructView}
    (hD : ∀ l, s.Reads (.struct v) l → ¬ D l) (hR : ∀ j q, v.pointerAt j s = .ok q → R q q)
    (data slots : Nat) : StructsAlike s s' R data slots v v := by
  refine .self hs (fun loc hloc l hl => ?_) fun j slot _ hslot => ⟨fun l hl => ?_, fun q hq => ?_⟩
  · cases v with
    | absent => cases hloc
    | backed loc shape member =>
      cases hloc
      exact hD l (.data (hl.mono (Nat.min_le_right _ _)))
  · exact hD l (.field hslot hl)
  · exact hR j q ((StructView.pointerAt_of_slot hslot s).trans hq)

theorem Store.ReadsAlike.self (hs : ∀ m, s.SameBut m D s') {k : Nat} {p : Pointer}
    (hD : ∀ q, s.Reachable p q → ∀ l, s.Reads q l → ¬ D l) : s.ReadsAlike s' k p p := by
  induction k generalizing p with
  | zero => trivial
  | succ k ih =>
    have hbelow {q : Pointer} (hq : s.Child p q) : s.ReadsAlike s' k q q :=
      ih fun r hr => hD r (.head hq hr)
    have hown : ∀ l, s.Reads p l → ¬ D l := hD p .refl
    change PointersAlike s s' (s.ReadsAlike s' k) p p
    match p with
    | .null => exact .absent rfl rfl
    | .capability i => exact .capability i
    | .struct .absent => exact .absent rfl rfl
    | .struct (.backed loc shape member) =>
      exact .struct fun data slots => .whole hs hown (fun _ _ hq => hbelow (.slot hq)) data slots
    | .list .absent => exact .absent rfl rfl
    | .list (.backed loc len elem shape) =>
      by_cases hcomp : elem = .composite
      · subst hcomp
        refine .list (.composite fun i _ data slots => ?_)
        have hmember := Child.member (s := s) (.backed loc len .composite shape) i
        refine .whole hs (hD _ (.single hmember)) (fun j q hq => ?_) data slots
        exact ih fun r hr => hD r (.head hmember (.head (.slot hq) hr))
      · by_cases hptr : elem = .pointer
        · subst hptr
          refine .list (.pointers fun i hi => ?_)
          have hslot : (ListView.backed loc len .pointer shape).slot? i = some _ := if_pos hi
          simp only [ListView.pointerAt, hslot]
          refine .at_slot hs (fun l hl => hown l (.element hslot hl)) fun q hq =>
            hbelow (.element (i := i) ?_)
          simpa only [ListView.pointerAt, hslot] using hq
        · exact .list (.plain hcomp hptr ((hs _).range rfl fun l hl => hown l (.content hl)))

end Same

namespace StructView

/-- The bytes of a struct for which one of another shape has no room. -/
inductive Surplus (v : StructView) (shape : StructShape) (k : Location) : Prop where
  | data {loc : Location} (hv : v.loc? = some loc)
      (h : (loc.shift shape.data).Extent (v.shape.data - shape.data) k)
  | slot {i : Nat} {l : Location} (hl : v.slot? i = some l) (hi : shape.slots.toNat ≤ i)
      (h : l.Extent 8 k)

/-- What is copied of a struct to one of another shape does not lie in its surplus. -/
def LaidApart (s : Store) (v : StructView) (shape : StructShape) : Prop :=
  ∀ i slot, i < shape.slots.toNat → v.slot? i = some slot →
    (∀ l, s.Consults slot l → ¬ v.Surplus shape l) ∧
    ∀ p q, s.pointerAt slot = .ok p → s.Reachable p q → ∀ l, s.Reads q l → ¬ v.Surplus shape l

theorem Surplus.not_data {v : StructView} {shape : StructShape} {loc l : Location}
    (hloc : v.loc? = some loc) (hl : loc.Extent (min shape.data v.shape.data) l) :
    ¬ v.Surplus shape l := by
  cases v with
  | absent => cases hloc
  | backed _ own member =>
    cases hloc
    rintro (⟨⟨⟩, h⟩ | ⟨hslot, _, h⟩)
    · exact (hl.mono (Nat.min_le_left _ _)).before h
    · obtain ⟨_, _, _, hview, _, rfl⟩ := StructView.slot?_eq_some.mp hslot
      cases hview
      exact h.apart (j := 0) (by simp only [StructView.shape]; omega) hl

theorem LaidApart.alike {s s' : Store} {v : StructView} {shape : StructShape}
    (h : v.LaidApart s shape) (hs : ∀ m, s.SameBut m (v.Surplus shape) s') (k : Nat) :
    StructsAlike s s' (s.ReadsAlike s' k) shape.data shape.slots.toNat v v := by
  refine .self hs (fun loc hloc l hl => Surplus.not_data hloc hl) fun j slot hj hslot => ?_
  obtain ⟨hconsults, hreads⟩ := h j slot hj hslot
  exact ⟨hconsults, fun q hq => .self hs fun r hr => hreads q r hq hr⟩

end StructView

/-- The data that both structs have room for is copied and the rest of the data is zero. The slots that
both have are copied, shared within one message and cloned into another, and the rest of the slots are
null. However the copy ends, nothing else changes, and the surplus of a source in another message has
no part in it, unless what the source points to lies there. -/
theorem structCopy_resizes {σ : Session} (h : Session.Reaches Session.Allows Session.empty σ)
    {loc : Location} {shape : StructShape} {member : Bool}
    (hdst : σ.Holds (.struct (.backed loc shape member))) (ha : loc.address % 8 = 0)
    {src : StructView} (hsrc : σ.Holds (.struct src)) (hclear : src.ClearOf σ.store loc shape)
    (c : CopyScope) (budget : Nat) :
    (∀ t, fill c (.backed loc shape member) src ⟨σ.store, budget⟩ = .ok () t →
      σ.store.Extends loc.segment.message (loc.Extent shape.bytes) t.store ∧
      σ.store.FilledTo t.store loc shape src (min shape.slots.toNat src.shape.slots.toNat) ∧
      ∀ i, min shape.slots.toNat src.shape.slots.toNat ≤ i →
        (StructView.backed loc shape member).pointerAt i t.store = .ok .null) ∧
    (∀ e t, fill c (.backed loc shape member) src ⟨σ.store, budget⟩ = .error e t →
      σ.store.Extends loc.segment.message (loc.Extent shape.bytes) t.store) ∧
    ((∀ l, src.loc? = some l → l.segment.message ≠ loc.segment.message) →
      src.LaidApart σ.store shape →
      ∀ s', s'.message loc.segment.message = σ.store.message loc.segment.message →
        (∀ m, σ.store.SameBut m (src.Surplus shape) s') →
        Agrees (CopyState.SameIn loc.segment.message)
          (fill c (.backed loc shape member) src ⟨σ.store, budget⟩)
          (fill c (.backed loc shape member) src ⟨s', budget⟩)) := by
  have hs : σ.Safe := h.safe Session.safe_empty
  have hd : (StructView.backed loc shape member).Inside σ.store := hs.holds hdst
  have hin : src.Inside σ.store := hs.holds hsrc
  have hconfined := fill_confined c loc shape member src ⟨σ.store, budget⟩
  have hstaged : Staged loc shape member src (fill c (.backed loc shape member) src)
      ⟨σ.store, budget⟩ := fill_staged c hs.valid hd ha hin hclear
  refine ⟨fun t hrun => ?_, fun e t hrun => hconfined.of_error hrun, ?_⟩
  · have hwhole := Outcome.of_ok hstaged hrun
    exact ⟨hconfined.of_ok hrun, hwhole⟩
  intro hne hapart s' hmessage hsame
  have hin' : src.Inside s' := by
    cases src with
    | absent => trivial
    | backed l own part => exact ⟨hin.1, ((hsame _).covers rfl _).trans hin.2⟩
  have hb := CopyState.Beside.start hmessage rfl hd.2 budget
  exact (fillWith_agrees (follow_impartial c.limit c.levels) rfl ⟨hin, hne⟩ ⟨hin', hne⟩
    (hapart.alike hsame _) hb).mono fun _ _ h => h.sameIn

namespace WiderSource

/-- A struct of two words of data and one slot, which points to a list. -/
def source : ByteArray :=
  ⟨#[0, 0, 0, 0, 2, 0, 1, 0, 1, 2, 3, 4, 5, 6, 7, 8, 9, 9, 9, 9, 9, 9, 9, 9,
    1, 0, 0, 0, 26, 0, 0, 0, 97, 98, 99, 0, 0, 0, 0, 0]⟩

def opened : Session :=
  ((Session.empty.after (.creation (.opened [source] []))).after
    (.creation (.message []))).after (.query (.rootView 0))

/-- In the second message there is a struct of one word and two slots. -/
def session : Session :=
  opened.after (.creation (.struct ⟨1, 0⟩ ⟨8, 2⟩))

def view : StructView :=
  .backed ⟨⟨0, 0⟩, 8⟩ ⟨16, 1⟩ false

def narrow : StructView :=
  .backed ⟨⟨1, 0⟩, 8⟩ ⟨8, 2⟩ false

def list : ListView :=
  .backed ⟨⟨0, 0⟩, 32⟩ 3 .bits8 .empty

theorem reached : Session.Reaches Session.Allows Session.empty session := by
  have hopened : Session.Reaches Session.Allows Session.empty opened :=
    .tail (.tail (.single ⟨.creation (.opened [source] []), trivial, rfl⟩)
      ⟨.creation (.message []), trivial, rfl⟩) ⟨.query (.rootView 0), trivial, rfl⟩
  have hallows : opened.Allows (.creation (.struct ⟨1, 0⟩ ⟨8, 2⟩)) :=
    (by decide +kernel : 1 < opened.store.messages.size)
  exact hopened.tail ⟨_, hallows, rfl⟩

theorem not_surplus {l : Location} (hl : l.address < 16 ∨ 24 ≤ l.address) :
    ¬ view.Surplus ⟨8, 2⟩ l := by
  rintro (⟨⟨⟩, _, hlo, hhi⟩ | ⟨hslot, hi, _⟩)
  · simp only [Location.shift_address, view, StructView.shape] at hlo hhi
    omega
  · obtain ⟨_, _, _, hview, hlt, _⟩ := StructView.slot?_eq_some.mp hslot
    cases hview
    exact absurd (Nat.le_trans hi (Nat.le_of_lt_succ hlt)) (by decide)

theorem reads_below {q : Pointer} (hq : session.store.Reachable (.list list) q) :
    q = .list list ∨ q = .null ∨ q = .struct .absent := by
  induction hq with
  | refl => exact .inl rfl
  | tail _ hchild ih =>
    rcases ih with rfl | rfl | rfl
    · cases hchild with
      | element h =>
        cases h
        exact .inr (.inl rfl)
      | member => exact .inr (.inr rfl)
    · cases hchild
    · cases hchild with
      | slot h =>
        cases h
        exact .inr (.inl rfl)

theorem decoded : (session.store.locate ⟨⟨0, 0⟩, 24⟩ (session.store.wordAt ⟨⟨0, 0⟩, 24⟩)).toOption
      = some ⟨⟨0, 0⟩, ⟨1, 26⟩, 32⟩ ∧
    (session.store.pointerAt ⟨⟨0, 0⟩, 24⟩).toOption = some (.list list) := by
  decide +kernel

theorem apart : view.LaidApart session.store ⟨8, 2⟩ := by
  intro i slot _ hslot
  obtain ⟨_, _, _, hview, hi, rfl⟩ := StructView.slot?_eq_some.mp hslot
  cases hview
  obtain rfl : i = 0 := Nat.lt_one_iff.mp hi
  obtain ⟨hlocated, hlist⟩ := decoded
  change (∀ l, session.store.Consults ⟨⟨0, 0⟩, 24⟩ l → _) ∧
    ∀ p q, session.store.pointerAt ⟨⟨0, 0⟩, 24⟩ = .ok p → _
  constructor
  · rintro l (h | ⟨hfar, _⟩ | ⟨hx, _, hcomp, _⟩)
    · exact not_surplus (.inr h.2.1)
    · exact absurd hfar (by decide +kernel)
    · rw [hx] at hlocated
      cases hlocated
      cases hcomp
  · intro p q hp hq l hl
    rw [hp] at hlist
    cases hlist
    rcases reads_below hq with rfl | rfl | rfl
    · cases hl with
      | content h => exact not_surplus (.inr (Nat.le_trans (by decide) h.2.1))
      | element hslot _ => cases hslot
    · cases hl
    · cases hl with
      | field hslot _ => cases hslot

end WiderSource

open WiderSource in
theorem structCopy_resizes_widerSource :
    ∃ s', clear ⟨⟨0, 0⟩, 16⟩ 8 session.store = .ok () s' ∧
      ∃ t, fill (.top 64) narrow view ⟨session.store, 100⟩ = .ok () t ∧
        session.store.FilledTo t.store ⟨⟨1, 0⟩, 8⟩ ⟨8, 2⟩ view 1 ∧
        Agrees (CopyState.SameIn 1) (fill (.top 64) narrow view ⟨session.store, 100⟩)
          (fill (.top 64) narrow view ⟨s', 100⟩) := by
  have hdst : session.Holds (.struct narrow) := .inr (by decide +kernel)
  have hsrc : session.Holds (.struct view) := .inr (by decide +kernel)
  have hforeign (l : Location) (hl : view.loc? = some l) : l.segment.message ≠ 1 := by
    cases hl
    decide
  have hclear : view.ClearOf session.store ⟨⟨1, 0⟩, 8⟩ ⟨8, 2⟩ :=
    fun l hl hm => absurd hm (hforeign l hl)
  have hblank : Outcome.endsIn (clear ⟨⟨0, 0⟩, 16⟩ 8) session.store (fun _ => true) = true := by
    decide +kernel
  have hends : Outcome.endsIn (fill (.top 64) narrow view) ⟨session.store, 100⟩ (fun _ => true)
      = true := by decide +kernel
  obtain ⟨_, s', hcleared, -⟩ := Outcome.endsIn_iff.mp hblank
  obtain ⟨_, t, hrun, -⟩ := Outcome.endsIn_iff.mp hends
  have hpasted := (outcome_clear ⟨⟨0, 0⟩, 16⟩ 8 session.store).of_ok hcleared
  have hboth := structCopy_resizes reached hdst rfl hsrc hclear (.top 64) 100
  refine ⟨s', hcleared, t, hrun, (hboth.1 t hrun).2.1, hboth.2.2 hforeign apart s' ?_ ?_⟩
  · exact hpasted.extends_.others 1 (by decide)
  · exact hpasted.sameBut fun k hk => .data rfl hk

end SegmentedMessage
