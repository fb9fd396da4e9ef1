import SegmentedMessage.Proofs.DeepCopy
import SegmentedMessage.Proofs.Supply

/-!
What a copy allocates. Every word of the budget that is spent pays for three words of memory: one for
the object it was spent on and two for a landing pad. Memory that has not been paid for yet is what
was allocated for the objects that are being copied: the innermost of any kind, and the composite
lists around it, whose members are paid for one by one.
-/

namespace SegmentedMessage

open Store Copy

def ListView.words (v : ListView) : Nat :=
  match v.element with
  | .composite => v.contentSize / 8 + 1
  | _ => v.contentSize / 8

namespace Pointer

def words : Pointer → Nat
  | struct v => v.shape.bytes / 8
  | list v => v.words
  | _ => 0

def isComposite : Pointer → Bool
  | list v => v.element == .composite
  | _ => false

def Regular : Pointer → Prop
  | struct v => v.shape.Regular
  | list v => v.element = .composite → v.shape.Regular
  | _ => True

theorem in_or_elsewhere (p : Pointer) (m : Nat) :
    p.In m ∨ ∀ l, p.loc? = some l → l.segment.message ≠ m := by
  unfold In
  cases p.loc? with
  | none => exact .inl fun l hl => nomatch hl
  | some loc =>
    by_cases h : loc.segment.message = m
    · exact .inl fun l hl => Option.some.inj hl ▸ h
    · exact .inr fun l hl => Option.some.inj hl ▸ h

theorem Inside.regular {p : Pointer} {s : Store} (h : p.Inside s) : p.Regular := by
  match p, h with
  | .null, _ => trivial
  | .capability _, _ => trivial
  | .struct .absent, _ => exact ⟨rfl, Nat.zero_le _⟩
  | .struct (.backed _ _ _), h => exact h.1
  | .list .absent, _ => exact fun hc => nomatch hc
  | .list (.backed _ _ elem _), h =>
    intro hc
    cases hc
    exact h.1

end Pointer

theorem StructShape.Regular.words {shape : StructShape} (h : shape.Regular) (loc : Location)
    (member : Bool) : 8 * (Pointer.struct (.backed loc shape member)).words = shape.bytes := by
  have := h.bytes_mod
  simp only [Pointer.words, StructView.shape]
  omega

namespace Store

variable {s : Store} {M C : Nat} {p q : Pointer}

inductive Child (s : Store) : Pointer → Pointer → Prop where
  | slot {v : StructView} {j : Nat} {q : Pointer} (h : v.pointerAt j s = .ok q) :
      Child s (.struct v) q
  | element {v : ListView} {i : Nat} {q : Pointer} (h : v.pointerAt i s = .ok q) :
      Child s (.list v) q
  | member (v : ListView) (i : Nat) : Child s (.list v) (.struct (v.member i))

def Reachable (s : Store) : Pointer → Pointer → Prop :=
  Relation.ReflTransGen s.Child

/-- The objects that can be reached have at most `M` words, and composite lists at most `C`. -/
def Bounded (s : Store) (M C : Nat) (p : Pointer) : Prop :=
  ∀ q, s.Reachable p q → q.words ≤ M ∧ (q.isComposite = true → q.words ≤ C)

theorem Bounded.child (h : s.Bounded M C p) (hq : s.Child p q) : s.Bounded M C q :=
  fun r hr => h r (.head hq hr)

theorem Bounded.words (h : s.Bounded M C p) : p.words ≤ M :=
  (h p .refl).1

theorem Bounded.composite (h : s.Bounded M C p) (hp : p.isComposite = true) : p.words ≤ C :=
  (h p .refl).2 hp

theorem Bounded.of_closed (known : Pointer → Prop) (hp : known p)
    (hstep : ∀ q r, known q → s.Child q r → known r)
    (hsize : ∀ q, known q → q.words ≤ M ∧ (q.isComposite = true → q.words ≤ C)) :
    s.Bounded M C p := by
  intro q hq
  refine hsize q ?_
  induction hq with
  | refl => exact hp
  | tail _ hchild ih => exact hstep _ _ ih hchild

theorem covers_words (hv : s.Valid) {l : Location} {n : Nat} (hc : s.covers l n = true) :
    n / 8 ≤ largestSegment / 8 :=
  Nat.div_le_div_right (covers_fits hv hc)

theorem inside_words (hv : s.Valid) (hp : p.Inside s) : p.words ≤ largestSegment / 8 := by
  match p, hp with
  | .null, _ => exact Nat.zero_le _
  | .capability _, _ => exact Nat.zero_le _
  | .struct .absent, _ => exact Nat.zero_le _
  | .struct (.backed _ _ _), hp => exact covers_words hv hp.2
  | .list .absent, _ => exact Nat.zero_le _
  | .list (.backed loc len elem shape), hp =>
    by_cases hcomp : elem = .composite
    · subst hcomp
      obtain ⟨_, _, tag, _, hc⟩ := hp
      have := covers_words hv hc
      simp only [Pointer.words, ListView.words, ListView.element, ListView.contentSize,
        ListView.length, ListView.shape]
      omega
    · have hc := covers_words hv (hp.plain hcomp)
      cases elem with
      | composite => exact absurd rfl hcomp
      | _ => exact hc

theorem Bounded.of_inside (hv : s.Valid) (hp : p.Inside s) :
    s.Bounded (largestSegment / 8) (largestSegment / 8) p := by
  refine Bounded.of_closed (fun q => q.Inside s) hp ?_ fun q hq =>
    ⟨inside_words hv hq, fun _ => inside_words hv hq⟩
  intro q r hq hchild
  cases hchild with
  | slot h => exact ((StructView.pointerAt_answers _ _ s).of_ok h).1
  | element h => exact ((ListView.pointerAt_answers _ _ s).of_ok h).1
  | member v i => exact ListView.Inside.member hq i

end Store

namespace Copy

section Layers

variable {α : Type} {m fee debt : Nat} {s₀ : Store} {fit : Pointer → Prop} {deeper : Writer}

/-- What message `m` has handed out, and what it may still hand out. -/
def worth (m : Nat) (st : CopyState) : Nat :=
  st.store.total m + 24 * st.budget

theorem total_le_worth (m : Nat) (st : CopyState) : st.store.total m ≤ worth m st :=
  Nat.le_add_right _ _

/-- A writer takes at most `fee` bytes more than it spends, and when it fails it leaves at most
`debt` bytes that nothing was spent on. -/
def Thrifty (s₀ : Store) (m fee debt : Nat) (fit : Pointer → Prop) (w : Writer) : Prop :=
  ∀ slot p st, slot.segment.message = m → Keeps m s₀ st.store → fit p →
    Outcome (w slot p) st (fun _ t => worth m t ≤ worth m st + fee)
      fun _ t => t.store.total m ≤ worth m st + fee + debt

def Yields (s₀ : Store) (m : Nat) (fit : Pointer → Prop)
    (read : Nat → Store → Except Abort Pointer) : Prop :=
  ∀ s, Keeps m s₀ s → ∀ j p, read j s = .ok p → fit p

theorem free_onStore {act : StoreM α} (h : Steady act) (m : Nat) (st : CopyState) :
    Outcome (onStore act) st (fun _ t => worth m t = worth m st)
      fun _ t => t.store.total m = st.store.total m := by
  refine (outcome_onStore (h st.store)).mono ?_ fun _ t ht => ht.1 m
  rintro _ t ⟨ht, hb⟩
  rw [worth, ht m, hb, worth]

theorem spend_worth (words m : Nat) (st : CopyState) :
    Outcome (spend words) st
      (fun _ t => t.store = st.store ∧ worth m t + 24 * max words 1 = worth m st)
      fun _ t => t.store = st.store := by
  refine (outcome_spend_exact words st).mono ?_ fun _ _ ht => ht.1
  rintro _ t ⟨ht, hb⟩
  refine ⟨ht, ?_⟩
  simp only [worth, ht, hb]
  omega

theorem onStore_worth {act : StoreM α} {st : CopyState} {n : Nat}
    (h : Outcome act st.store (fun _ t => ∀ m, t.total m ≤ st.store.total m + n)
      fun _ t => ∀ m, t.total m ≤ st.store.total m + n) (m : Nat) :
    Outcome (onStore act) st (fun _ t => worth m t ≤ worth m st + n)
      fun _ t => t.store.total m ≤ worth m st + n := by
  refine (outcome_onStore h).mono ?_ ?_
  · rintro _ t ⟨ht, hb⟩
    have := ht m
    simp only [worth, hb]
    omega
  · rintro _ t ⟨ht, _⟩
    have := ht m
    have := total_le_worth m st
    omega

theorem free_thrifty {act : StoreM α} (h : Steady act) (m fee debt : Nat) (st : CopyState) :
    Outcome (onStore act) st (fun _ t => worth m t ≤ worth m st + fee)
      fun _ t => t.store.total m ≤ worth m st + fee + debt := by
  refine (free_onStore h m st).mono (fun _ t ht => by omega) fun _ t ht => ?_
  have := total_le_worth m st
  omega

theorem cloneSlots_thrifty (hw : Atomic deeper) (ht : Thrifty s₀ m fee debt fit deeper)
    {slots : Location} {src : StructView} {j n : Nat} {st : CopyState}
    (hm : slots.segment.message = m) (hk : Keeps m s₀ st.store)
    (hsrc : Yields s₀ m fit src.pointerAt) :
    Outcome (cloneSlots deeper slots src j n) st
      (fun _ t => worth m t ≤ worth m st + n * fee)
      fun _ t => t.store.total m ≤ worth m st + n * fee + debt := by
  subst hm
  induction n generalizing j st with
  | zero => exact Outcome.pure (Nat.le_add_right _ _)
  | succ n ih =>
      rw [Nat.succ_mul]
      unfold cloneSlots
      refine Outcome.bind_of (outcome_onQuery (src.pointerAt j) st) ?_ ?_
      · rintro _ t ⟨rfl, _⟩
        have := total_le_worth slots.segment.message t
        omega
      · rintro p st' ⟨rfl, hp⟩
        have hone : Outcome (cloneSlot deeper (slots.shift (j * 8)) p) st'
            (fun _ t => worth slots.segment.message t ≤ worth slots.segment.message st' + fee)
            fun _ t => t.store.total slots.segment.message ≤
              worth slots.segment.message st' + fee + debt := by
          unfold cloneSlot
          split
          · exact ht _ p st' rfl hk (hsrc _ hk j p hp)
          · exact free_thrifty (.writeWord _ _) _ _ _ st'
        have hstep := hone.and (cloneSlot_confined hw (slots.shift (j * 8)) p st')
        refine Outcome.bind_of hstep ?_ ?_
        · rintro _ t ⟨h, _⟩
          omega
        · rintro _ t ⟨h, he⟩
          refine (ih (hk.later he)).mono ?_ ?_
          · intro _ u hu
            omega
          · intro _ u hu
            omega

theorem fillSlots_thrifty (hw : Atomic deeper) (ht : Thrifty s₀ m fee debt fit deeper)
    {slots : Location} {count : Nat} {src : StructView} {st : CopyState}
    (hm : slots.segment.message = m) (hk : Keeps m s₀ st.store)
    (hsrc : Yields s₀ m fit src.pointerAt) :
    Outcome (fillSlots deeper slots count src) st
      (fun _ t => worth m t ≤ worth m st + src.shape.slots.toNat * fee)
      fun _ t => t.store.total m ≤ worth m st + src.shape.slots.toNat * fee + debt := by
  have hn : min count src.shape.slots.toNat * fee ≤ src.shape.slots.toNat * fee :=
    Nat.mul_le_mul_right fee (Nat.min_le_right _ _)
  unfold fillSlots
  refine Outcome.bind_of (cloneSlots_thrifty hw ht hm hk hsrc) (fun _ t h => by omega) ?_
  intro _ t h
  refine (free_onStore (.clear _ _) m t).mono (fun _ u hu => by omega) fun _ u hu => ?_
  have := total_le_worth m t
  omega

theorem fillWith_thrifty (hw : Atomic deeper) (ht : Thrifty s₀ m fee debt fit deeper)
    {loc : Location} {shape : StructShape} {member : Bool} {src : StructView} {st : CopyState}
    (hm : loc.segment.message = m) (hk : Keeps m s₀ st.store)
    (hsrc : Yields s₀ m fit src.pointerAt) :
    Outcome (fillWith deeper (.backed loc shape member) src) st
      (fun _ t => worth m t + 24 * max (src.shape.bytes / 8) 1 ≤
        worth m st + src.shape.slots.toNat * fee)
      fun _ t => t.store.total m = st.store.total m ∨
        t.store.total m + 24 * max (src.shape.bytes / 8) 1 ≤
          worth m st + src.shape.slots.toNat * fee + debt := by
  unfold fillWith
  refine Outcome.bind_of (spend_worth _ m st) (fun _ t h => .inl (by rw [h])) ?_
  rintro _ t ⟨hs, hspent⟩
  rw [← hs] at hk
  have hdata := (free_onStore (.fillData loc shape.data src) m t).and
    (fillData_confined loc shape.data src t)
  refine Outcome.bind_of hdata (fun _ u hu => .inl (by rw [hu.1, hs])) ?_
  rintro _ u ⟨hu, he⟩
  rw [hm] at he
  have hslots : Outcome (fillSlots deeper (loc.shift shape.data) shape.slots.toNat src) u _ _ :=
    fillSlots_thrifty hw ht hm (hk.later he) hsrc
  exact hslots.mono (fun _ v hv => by omega) fun _ v hv => .inr (by omega)

theorem cloneStruct_thrifty (hw : Atomic deeper) (ht : Thrifty s₀ m fee debt fit deeper)
    (hfee : fee = 0 ∨ fee = 16) {slot loc : Location} {shape : StructShape} {member : Bool}
    {st : CopyState} (hm : slot.segment.message = m) (hk : Keeps m s₀ st.store)
    (hr : shape.Regular) (hne : shape.isEmpty = false)
    (hsrc : Yields s₀ m fit (StructView.backed loc shape member).pointerAt) :
    Outcome (cloneStruct deeper slot shape (.backed loc shape member)) st
      (fun _ t => worth m t ≤ worth m st + fee)
      fun _ t => t.store.total m ≤ worth m st + fee + max shape.bytes debt := by
  subst hm
  have hround := Layout.roundUp_of_aligned hr.bytes_mod
  have hwords : shape.bytes / 8 * 8 = shape.bytes := by
    have := hr.bytes_mod
    omega
  have hpos : 0 < shape.bytes := by
    refine Nat.pos_of_ne_zero fun h0 => ?_
    rw [(StructShape.isEmpty_iff shape).mpr ((StructShape.bytes_eq_zero shape).mp h0)] at hne
    cases hne
  -- the slots are among the words that the struct is charged for
  have hslots : shape.slots.toNat * fee + 16 ≤ 2 * shape.bytes + fee := by
    have : shape.slots.toNat * 8 ≤ shape.bytes := Nat.le_add_left _ _
    rcases hfee with rfl | rfl <;> omega
  have halloc := (outcome_onStore (allocate_total slot.segment shape.bytes st.store)).and
    (outcome_onStore (outcome_allocate slot.segment shape.bytes st.store))
  rw [hround] at halloc
  unfold cloneStruct
  refine Outcome.bind_of halloc ?_ ?_
  · rintro _ t ⟨⟨⟨hs, _⟩, _⟩, _⟩
    have := total_le_worth slot.segment.message st
    rw [hs]
    omega
  rintro target t ⟨⟨htotal, hb⟩, ⟨hnew, _⟩⟩
  have htaken : worth slot.segment.message t ≤ worth slot.segment.message st + shape.bytes := by
    have := htotal slot.segment.message
    simp only [worth, hb]
    omega
  have hfill : Outcome (fillWith deeper (.backed target shape false) (.backed loc shape member))
      t _ _ := fillWith_thrifty hw ht hnew.message (hk.later hnew.extends_) hsrc
  refine Outcome.bind_of hfill ?_ ?_
  · simp only [StructView.shape]
    rintro _ u (hu | hu)
    · have := htotal slot.segment.message
      have := total_le_worth slot.segment.message st
      omega
    · omega
  simp only [StructView.shape]
  intro _ u hu
  have hlink := onStore_worth (link_total slot target (.ofStruct 0 shape) u.store)
    slot.segment.message
  exact hlink.mono (fun _ v hv => by omega) fun _ v hv => by omega

theorem fillMembers_thrifty (hw : Atomic deeper) (ht : Thrifty s₀ m 0 debt fit deeper)
    {loc loc' : Location} {len i n : Nat} {shape : StructShape} {st : CopyState}
    (hm : loc.segment.message = m) (hk : Keeps m s₀ st.store) (hr : shape.Regular)
    (hin : i + n ≤ len) (hsrc : ∀ i, Yields s₀ m fit
      ((ListView.backed loc' len .composite shape).member i).pointerAt) :
    Outcome (fillMembers deeper (.backed loc len .composite shape)
      (.backed loc' len .composite shape) i n) st
      (fun _ t => worth m t + n * shape.bytes ≤ worth m st)
      fun _ t => t.store.total m ≤ worth m st + debt := by
  subst hm
  have hbytes : shape.bytes ≤ 24 * max (shape.bytes / 8) 1 := by
    have := hr.bytes_mod
    omega
  induction n generalizing i st with
  | zero => exact Outcome.pure (by rw [Nat.zero_mul]; exact Nat.le_refl _)
  | succ n ih =>
      have hi : i < len := by omega
      have hread := hsrc i
      rw [member_eq hi] at hread
      have hfill : Outcome (fillWith deeper (.backed (loc.shift (i * shape.bytes)) shape true)
          (.backed (loc'.shift (i * shape.bytes)) shape true)) st _ _ :=
        fillWith_thrifty hw ht rfl hk hread
      have hone := hfill.and (fillWith_confined hw _ shape true _ st)
      rw [Nat.mul_zero] at hone
      rw [Nat.succ_mul]
      unfold fillMembers
      rw [member_eq hi, member_eq hi]
      refine Outcome.bind_of hone ?_ ?_
      · rintro _ t ⟨h, _⟩
        have := total_le_worth loc.segment.message st
        omega
      · simp only [StructView.shape]
        rintro _ t ⟨h, he⟩
        exact (ih (by omega) (hk.later he)).mono (fun _ u hu => by omega) fun _ u hu => by omega

theorem cloneElements_thrifty (hw : Atomic deeper) (ht : Thrifty s₀ m 0 debt fit deeper)
    {loc : Location} {src : ListView} {len i n : Nat} {shape : StructShape} {st : CopyState}
    (hm : loc.segment.message = m) (hk : Keeps m s₀ st.store) (hin : i + n ≤ len)
    (hsrc : Yields s₀ m fit src.pointerAt) :
    Outcome (cloneElements deeper (.backed loc len .pointer shape) src i n) st
      (fun _ t => worth m t ≤ worth m st) fun _ t => t.store.total m ≤ worth m st + debt := by
  subst hm
  induction n generalizing i st with
  | zero => exact Outcome.pure (Nat.le_refl _)
  | succ n ih =>
      unfold cloneElements
      refine Outcome.bind_of (outcome_onQuery (src.pointerAt i) st) ?_ ?_
      · rintro _ t ⟨rfl, _⟩
        have := total_le_worth loc.segment.message t
        omega
      · rintro p st' ⟨rfl, hp⟩
        have hone : Outcome (cloneElement deeper
            ((ListView.backed loc len .pointer shape).slot? i) p) st'
            (fun _ t => worth loc.segment.message t ≤ worth loc.segment.message st')
            fun _ t => t.store.total loc.segment.message ≤
              worth loc.segment.message st' + debt := by
          have hi : i < len := by omega
          rw [slot_eq hi]
          change Outcome (if p.isBacked then deeper (loc.shift (i * 8)) p else pure ()) st' _ _
          split
          · exact ht _ p st' rfl hk (hsrc _ hk i p hp)
          · exact Outcome.pure (Nat.le_refl _)
        have hstep := hone.and (cloneElement_confined hw loc len shape i p st')
        refine Outcome.bind_of hstep (fun _ t h => h.1) ?_
        rintro _ t ⟨h, he⟩
        exact (ih (by omega) (hk.later he)).mono (fun _ u hu => by omega) fun _ u hu => by omega

theorem cloneComposite_thrifty (hw : Atomic deeper) (ht : Thrifty s₀ m 0 debt fit deeper)
    {r : SegmentRef} {loc : Location} {len : Nat} {shape : StructShape} {st : CopyState}
    (hm : r.message = m) (hk : Keeps m s₀ st.store) (hr : shape.Regular)
    (hsrc : ∀ i, Yields s₀ m fit ((ListView.backed loc len .composite shape).member i).pointerAt) :
    Outcome (cloneListWith deeper r (.backed loc len .composite shape)) st
      (fun _ t => worth m t + 16 ≤ worth m st)
      fun _ t => t.store.total m ≤ worth m st + len * shape.bytes + debt := by
  subst hm
  unfold cloneListWith
  simp only [ListView.element, ListView.shape, ListView.length]
  refine Outcome.bind_of (spend_worth 1 r.message st) ?_ ?_
  · intro _ t h
    have := total_le_worth r.message st
    rw [h]
    omega
  rintro _ t ⟨hs, hspent⟩
  rw [← hs] at hk
  have halloc := (outcome_onStore (ListView.allocateComposite_total hr r len t.store)).and
    (outcome_onStore (ListView.outcome_allocateComposite r shape len t.store))
  have hworth := total_le_worth r.message t
  -- the list is taken whole here, and only its tag has been charged
  refine Outcome.bind_of halloc ?_ ?_
  · rintro _ u ⟨⟨⟨h, _⟩, _⟩, _⟩
    have := h r.message
    omega
  rintro _ u ⟨⟨htotal, hb⟩, ⟨tag, v, rfl, _, _, htag⟩, _⟩
  have htaken : worth r.message u ≤ worth r.message t + (8 + len * shape.bytes) := by
    have := htotal r.message
    simp only [worth, hb]
    omega
  rw [hr.roundUp_eq] at htag ⊢
  have hfill : Outcome (fillMembers deeper (.backed (tag.shift 8) len .composite shape)
      (.backed loc len .composite shape) 0 len) u _ _ :=
    fillMembers_thrifty hw ht htag.allocated.message (hk.later htag.extends_) hr (by omega) hsrc
  refine Outcome.bind_of hfill (fun _ v hv => by omega) fun _ v hv => ?_
  exact Outcome.pure (by omega)

theorem clonePointers_thrifty (hw : Atomic deeper) (ht : Thrifty s₀ m 0 debt fit deeper)
    {r : SegmentRef} {loc : Location} {len : Nat} {shape : StructShape} {st : CopyState}
    (hm : r.message = m) (hk : Keeps m s₀ st.store)
    (hsrc : Yields s₀ m fit (ListView.backed loc len .pointer shape).pointerAt) :
    Outcome (cloneListWith deeper r (.backed loc len .pointer shape)) st
      (fun _ t => worth m t + 16 ≤ worth m st) fun _ t => t.store.total m ≤ worth m st + debt := by
  subst hm
  have hsize : (ListView.backed loc len .pointer shape).contentSize = len * 8 :=
    ElementKind.bytesFor_pointer len
  unfold cloneListWith
  simp only [ListView.element, ListView.length]
  refine Outcome.bind_of (spend_worth _ r.message st) ?_ ?_
  · intro _ t h
    have := total_le_worth r.message st
    rw [h]
    omega
  rintro _ t ⟨hs, hspent⟩
  rw [← hs] at hk
  have halloc := (outcome_onStore (ListView.allocate_total r .pointer len t.store)).and
    (outcome_onStore (ListView.outcome_allocate r .pointer len t.store))
  have hworth := total_le_worth r.message t
  refine Outcome.bind_of halloc ?_ ?_
  · rintro _ u ⟨⟨⟨h, _⟩, _⟩, _⟩
    rw [h]
    omega
  rintro _ u ⟨⟨htotal, hb⟩, ⟨l, rfl, _, _, hnew⟩, _⟩
  have htaken : worth r.message u ≤ worth r.message t + len * 8 := by
    have := htotal r.message
    rw [ElementKind.bytesFor_pointer] at this
    simp only [worth, hb]
    omega
  have hfill : Outcome (cloneElements deeper (.backed l len .pointer .empty)
      (.backed loc len .pointer shape) 0 len) u _ _ :=
    cloneElements_thrifty hw ht hnew.message (hk.later hnew.extends_) (by omega) hsrc
  refine Outcome.bind_of hfill (fun _ v hv => by omega) fun _ v hv => ?_
  exact Outcome.pure (by omega)

theorem clonePlain_thrifty {elem : ElementKind} (hcomp : elem ≠ .composite)
    (hptr : elem ≠ .pointer) (r : SegmentRef) (loc : Location) (len : Nat) (shape : StructShape)
    (m : Nat) (st : CopyState) :
    Outcome (cloneListWith deeper r (.backed loc len elem shape)) st
      (fun _ t => worth m t + 16 ≤ worth m st) fun _ t => t.store.total m ≤ worth m st := by
  have hsize : (ListView.backed loc len elem shape).contentSize = elem.bytesFor len :=
    ListView.contentSize_plain hcomp
  have hmod := elem.bytesFor_mod len
  have hfirst := total_le_worth m st
  rw [cloneListWith_plain hcomp hptr, hsize]
  refine Outcome.bind_of (spend_worth _ m st) (fun _ t h => by rw [h]; exact hfirst) ?_
  rintro _ t ⟨_, hspent⟩
  refine Outcome.bind_of (outcome_onStore (ListView.allocate_total r elem len t.store)) ?_ ?_
  · rintro _ u ⟨⟨h, _⟩, _⟩
    have := total_le_worth m t
    rw [h]
    omega
  rintro dst u ⟨htotal, hb⟩
  have htaken : worth m u ≤ worth m t + elem.bytesFor len := by
    have := htotal m
    simp only [worth, hb]
    omega
  have hlast := total_le_worth m u
  refine Outcome.bind_of (free_onStore (.fillContent dst _) m u) (fun _ v hv => by omega) ?_
  exact fun _ v hv => Outcome.pure (by omega)

end Layers

section Foreign

variable {m M C k : Nat} {s₀ : Store} {deeper : Writer} {p : Pointer}

structure Foreign (s₀ : Store) (m M C : Nat) (p : Pointer) : Prop where
  regular : p.Regular
  elsewhere : ∀ l, p.loc? = some l → l.segment.message ≠ m
  bounded : s₀.Bounded M C p

theorem Foreign.slots {v : StructView} (h : Foreign s₀ m M C (.struct v)) :
    Yields s₀ m (Foreign s₀ m M C) v.pointerAt := by
  intro s hk j q hq
  rw [hk.structPointer h.elsewhere] at hq
  exact ⟨((v.pointerAt_answers j s₀).of_ok hq).1.regular,
    StructView.pointerAt_foreign h.elsewhere hq, h.bounded.child (.slot hq)⟩

theorem Foreign.elements {v : ListView} (h : Foreign s₀ m M C (.list v)) :
    Yields s₀ m (Foreign s₀ m M C) v.pointerAt := by
  intro s hk i q hq
  rw [hk.listPointer h.elsewhere] at hq
  exact ⟨((v.pointerAt_answers i s₀).of_ok hq).1.regular,
    ListView.pointerAt_foreign h.elsewhere hq, h.bounded.child (.element hq)⟩

theorem Foreign.member {v : ListView} (h : Foreign s₀ m M C (.list v)) (i : Nat) :
    Foreign s₀ m M C (.struct (v.member i)) := by
  refine ⟨?_, ?_, h.bounded.child (.member v i)⟩
  · unfold ListView.member
    split
    · split
      · exact h.regular rfl
      · exact ⟨rfl, Nat.zero_le _⟩
    · exact ⟨rfl, Nat.zero_le _⟩
  · intro l hl
    obtain ⟨loc, hloc, hseg⟩ := v.member_segment hl
    rw [hseg]
    exact h.elsewhere loc hloc

/-- What a copy that fails `k` levels down may have taken without having spent anything on it. -/
def unpaid (M C : Nat) : Nat → Nat
  | 0 => 0
  | k + 1 => 8 * (M + k * C)

theorem unpaid_object {n : Nat} (hn : n ≤ M) (C k : Nat) :
    max (8 * n) (unpaid M C k) ≤ unpaid M C (k + 1) := by
  cases k with
  | zero => simp only [unpaid]; omega
  | succ k => simp only [unpaid, Nat.succ_mul]; omega

theorem unpaid_list {n : Nat} (hn : n ≤ M) (hc : n ≤ C) (k : Nat) :
    8 * n + unpaid M C k ≤ unpaid M C (k + 1) := by
  cases k with
  | zero => simp only [unpaid]; omega
  | succ k => simp only [unpaid, Nat.succ_mul]; omega

theorem cloneList_thrifty (hw : Atomic deeper)
    (ht : Thrifty s₀ m 0 (unpaid M C k) (Foreign s₀ m M C) deeper) {slot loc : Location} {len : Nat}
    {elem : ElementKind} {shape : StructShape} {st : CopyState} (hm : slot.segment.message = m)
    (hk : Keeps m s₀ st.store) (hp : Foreign s₀ m M C (.list (.backed loc len elem shape))) :
    Outcome (cloneList deeper slot (.backed loc len elem shape)) st
      (fun _ t => worth m t ≤ worth m st)
      fun _ t => t.store.total m ≤ worth m st + unpaid M C (k + 1) := by
  have hlist : Outcome (cloneListWith deeper slot.segment (.backed loc len elem shape)) st
      (fun _ t => worth m t + 16 ≤ worth m st)
      fun _ t => t.store.total m ≤ worth m st + unpaid M C (k + 1) := by
    by_cases hcomp : elem = .composite
    · subst hcomp
      have hr : shape.Regular := hp.regular rfl
      have hsize : 8 * (Pointer.list (.backed loc len .composite shape)).words =
          len * shape.bytes + 8 := by
        have := hr.mul_bytes_mod len
        simp only [Pointer.words, ListView.words, ListView.element, ListView.contentSize,
          ListView.length, ListView.shape]
        omega
      have hunpaid := unpaid_list hp.bounded.words (hp.bounded.composite rfl) k
      refine (cloneComposite_thrifty hw ht hm hk hr fun i => (hp.member i).slots).mono
        (fun _ _ h => h) fun _ t h => by omega
    · by_cases hptr : elem = .pointer
      · subst hptr
        refine (clonePointers_thrifty hw ht hm hk hp.elements).mono (fun _ _ h => h) fun _ t h => ?_
        have := unpaid_object (Nat.zero_le M) C k
        omega
      · exact (clonePlain_thrifty hcomp hptr _ loc len shape m st).mono (fun _ _ h => h)
          fun _ t h => by omega
  refine Outcome.bind hlist fun v t h => ?_
  exact (onStore_worth (linkList_total slot v t.store) m).mono (fun _ u hu => by omega)
    fun _ u hu => by omega

theorem writeWith_thrifty (hw : Atomic deeper)
    (ht : Thrifty s₀ m 0 (unpaid M C k) (Foreign s₀ m M C) deeper) :
    Thrifty s₀ m 0 (unpaid M C (k + 1)) (Foreign s₀ m M C) (writeWith deeper) := by
  intro slot p st hm hk hp
  have hword (w : PointerWord) := free_thrifty (.writeWord slot w) m 0 (unpaid M C (k + 1)) st
  match p, hp with
  | .null, _ => exact hword .null
  | .capability i, _ => exact hword (.ofCapability i)
  | .struct .absent, _ => exact hword .null
  | .struct (.backed loc shape member), hp =>
    change Outcome (writeStructWith deeper slot loc shape member) st _ _
    have hne : loc.segment.message ≠ slot.segment.message := hm ▸ hp.elsewhere loc rfl
    unfold writeStructWith
    split
    · exact hword .emptyStruct
    · rename_i hempty
      rw [if_neg fun h => hne h.1]
      have hr : shape.Regular := hp.regular
      have hclone := cloneStruct_thrifty hw ht (.inl rfl) hm hk hr (by simpa using hempty) hp.slots
      refine hclone.mono (fun _ _ h => h) fun _ t h => ?_
      have hunpaid := unpaid_object hp.bounded.words C k
      rw [hr.words] at hunpaid
      omega
  | .list .absent, _ => exact hword .null
  | .list (.backed loc len elem shape), hp =>
    change Outcome (writeListWith deeper slot loc (.backed loc len elem shape)) st _ _
    have hne : loc.segment.message ≠ slot.segment.message := hm ▸ hp.elsewhere loc rfl
    unfold writeListWith
    rw [if_neg hne]
    exact cloneList_thrifty hw ht hm hk hp

theorem follow_thrifty (s₀ : Store) (m M C limit levels : Nat) :
    Thrifty s₀ m 0 (unpaid M C levels) (Foreign s₀ m M C) (follow limit levels) := by
  induction levels with
  | zero => exact fun _ _ st _ _ _ => Outcome.throw (total_le_worth m st)
  | succ k ih => exact writeWith_thrifty (follow_atomic limit k) ih

end Foreign

section Local

variable {m : Nat} {s₀ : Store} {deeper : Writer}

theorem writeWith_local (s₀ : Store) (m : Nat) (deeper : Writer) :
    Thrifty s₀ m 16 0 (fun p => p.In m ∧ p.isMember = false) (writeWith deeper) := by
  rintro slot p st hm _ ⟨hin, hwhole⟩
  have hword (w : PointerWord) := free_thrifty (.writeWord slot w) m 16 0 st
  match p, hin, hwhole with
  | .null, _, _ => exact hword .null
  | .capability i, _, _ => exact hword (.ofCapability i)
  | .struct .absent, _, _ => exact hword .null
  | .struct (.backed loc shape member), hin, hwhole =>
    change Outcome (writeStructWith deeper slot loc shape member) st _ _
    unfold writeStructWith
    split
    · exact hword .emptyStruct
    · rw [if_pos ⟨(hin loc rfl).trans hm.symm, hwhole⟩]
      exact onStore_worth (link_total slot loc _ st.store) m
  | .list .absent, _, _ => exact hword .null
  | .list (.backed loc len elem shape), hin, _ =>
    change Outcome (writeListWith deeper slot loc (.backed loc len elem shape)) st _ _
    unfold writeListWith
    rw [if_pos ((hin loc rfl).trans hm.symm)]
    exact onStore_worth (linkList_total slot _ st.store) m

theorem follow_local (s₀ : Store) (m limit levels : Nat) :
    Thrifty s₀ m 16 0 (fun p => p.In m ∧ p.isMember = false) (follow limit levels) := by
  cases levels with
  | zero =>
    intro _ _ st _ _ _
    exact Outcome.throw (Nat.le_trans (total_le_worth m st) (Nat.le_add_right _ _))
  | succ k => exact writeWith_local s₀ m (follow limit k)

theorem slots_local {v : StructView} (hv : ∀ l, v.loc? = some l → l.segment.message = m) :
    Yields s₀ m (fun p => p.In m ∧ p.isMember = false) v.pointerAt := by
  intro s _ j p hp
  obtain ⟨_, hwhole, _, hin⟩ := (v.pointerAt_answers j s).of_ok hp
  cases v with
  | absent =>
    cases hp
    exact ⟨fun l hl => (nomatch hl), rfl⟩
  | backed loc shape member => exact ⟨hv loc rfl ▸ hin loc rfl, hwhole⟩

theorem member_local (hw : Atomic deeper)
    (ht : Thrifty s₀ m 16 0 (fun p => p.In m ∧ p.isMember = false) deeper) {slot loc : Location}
    {shape : StructShape} {st : CopyState} (hm : slot.segment.message = m)
    (hk : Keeps m s₀ st.store) (hr : shape.Regular) (hloc : loc.segment.message = m) :
    Outcome (writeStructWith deeper slot loc shape true) st
      (fun _ t => worth m t ≤ worth m st + 16)
      fun _ t => t.store.total m ≤ worth m st + 16 + shape.bytes := by
  unfold writeStructWith
  split
  · exact free_thrifty (.writeWord slot .emptyStruct) m 16 shape.bytes st
  · rename_i hempty
    rw [if_neg fun h => nomatch h.2]
    have hslots : Yields s₀ m (fun p => p.In m ∧ p.isMember = false)
        (StructView.backed loc shape true).pointerAt := slots_local fun l hl => by
      cases hl
      exact hloc
    refine (cloneStruct_thrifty hw ht (.inr rfl) hm hk hr (by simpa using hempty) hslots).mono
      (fun _ _ h => h) fun _ t h => ?_
    rw [Nat.max_zero] at h
    exact h

end Local

theorem pointTo_thrifty {s₀ : Store} {M C : Nat} (c : CopyScope) {slot : Location} {p : Pointer}
    (st : CopyState) (hk : Keeps slot.segment.message s₀ st.store) (hr : p.Regular)
    (hb : s₀.Bounded M C p) :
    Outcome (pointTo c slot p) st
      (fun _ t => worth slot.segment.message t ≤ worth slot.segment.message st + 16)
      fun _ t => t.store.total slot.segment.message ≤
        worth slot.segment.message st + 16 + 8 * (M + c.levels * C) := by
  rcases p.in_or_elsewhere slot.segment.message with hin | hfor
  · cases hmem : p.isMember with
    | false =>
      exact (writeWith_local s₀ _ _ slot p st rfl hk ⟨hin, hmem⟩).mono (fun _ _ h => h)
        fun _ t h => by omega
    | true =>
      match p, hr, hb, hin, hmem with
      | .struct (.backed loc shape true), hr, hb, hin, _ =>
        have hr : shape.Regular := hr
        have hwords := hb.words
        have hsize := hr.words loc true
        exact (member_local (follow_atomic c.limit c.levels) (follow_local s₀ _ c.limit c.levels)
          rfl hk hr (hin loc rfl)).mono (fun _ _ h => h) fun _ t h => by omega
  · have ht := follow_thrifty s₀ slot.segment.message M C c.limit c.levels
    refine (writeWith_thrifty (follow_atomic c.limit c.levels) ht slot p st rfl hk
      ⟨hr, hfor, hb⟩).mono (fun _ t h => by omega) fun _ t h => ?_
    rw [unpaid] at h
    omega

end Copy

/-- However a copy ends, memory is bounded by the budget, the largest object that can be reached, and
one composite list for each level that the copy may still follow. Two words are the landing pad of
the slot itself. A copy that ends well has paid for all it took. -/
theorem copy_growth {σ : Session} (h : Session.Reaches Session.Allows Session.empty σ) {p : Pointer}
    (hp : σ.Holds p) {M C : Nat} (hsize : σ.store.Bounded M C p) (slot : Location) (c : CopyScope)
    (budget : Nat) :
    (∀ t, pointTo c slot p ⟨σ.store, budget⟩ = .ok () t →
      t.store.total slot.segment.message + 8 * (3 * t.budget) ≤
        σ.store.total slot.segment.message + 8 * (3 * budget + 2)) ∧
    ∀ e t, pointTo c slot p ⟨σ.store, budget⟩ = .error e t →
      t.store.total slot.segment.message ≤
        σ.store.total slot.segment.message + 8 * (3 * budget + 2 + M + c.levels * C) := by
  have hsafe := h.safe Session.safe_empty
  have hk := Keeps.refl slot.segment.message hsafe.valid
  have hstart : worth slot.segment.message ⟨σ.store, budget⟩ =
      σ.store.total slot.segment.message + 24 * budget := rfl
  have hrun := pointTo_thrifty c ⟨σ.store, budget⟩ hk (hsafe.holds hp).regular hsize
  refine ⟨fun t ht => ?_, fun e t ht => ?_⟩
  · have hgrown := hrun.of_ok ht
    simp only [worth] at hgrown
    omega
  · have hgrown := hrun.of_error ht
    omega

/-- A composite list of ten members with one slot each. The first slot leads back to the list. -/
def listInItself : ByteArray :=
  ⟨#[1, 0, 0, 0, 0x57, 0, 0, 0, 40, 0, 0, 0, 0, 0, 1, 0, 0xf9, 0xff, 0xff, 0xff, 0x57, 0, 0, 0,
    0, 0, 0, 0, 0, 0, 0, 0, 0, 0, 0, 0, 0, 0, 0, 0, 0, 0, 0, 0, 0, 0, 0, 0, 0, 0, 0, 0, 0, 0, 0, 0,
    0, 0, 0, 0, 0, 0, 0, 0, 0, 0, 0, 0, 0, 0, 0, 0, 0, 0, 0, 0, 0, 0, 0, 0, 0, 0, 0, 0, 0, 0, 0, 0,
    0, 0, 0, 0, 0, 0, 0, 0]⟩

namespace ListInItself

def session : Session :=
  ((Session.empty.after (.creation (.opened [listInItself] []))).after
    (.creation (.message []))).after (.query (.root 0))

def view : ListView :=
  .backed ⟨⟨0, 0⟩, 16⟩ 10 .composite ⟨0, 1⟩

theorem reached : Session.Reaches Session.Allows Session.empty session :=
  .tail (.tail (.single ⟨.creation (.opened [listInItself] []), trivial, rfl⟩)
    ⟨.creation (.message []), trivial, rfl⟩) ⟨.query (.root 0), trivial, rfl⟩

theorem held : session.Holds (.list view) :=
  .inr (by decide +kernel)

theorem slots : ∀ i < 10, ((view.member i).pointerAt 0 session.store).toOption =
    some (if i = 0 then .list view else .null) := by decide +kernel

theorem bounded : session.store.Bounded 11 11 (.list view) := by
  refine Bounded.of_closed (fun q => q = .null ∨ q = .list view ∨ q = .struct .absent ∨
    ∃ i, i < 10 ∧ q = .struct (view.member i)) (.inr (.inl rfl)) ?_ ?_
  · rintro q r (rfl | rfl | rfl | ⟨i, hi, rfl⟩) hchild
    · cases hchild
    · cases hchild with
      | element h =>
        cases h
        exact .inl rfl
      | member _ i =>
        by_cases hi : i < 10
        · exact .inr (.inr (.inr ⟨i, hi, rfl⟩))
        · exact .inr (.inr (.inl (by rw [view, ListView.member, if_neg hi])))
    · cases hchild with
      | slot h =>
        cases h
        exact .inl rfl
    · cases hchild with
      | @slot _ j _ h =>
        cases j with
        | zero =>
          have hslot := slots i hi
          rw [h] at hslot
          cases hslot
          split
          · exact .inr (.inl rfl)
          · exact .inl rfl
        | succ j =>
          rw [view, member_eq hi] at h
          cases h
          exact .inl rfl
  · rintro q (rfl | rfl | rfl | ⟨i, hi, rfl⟩)
    · decide
    · decide
    · decide
    · revert i
      decide

end ListInItself

theorem ListInItself.taken : Outcome.failsIn (pointTo (.top 2) (rootSlot 1) (.list view))
    ⟨session.store, 6⟩ (fun t =>
      decide (session.store.total 1 + 8 * (3 * 6 + 2 + 11) < t.store.total 1)) = true := by
  decide +kernel

theorem copy_growth_listInItself :
    let σ := ListInItself.session
    let p := Pointer.list ListInItself.view
    σ.store.Bounded 11 11 p ∧ ∃ e t, pointTo (.top 2) (rootSlot 1) p ⟨σ.store, 6⟩ = .error e t ∧
      t.store.total 1 ≤ σ.store.total 1 + 8 * (3 * 6 + 2 + 11 + (CopyScope.top 2).levels * 11) := by
  intro σ p
  obtain ⟨e, t, hrun, _⟩ := Outcome.failsIn_iff.mp ListInItself.taken
  exact ⟨ListInItself.bounded, e, t, hrun, (copy_growth ListInItself.reached ListInItself.held
    ListInItself.bounded (rootSlot 1) (.top 2) 6).2 e t hrun⟩

/-- Three lists are taken here, one in the other, and each of them has paid for its first member. The
budget and the largest object alone do not bound that. -/
theorem nested_lists_exceed_budget :
    let σ := ListInItself.session
    let p := Pointer.list ListInItself.view
    Session.Reaches Session.Allows Session.empty σ ∧ σ.Holds p ∧
      σ.store.covers (rootSlot 1) 8 = true ∧ (∀ q, σ.store.Reachable p q → q.words ≤ 11) ∧
      ∃ e t, pointTo (.top 2) (rootSlot 1) p ⟨σ.store, 6⟩ = .error e t ∧
        σ.store.total 1 + 8 * (3 * 6 + 2 + 11) < t.store.total 1 := by
  intro σ p
  obtain ⟨e, t, hrun, htotal⟩ := Outcome.failsIn_iff.mp ListInItself.taken
  exact ⟨ListInItself.reached, ListInItself.held, by decide +kernel,
    fun q hq => (ListInItself.bounded q hq).1, e, t, hrun, of_decide_eq_true htotal⟩

end SegmentedMessage
