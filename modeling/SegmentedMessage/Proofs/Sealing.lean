import SegmentedMessage.Proofs.Duplicate
import SegmentedMessage.Proofs.Lasting
import SegmentedMessage.Proofs.Supply

namespace SegmentedMessage

open Store Copy

structure Arena.SameExtent (a b : Arena) : Prop where
  count : b.count = a.count
  length : ∀ i, b.length? i = a.length? i
  allocated : b.allocated = a.allocated

namespace Arena.SameExtent

theorem refl (a : Arena) : SameExtent a a :=
  ⟨rfl, fun _ => rfl, rfl⟩

theorem trans {a b c : Arena} (h : SameExtent a b) (h' : SameExtent b c) : SameExtent a c :=
  ⟨h'.count.trans h.count, fun i => (h'.length i).trans (h.length i),
    h'.allocated.trans h.allocated⟩

end Arena.SameExtent

namespace Store

variable {s t : Store} {m : Nat}

/-- If the message was sealed, it still is, and nothing has been added to it. -/
def Frozen (m : Nat) (s t : Store) : Prop :=
  m < s.messages.size → (s.message m).isSealed = true →
    m < t.messages.size ∧ (t.message m).isSealed = true ∧
      (s.message m).arena.SameExtent (t.message m).arena

theorem Frozen.of_message (hsize : s.messages.size ≤ t.messages.size)
    (h : m < s.messages.size → t.message m = s.message m) : Frozen m s t := by
  intro hm hs
  rw [h hm]
  exact ⟨Nat.lt_of_lt_of_le hm hsize, hs, .refl _⟩

theorem Frozen.refl (m : Nat) (s : Store) : Frozen m s s :=
  .of_message (Nat.le_refl _) fun _ => rfl

theorem Frozen.trans {u : Store} (h : Frozen m s t) (h' : Frozen m t u) : Frozen m s u := by
  intro hm hs
  obtain ⟨hmt, hst, hext⟩ := h hm hs
  obtain ⟨hmu, hsu, hext'⟩ := h' hmt hst
  exact ⟨hmu, hsu, hext.trans hext'⟩

theorem frozen_withArena {k : Nat} {a : Arena} (h : (s.message k).arena.SameExtent a) :
    Frozen m s (s.withArena k a) := by
  intro hm hs
  have hsize : m < (s.withArena k a).messages.size := by
    rwa [size_withArena]
  refine ⟨hsize, ?_⟩
  by_cases hk : m = k
  · subst hk
    rw [message_withArena_self a hm]
    exact ⟨hs, h⟩
  · rw [message_withArena_ne a hk]
    exact ⟨hs, .refl _⟩

theorem frozen_of_open {k : Nat} (a : Arena) (ho : (s.message k).isSealed = false) :
    Frozen m s (s.withArena k a) := by
  intro hm hs
  have hk : m ≠ k := by
    rintro rfl
    rw [hs] at ho
    cases ho
  exact Frozen.of_message (Nat.le_of_eq (size_withArena s k a).symm)
    (fun _ => message_withArena_ne a hk) hm hs

theorem paste_frozen (l : Location) (src : ByteArray) : Respects id (Frozen m) (paste l src) := by
  intro s
  apply outcome_onArena
  rw [Outcome.iff_results]
  constructor
  · intro _ b hb
    obtain ⟨hc, rfl⟩ := Arena.paste_ok.mp hb
    exact frozen_withArena
      ⟨Arena.count_overwrite _ _ _ _, fun i => Arena.length?_overwrite hc i, rfl⟩
  · intro e b hb
    obtain ⟨_, _, rfl⟩ := Arena.paste_error.mp hb
    exact frozen_withArena (.refl _)

theorem onArena_frozen {ε α : Type} {k : Nat} {abort : ε → Abort} {act : EStateM ε Arena α}
    (ho : (s.message k).isSealed = false) :
    Outcome (onArena k abort act) s (fun _ t => Frozen m s t) fun _ t => Frozen m s t :=
  outcome_onArena (Outcome.iff_results.mpr
    ⟨fun _ b _ => frozen_of_open b ho, fun _ b _ => frozen_of_open b ho⟩)

theorem allocate_frozen (r : SegmentRef) (n : Nat) : Respects id (Frozen m) (allocate r n) :=
  fun s => outcome_whenOpen (fun _ => .refl m s)
    fun ho => (onArena_frozen ho).bind fun _ _ ht => Outcome.pure ht

theorem allocateHere_frozen (r : SegmentRef) (n : Nat) :
    Respects id (Frozen m) (allocateHere r n) :=
  fun s => outcome_whenOpen (fun _ => .refl m s)
    fun ho => (onArena_frozen ho).bind fun _ _ ht => Outcome.pure ht

theorem sealed_frozen (s : Store) (m k : Nat) :
    Frozen m s (s.setMessage k { s.message k with isSealed := true }) := by
  intro hm hs
  refine ⟨by rwa [size_setMessage], ?_⟩
  by_cases hk : k = m
  · subst hk
    rw [message_setMessage_self _ hm]
    exact ⟨rfl, .refl _⟩
  · rw [message_setMessage_ne _ hk]
    exact ⟨hs, .refl _⟩

theorem push_frozen (s : Store) (m : Nat) (x : Message) : Frozen m s (s.push x) := by
  refine .of_message ?_ fun hm => ?_
  · rw [push, Array.size_push]
    exact Nat.le_succ _
  · rw [message_push, if_neg (Nat.ne_of_lt hm)]

theorem frozen_lasting (m : Nat) : Lasting (Frozen m) where
  refl := .refl m
  trans := .trans
  paste := paste_frozen
  allocate := allocate_frozen
  allocateHere := allocateHere_frozen
  sealed s k := sealed_frozen s m k
  push s x _ := push_frozen s m x

end Store

theorem Outcome.of_refusal {σ α : Type} {act : EStateM Abort σ α} {s : σ} {e : Abort}
    (h : act s = .error e s) : Outcome act s (fun _ _ => False) fun f t => t = s ∧ f = e := by
  unfold Outcome
  rw [h]
  exact ⟨rfl, rfl⟩

def Rejects {α : Type} (act : StoreM α) (s : Store) : Prop :=
  ∃ e, act s = .error e s

namespace Rejects

variable {α β : Type} {act : StoreM α} {s : Store}

theorem throw (e : Abort) (s : Store) : Rejects (MonadExcept.throw e : StoreM α) s :=
  ⟨e, rfl⟩

theorem bind (h : Rejects act s) (f : α → StoreM β) : Rejects (act >>= f) s := by
  obtain ⟨e, he⟩ := h
  refine ⟨e, ?_⟩
  simp only [Bind.bind, EStateM.bind, he]

theorem map (h : Rejects act s) (f : α → β) : Rejects (f <$> act) s := by
  rw [map_eq_pure_bind]
  exact h.bind _

end Rejects

section Refusals

variable {s : Store} {r : SegmentRef} {m : Nat}

theorem allocate_sealed (h : (s.message r.message).isSealed = true) (n : Nat) :
    allocate r n s = .error (.failure .isSealed) s :=
  if_pos h

theorem allocateHere_sealed (h : (s.message r.message).isSealed = true) (n : Nat) :
    allocateHere r n s = .error (.failure .isSealed) s :=
  if_pos h

theorem assignRoot_sealed (h : (s.message m).isSealed = true) (p : Pointer) :
    assignRoot m p s = .error (.failure .isSealed) s :=
  if_pos h

theorem allocateStruct_rejects (h : (s.message r.message).isSealed = true) (shape : StructShape) :
    Rejects (StructView.allocate r shape) s := by
  unfold StructView.allocate
  split
  · exact Rejects.bind ⟨_, allocate_sealed h _⟩ _
  · exact .throw _ s

theorem allocateList_rejects (h : (s.message r.message).isSealed = true) (elem : ElementKind)
    (len : Nat) : Rejects (ListView.allocate r elem len) s := by
  unfold ListView.allocate
  split
  · exact .throw _ s
  · split
    · exact .throw _ s
    · exact Rejects.bind ⟨_, allocate_sealed h _⟩ _

theorem allocateComposite_rejects (h : (s.message r.message).isSealed = true)
    (shape : StructShape) (len : Nat) : Rejects (ListView.allocateComposite r shape len) s := by
  unfold ListView.allocateComposite
  split
  · exact .throw _ s
  · split
    · exact .throw _ s
    · exact Rejects.bind ⟨_, allocate_sealed h _⟩ _

def Creation.In (m : Nat) : Creation → Prop
  | .bytes r _ | .bytesHere r _ | .struct r _ | .root r _ | .list r _ _ | .composite r _ _ =>
    r.message = m
  | _ => False

theorem creation_rejects {c : Creation} (hc : c.In m) (h : (s.message m).isSealed = true) :
    Rejects c.run s := by
  cases c with
  | message opts => exact hc.elim
  | opened bufs opts => exact hc.elim
  | bytes r n =>
      subst hc
      exact Rejects.bind ⟨_, allocate_sealed h n⟩ _
  | bytesHere r n =>
      subst hc
      exact Rejects.bind ⟨_, allocateHere_sealed h n⟩ _
  | struct r shape =>
      subst hc
      exact (allocateStruct_rejects h shape).map _
  | root r shape =>
      subst hc
      exact ((allocateStruct_rejects h shape).bind _).map _
  | list r elem len =>
      subst hc
      exact (allocateList_rejects h elem len).map _
  | composite r shape len =>
      subst hc
      exact (allocateComposite_rejects h shape len).map _

end Refusals

/-- A pointer that a slot can take without room for anything new. -/
def Pointer.Stays (slot : Location) : Pointer → Prop
  | .struct (.backed loc shape member) =>
    shape.isEmpty = true ∨ member = false ∧ loc.segment = slot.segment
  | .list (.backed loc _ _ _) => loc.segment = slot.segment
  | _ => True

def Pointer.IsForeignList (slot : Location) : Pointer → Prop
  | .list (.backed loc _ _ _) => loc.segment.message ≠ slot.segment.message
  | _ => False

section Slots

variable {s : Store} {slot : Location} {deeper : Writer} {budget : Nat}

theorem link_sealed {target : Location} (w : PointerWord) (hslot : s.covers slot 8 = true)
    (h : (s.message target.segment.message).isSealed = true) :
    Outcome (link slot target w) s (fun _ _ => target.segment = slot.segment)
      fun e t => t = s ∧ target.segment ≠ slot.segment ∧ e = .failure .isSealed := by
  unfold link
  split
  · rename_i hseg
    exact (writeWord_succeeds hslot _).mono (fun _ _ _ => hseg) fun _ _ hf => hf.elim
  · rename_i hseg
    exact Outcome.bind_of (.of_refusal (allocateHere_sealed h 8))
      (fun _ _ he => ⟨he.1, hseg, he.2⟩) fun _ _ hf => hf.elim

theorem linkList_sealed {v : ListView} {loc : Location} (hv : s.Valid) (hin : v.Inside s)
    (hloc : v.loc? = some loc) (hslot : s.covers slot 8 = true)
    (h : (s.message loc.segment.message).isSealed = true) :
    Outcome (linkList slot v) s (fun _ _ => loc.segment = slot.segment)
      fun e t => t = s ∧ loc.segment ≠ slot.segment ∧ e = .failure .isSealed := by
  unfold linkList
  split
  · rename_i target htarget
    obtain ⟨l, hl, hseg⟩ := ListView.start?_segment htarget
    obtain rfl : loc = l := Option.some.inj (hloc.symm.trans hl)
    rw [if_pos (hin.measurable hv), ← hseg]
    exact link_sealed v.word hslot (by rwa [hseg])
  · rename_i hnone
    cases v with
    | absent => cases hloc
    | backed l len elem shape => cases elem <;> cases hnone

theorem ListView.Inside.fits {loc : Location} {len : Nat} {shape : StructShape} (hv : s.Valid)
    (h : (ListView.backed loc len .composite shape).Inside s) :
    shape.isEncodable = true ∧ compositeFits shape.roundUp len = true := by
  obtain ⟨hr, hlen, tag, -, hc⟩ := h
  have hsize := covers_fits hv hc
  have hbytes := hr.composite_bytes len
  refine ⟨(StructShape.isEncodable_iff shape).mpr hr.2, ?_⟩
  rw [hr.roundUp_eq]
  simp only [compositeFits, decide_eq_true_eq]
  simp only [largestSegment, longestList] at hsize hlen ⊢
  omega

theorem allocateList_sealed {r : SegmentRef} {elem : ElementKind} {len : Nat}
    (h : (s.message r.message).isSealed = true) (hne : elem ≠ .composite)
    (hlen : len ≤ longestList) (hsize : elem.bytesFor len ≤ largestSegment) :
    ListView.allocate r elem len s = .error (.failure .isSealed) s := by
  have hfits : ¬ (longestList < len ∨ 0x100000000 ≤ elem.bytesFor len) := by
    rw [largestSegment] at hsize
    omega
  rw [ListView.allocate, if_neg hne, if_neg hfits]
  simp only [Bind.bind, EStateM.bind, allocate_sealed h]

theorem allocateComposite_sealed {r : SegmentRef} {shape : StructShape} {len : Nat}
    (h : (s.message r.message).isSealed = true) (henc : shape.isEncodable = true)
    (hfits : ListView.compositeFits shape.roundUp len = true) :
    ListView.allocateComposite r shape len s = .error (.failure .isSealed) s := by
  rw [ListView.allocateComposite, henc, hfits]
  simp only [ListView.allocateTagged, Bind.bind, EStateM.bind, allocate_sealed h, Bool.not_true,
    Bool.false_eq_true, if_false]

theorem charged_sealed {α β : Type} {allocate : StoreM α} {st : CopyState} (words : Nat)
    (f : α → CopyM β) (h : allocate st.store = .error (.failure .isSealed) st.store) :
    Outcome (do spend words; let a ← onStore allocate; f a) st (fun _ _ => False)
      fun e t => t.store = st.store ∧ (e = .failure .isSealed ∨ e = .failure .overBudget) :=
  outcome_charged (.of_refusal h) (fun _ ht => ⟨ht, .inr rfl⟩) (fun _ _ he => ⟨he.1, .inl he.2⟩)
    fun _ _ hf => hf.elim

theorem cloneListWith_sealed {r : SegmentRef} {loc : Location} {len : Nat} {elem : ElementKind}
    {shape : StructShape} {st : CopyState} (hv : st.store.Valid)
    (hin : (ListView.backed loc len elem shape).Inside st.store)
    (h : (st.store.message r.message).isSealed = true) :
    Outcome (cloneListWith deeper r (.backed loc len elem shape)) st (fun _ _ => False)
      fun e t => t.store = st.store ∧ (e = .failure .isSealed ∨ e = .failure .overBudget) := by
  have hplain (hne : elem ≠ .composite) :
      ListView.allocate r elem len st.store = .error (.failure .isSealed) st.store :=
    allocateList_sealed h hne hin.length_le (covers_fits hv (hin.plain hne))
  by_cases hcomp : elem = .composite
  · subst hcomp
    obtain ⟨henc, hfits⟩ := hin.fits hv
    exact charged_sealed 1 _ (allocateComposite_sealed h henc hfits)
  · by_cases hptr : elem = .pointer
    · subst hptr
      exact charged_sealed _ _ (hplain hcomp)
    · rw [cloneListWith_plain hcomp hptr]
      exact charged_sealed _ _ (hplain hcomp)

def Settles (act : CopyM Unit) (slot : Location) (p : Pointer) (st : CopyState) : Prop :=
  Outcome act st (fun _ _ => p.Stays slot) fun e t => t.store = st.store ∧ ¬ p.Stays slot ∧
    (e = .failure .isSealed ∨ e = .failure .overBudget ∧ p.IsForeignList slot)

theorem writeWord_settles (p : Pointer) {st : CopyState} (hslot : st.store.covers slot 8 = true)
    (hp : p.Stays slot) (w : PointerWord) : Settles (onStore (writeWord slot w)) slot p st :=
  (outcome_onStore (writeWord_succeeds hslot w)).mono (fun _ _ _ => hp) fun _ _ he => he.1.elim

theorem writeStruct_settles {loc : Location} {shape : StructShape} {member : Bool} {st : CopyState}
    (hslot : st.store.covers slot 8 = true)
    (h : (st.store.message slot.segment.message).isSealed = true) :
    Settles (writeStructWith deeper slot loc shape member) slot
      (.struct (.backed loc shape member)) st := by
  unfold writeStructWith
  split
  · rename_i hempty
    exact writeWord_settles (.struct (.backed loc shape member)) hslot (.inl hempty) _
  · rename_i hempty
    split
    · rename_i hplace
      obtain ⟨hmsg, hmember⟩ := hplace
      rw [← hmsg] at h
      refine (outcome_onStore (link_sealed _ hslot h)).mono ?_ ?_
      · exact fun _ _ ht => .inr ⟨hmember, ht.1⟩
      · rintro e t ⟨⟨ht, hseg, he⟩, -⟩
        exact ⟨ht, fun hs => hs.elim hempty fun hs => hseg hs.2, .inl he⟩
    · rename_i hplace
      have hstays : ¬ Pointer.Stays slot (.struct (.backed loc shape member)) := by
        rintro (hs | ⟨hmember, hseg⟩)
        · exact hempty hs
        · exact hplace ⟨congrArg SegmentRef.message hseg, hmember⟩
      exact Outcome.bind_of (outcome_onStore (.of_refusal (allocate_sealed h shape.bytes)))
        (fun _ _ he => ⟨he.1.1, hstays, .inl he.1.2⟩) fun _ _ hf => hf.1.elim

theorem writeList_settles {loc : Location} {len : Nat} {elem : ElementKind} {shape : StructShape}
    {st : CopyState} (hv : st.store.Valid)
    (hin : (ListView.backed loc len elem shape).Inside st.store)
    (hslot : st.store.covers slot 8 = true)
    (h : (st.store.message slot.segment.message).isSealed = true) :
    Settles (writeListWith deeper slot loc (.backed loc len elem shape)) slot
      (.list (.backed loc len elem shape)) st := by
  unfold writeListWith
  split
  · rename_i hmsg
    rw [← hmsg] at h
    refine (outcome_onStore (linkList_sealed hv hin rfl hslot h)).mono (fun _ _ ht => ht.1) ?_
    rintro e t ⟨⟨ht, hseg, he⟩, -⟩
    exact ⟨ht, hseg, .inl he⟩
  · rename_i hmsg
    have hstays : loc.segment ≠ slot.segment := fun hseg => hmsg (congrArg SegmentRef.message hseg)
    refine Outcome.bind_of (cloneListWith_sealed hv hin h) ?_ fun _ _ hf => hf.elim
    rintro e t ⟨ht, he⟩
    exact ⟨ht, hstays, he.imp_right fun he => ⟨he, hmsg⟩⟩

theorem pointTo_settles (st : CopyState) (c : CopyScope) {p : Pointer} (hv : st.store.Valid)
    (hp : p.Inside st.store) (hslot : st.store.covers slot 8 = true)
    (h : (st.store.message slot.segment.message).isSealed = true) :
    Settles (pointTo c slot p) slot p st := by
  cases p with
  | null => exact writeWord_settles .null hslot trivial _
  | capability i => exact writeWord_settles (.capability i) hslot trivial _
  | struct v =>
      cases v with
      | absent => exact writeWord_settles (.struct .absent) hslot trivial _
      | backed loc shape member => exact writeStruct_settles hslot h
  | list v =>
      cases v with
      | absent => exact writeWord_settles (.list .absent) hslot trivial _
      | backed loc len elem shape => exact writeList_settles hv hp hslot h

inductive Assigns (slot : Location) (p : Pointer) : StoreM Unit → Prop where
  | pointTo (c : CopyScope) (budget : Nat) :
      Assigns slot p (withBudget budget (SegmentedMessage.pointTo c slot p))
  | field {v : StructView} {i : Nat} (h : v.slot? i = some slot) :
      Assigns slot p (v.assignSlot i p)
  | element {v : ListView} {i : Nat} (h : v.slot? i = some slot) :
      Assigns slot p (v.assignSlot i p)

theorem assigns_settles {p : Pointer} {act : StoreM Unit} (ha : Assigns slot p act) (hv : s.Valid)
    (hp : p.Inside s) (hslot : s.covers slot 8 = true)
    (h : (s.message slot.segment.message).isSealed = true) :
    Outcome act s (fun _ _ => p.Stays slot) fun e t => t = s ∧ ¬ p.Stays slot ∧
      (e = .failure .isSealed ∨ e = .failure .overBudget ∧ p.IsForeignList slot) := by
  have hassign : Outcome (assign slot p) s (fun _ _ => p.Stays slot) fun e t =>
      t = s ∧ ¬ p.Stays slot ∧
        (e = .failure .isSealed ∨ e = .failure .overBudget ∧ p.IsForeignList slot) :=
    outcome_withinLimits (pointTo_settles ⟨s, _⟩ _ hv hp hslot h)
  cases ha with
  | pointTo c budget => exact outcome_withBudget (pointTo_settles ⟨s, budget⟩ c hv hp hslot h)
  | field hi => rwa [StructView.assignSlot, hi]
  | element hi => rwa [ListView.assignSlot, hi]

end Slots

open Session in
/-- After it has been sealed, a message keeps its extent through every run of calls and refuses all
room; its slots take a pointer just when that pointer can stay where it is. -/
theorem sealing_permanent {σ : Session} {m : Nat} (hm : m < σ.store.messages.size) :
    (∀ τ, Reaches (fun _ _ => True) (σ.after (.edit (.sealMessage m))) τ →
      (τ.store.message m).isSealed = true ∧
      (σ.store.message m).arena.SameExtent (τ.store.message m).arena ∧
      (∀ c : Creation, c.In m → Rejects c.run τ.store) ∧
      ∀ p, assignRoot m p τ.store = .error (.failure .isSealed) τ.store) ∧
    (Reaches Allows empty σ → ∀ τ, Reaches Allows (σ.after (.edit (.sealMessage m))) τ →
      ∀ slot p, slot.segment.message = m → τ.store.covers slot 8 = true → τ.Holds p →
      ∀ act, Assigns slot p act →
        ((∃ t, act τ.store = .ok () t) ↔ p.Stays slot) ∧
        ∀ e t, act τ.store = .error e t → t = τ.store ∧
          (e = .failure .isSealed ∨ e = .failure .overBudget ∧ p.IsForeignList slot)) := by
  have hstore : (σ.after (.edit (.sealMessage m))).store =
      σ.store.setMessage m { σ.store.message m with isSealed := true } := rfl
  have hfrozen {rule : Session → Call → Prop} {τ : Session}
      (hτ : Reaches rule (σ.after (.edit (.sealMessage m))) τ) :
      (τ.store.message m).isSealed = true ∧
        (σ.store.message m).arena.SameExtent (τ.store.message m).arena := by
    have hfz := (frozen_lasting m).reaches hτ
    rw [hstore] at hfz
    obtain ⟨-, hs, hext⟩ := hfz (by rwa [size_setMessage]) (by rw [message_setMessage_self _ hm])
    rw [message_setMessage_self _ hm] at hext
    exact ⟨hs, hext⟩
  refine ⟨fun τ hτ => ?_, fun hσ τ hτ slot p hslot hcov hp act hact => ?_⟩
  · obtain ⟨hs, hext⟩ := hfrozen hτ
    exact ⟨hs, hext, fun c hc => creation_rejects hc hs, fun p => assignRoot_sealed hs p⟩
  · have hall : Reaches Allows empty τ := (hσ.tail ⟨.edit (.sealMessage m), trivial, rfl⟩).trans hτ
    have hsafe : τ.Safe := hall.safe safe_empty
    have hs := (hfrozen hτ).1
    rw [← hslot] at hs
    have hact := assigns_settles hact hsafe.valid (hsafe.holds hp) hcov hs
    refine ⟨⟨?_, fun hstays => ?_⟩, fun e t he => ?_⟩
    · rintro ⟨t, ht⟩
      exact hact.of_ok ht
    · cases hr : act τ.store with
      | ok u t => exact ⟨t, rfl⟩
      | error e t => exact absurd hstays (hact.of_error hr).2.1
    · obtain ⟨ht, -, he⟩ := hact.of_error he
      exact ⟨ht, he⟩

/-- The root word of the sealed message takes the null pointer, but no list of another message. -/
theorem sealing_permanent_foreignList :
    let σ := ((Session.empty.after (.creation (.message []))).after (.creation (.opened
      [⟨#[1, 0, 0, 0, 26, 0, 0, 0, 7, 8, 9, 0, 0, 0, 0, 0]⟩] []))).after (.query (.root 1))
    let τ := σ.after (.edit (.sealMessage 0))
    let p := Pointer.list (.backed ⟨⟨1, 0⟩, 8⟩ 3 .bits8 .empty)
    Session.Reaches Session.Allows Session.empty σ ∧ p ∈ σ.views ∧
      (τ.store.message 0).isSealed = true ∧
      assignRoot 0 p τ.store = .error (.failure .isSealed) τ.store ∧
      (∃ t, withBudget 9 (pointTo (.top 4) (rootSlot 0) .null) τ.store = .ok () t) ∧
      ¬ ∃ t, withBudget 9 (pointTo (.top 4) (rootSlot 0) p) τ.store = .ok () t := by
  intro σ τ p
  have hσ : Session.Reaches Session.Allows Session.empty σ := by
    refine .tail (.tail (.single ⟨.creation (.message []), trivial, rfl⟩) ?_)
      ⟨.query (.root 1), trivial, rfl⟩
    exact ⟨.creation (.opened [⟨#[1, 0, 0, 0, 26, 0, 0, 0, 7, 8, 9, 0, 0, 0, 0, 0]⟩] []),
      trivial, rfl⟩
  have hp : p ∈ σ.views := by decide
  have hheld : τ.Holds p := .inr (List.mem_cons_of_mem _ hp)
  have hslot : τ.store.covers (rootSlot 0) 8 = true := by decide
  obtain ⟨hrun, hslots⟩ := sealing_permanent (show 0 < σ.store.messages.size by decide)
  obtain ⟨hs, -, -, hroot⟩ := hrun τ .refl
  have hnull := hslots hσ τ .refl (rootSlot 0) .null rfl hslot (.inl rfl) _ (.pointTo (.top 4) 9)
  have hlist := hslots hσ τ .refl (rootSlot 0) p rfl hslot hheld _ (.pointTo (.top 4) 9)
  refine ⟨hσ, hp, hs, hroot p, hnull.1.mpr trivial, fun ht => ?_⟩
  have hstays : (⟨1, 0⟩ : SegmentRef) = ⟨0, 0⟩ := hlist.1.mp ht
  exact absurd hstays (by decide)

end SegmentedMessage
