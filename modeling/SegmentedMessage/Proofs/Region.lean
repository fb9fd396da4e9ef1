import SegmentedMessage.Proofs.Allocation
import SegmentedMessage.View.Elements
import SegmentedMessage.View.Fields

namespace SegmentedMessage

section Answers

variable {ε α β : Type}

def Answers (x : Except ε α) (P : α → Prop) (E : ε → Prop) : Prop :=
  match x with
  | .ok a => P a
  | .error e => E e

namespace Answers

variable {x : Except ε α} {P Q : α → Prop} {E F : ε → Prop}

theorem of_ok {a : α} (h : Answers x P E) (hx : x = .ok a) : P a := by
  rw [hx] at h
  exact h

theorem of_error {e : ε} (h : Answers x P E) (hx : x = .error e) : E e := by
  rw [hx] at h
  exact h

theorem bind {f : α → Except ε β} {R : β → Prop} (h : Answers x P E)
    (hf : ∀ a, P a → Answers (f a) R E) : Answers (x >>= f) R E := by
  cases x with
  | ok a => exact hf a h
  | error e => exact h

theorem map {f : α → β} {R : β → Prop} (h : Answers x P E) (hf : ∀ a, P a → R (f a)) :
    Answers (f <$> x) R E := by
  cases x with
  | ok a => exact hf a h
  | error e => exact h

theorem mono (h : Answers x P E) (hP : ∀ a, P a → Q a) (hE : ∀ e, E e → F e) :
    Answers x Q F := by
  cases x with
  | ok a => exact hP a h
  | error e => exact hE e h

end Answers

end Answers

def StructShape.Regular (shape : StructShape) : Prop :=
  shape.data % 8 = 0 ∧ shape.data ≤ StructShape.longestData

theorem StructShape.regular_roundUp {shape : StructShape} (h : shape.isEncodable = true) :
    shape.roundUp.Regular :=
  ⟨shape.roundUp_data_mod, (isEncodable_iff _).mp (roundUp_encodable h)⟩

theorem StructShape.Regular.roundUp_eq {shape : StructShape} (h : shape.Regular) :
    shape.roundUp = shape := by
  rw [roundUp, Layout.roundUp_of_aligned h.1]

theorem StructShape.Regular.bytes_mod {shape : StructShape} (h : shape.Regular) :
    shape.bytes % 8 = 0 :=
  StructShape.bytes_mod h.1

theorem StructShape.Regular.mul_bytes_mod {shape : StructShape} (h : shape.Regular) (n : Nat) :
    n * shape.bytes % 8 = 0 := by
  rw [Nat.mul_mod, h.bytes_mod, Nat.mul_zero, Nat.zero_mod]

theorem StructShape.mul_bytes_le (shape : StructShape) {i len : Nat} (hi : i < len) :
    i * shape.bytes + shape.bytes ≤ len * shape.bytes := by
  rw [← Nat.succ_mul]
  exact Nat.mul_le_mul_right _ hi

theorem PointerWord.regular_shape (w : PointerWord) : w.shape.Regular := by
  constructor
  · simp only [shape]
    omega
  · simp only [shape, StructShape.longestData]
    omega

def StructView.Inside (s : Store) : StructView → Prop
  | .absent => True
  | .backed loc shape _ => shape.Regular ∧ s.covers loc shape.bytes = true

/-- The region of a composite list begins with its tag. -/
def ListView.Inside (s : Store) : ListView → Prop
  | .absent => True
  | .backed loc len .composite shape => shape.Regular ∧ len ≤ longestList ∧
      ∃ tag, loc = Location.shift tag 8 ∧ s.covers tag (8 + len * shape.bytes) = true
  | .backed loc len elem _ => len ≤ longestList ∧ s.covers loc (elem.bytesFor len) = true

def Pointer.Inside (s : Store) : Pointer → Prop
  | .struct v => v.Inside s
  | .list v => v.Inside s
  | _ => True

def Pointer.In (m : Nat) (p : Pointer) : Prop :=
  ∀ l, p.loc? = some l → l.segment.message = m

def Pointer.isMember : Pointer → Bool
  | .struct v => v.isMember
  | _ => false

open Store

section Growth

variable {m : Nat} {free : Location → Prop} {s t : Store}

theorem StructView.Inside.retained {v : StructView} (h : s.Retains t) (hv : v.Inside s) :
    v.Inside t := by
  cases v with
  | absent => trivial
  | backed loc shape member => exact ⟨hv.1, h.covers hv.2⟩

theorem ListView.Inside.retained {v : ListView} (h : s.Retains t) (hv : v.Inside s) :
    v.Inside t := by
  cases v with
  | absent => trivial
  | backed loc len elem shape =>
      cases elem with
      | composite =>
          obtain ⟨hr, hlen, tag, hloc, hc⟩ := hv
          exact ⟨hr, hlen, tag, hloc, h.covers hc⟩
      | _ => exact ⟨hv.1, h.covers hv.2⟩

theorem Pointer.Inside.retained {p : Pointer} (h : s.Retains t) (hp : p.Inside s) :
    p.Inside t := by
  cases p with
  | null => trivial
  | capability i => trivial
  | struct v => exact StructView.Inside.retained h hp
  | list v => exact ListView.Inside.retained h hp

theorem StructView.Inside.mono {v : StructView} (h : s.Extends m free t) (hv : v.Inside s) :
    v.Inside t :=
  hv.retained h.retains

theorem ListView.Inside.mono {v : ListView} (h : s.Extends m free t) (hv : v.Inside s) :
    v.Inside t :=
  hv.retained h.retains

theorem Pointer.inside_of_absent {p : Pointer} (h : p.loc? = none) (s : Store) : p.Inside s := by
  cases p with
  | null => trivial
  | capability i => trivial
  | struct v =>
      cases v with
      | absent => trivial
      | backed loc shape member => cases h
  | list v =>
      cases v with
      | absent => trivial
      | backed loc len elem shape => cases h

end Growth

theorem StructView.Inside.data {s : Store} {v : StructView} (h : v.Inside s) {l : Location}
    (hl : v.loc? = some l) : s.covers l v.shape.data = true := by
  cases v with
  | absent => cases hl
  | backed loc shape member =>
      cases hl
      exact covers_take h.2 (Nat.le_add_right _ _)

theorem ListView.Inside.content {s : Store} {v : ListView} (h : v.Inside s) {l : Location}
    (hl : v.loc? = some l) : s.covers l v.contentSize = true := by
  cases v with
  | absent => cases hl
  | backed loc len elem shape =>
      cases hl
      cases elem with
      | composite =>
          obtain ⟨_, _, tag, rfl, hc⟩ := h
          exact covers_shift hc (Nat.le_refl _)
      | _ => exact h.2

theorem ListView.Inside.member {s : Store} {v : ListView} (h : v.Inside s) (i : Nat) :
    (v.member i).Inside s := by
  unfold ListView.member
  split
  · rename_i loc len shape
    split
    · rename_i hi
      obtain ⟨hr, _, tag, rfl, hc⟩ := h
      have hle := shape.mul_bytes_le hi
      exact ⟨hr, covers_shift (covers_shift hc (Nat.le_refl _)) hle⟩
    · trivial
  · trivial

theorem ListView.member_segment (v : ListView) {i : Nat} {l : Location}
    (hl : (v.member i).loc? = some l) : ∃ loc, v.loc? = some loc ∧ l.segment = loc.segment := by
  unfold ListView.member at hl
  split at hl
  · split at hl
    · cases hl
      exact ⟨_, rfl, rfl⟩
    · cases hl
  · cases hl

theorem StructView.Inside.slot {s : Store} {v : StructView} (h : v.Inside s) {i : Nat}
    {l : Location} (hl : v.slot? i = some l) : s.covers l 8 = true := by
  obtain ⟨loc, shape, member, rfl, hi, rfl⟩ := StructView.slot?_eq_some.mp hl
  refine covers_shift h.2 ?_
  simp only [StructShape.bytes, StructShape.slotBytes]
  omega

theorem StructView.Inside.field {s : Store} {v : StructView} (h : v.Inside s) {off n : Nat}
    {l : Location} (hl : v.field? off n = some l) : s.covers l n = true := by
  obtain ⟨loc, shape, member, rfl, hoff, rfl⟩ := StructView.field?_eq_some.mp hl
  exact covers_shift h.2 (Nat.le_add_right_of_le hoff)

theorem StructView.exists_slot (v : StructView) {i : Nat} (hi : i < v.shape.slots.toNat) :
    ∃ l, v.slot? i = some l := by
  cases v with
  | absent => exact absurd hi (Nat.not_lt_zero i)
  | backed loc shape member => exact ⟨_, if_pos hi⟩

theorem StructView.pointerAt_of_slot {v : StructView} {i : Nat} {l : Location}
    (hl : v.slot? i = some l) (s : Store) : v.pointerAt i s = s.pointerAt l := by
  rw [pointerAt, hl]

theorem ElementKind.pitch_le (elem : ElementKind) {i len : Nat} (hi : i < len) :
    i * (elem.bits / 8) + elem.bits / 8 ≤ elem.bytesFor len := by
  have hmul : (i + 1) * (elem.bits / 8) ≤ len * (elem.bits / 8) := Nat.mul_le_mul_right _ hi
  have hbits := elem.bits_le_bytesFor len
  have hdiv : len * (elem.bits / 8) * 8 ≤ elem.bits * len := by
    rw [Nat.mul_assoc, Nat.mul_comm elem.bits len]
    exact Nat.mul_le_mul_left len (Nat.div_mul_le_self _ _)
  rw [Nat.succ_mul] at hmul
  omega

theorem ElementKind.bytesFor_pointer (len : Nat) : ElementKind.pointer.bytesFor len = len * 8 := by
  simp only [bytesFor, bits]
  omega

theorem ListView.slot?_eq_some {v : ListView} {i : Nat} {l : Location} :
    v.slot? i = some l ↔ ∃ loc len shape, v = .backed loc len .pointer shape ∧ i < len ∧
      l = loc.shift (i * 8) := by
  unfold ListView.slot?
  split
  · rename_i loc len shape
    split
    · rename_i hi
      constructor
      · intro h
        cases h
        exact ⟨loc, len, shape, rfl, hi, rfl⟩
      · rintro ⟨_, _, _, h, _, rfl⟩
        cases h
        rfl
    · rename_i hi
      constructor
      · intro h
        cases h
      · rintro ⟨_, _, _, h, hlt, _⟩
        cases h
        exact absurd hlt hi
  · rename_i hne
    constructor
    · intro h
      cases h
    · rintro ⟨loc, len, shape, h, _⟩
      exact absurd h (hne loc len shape)

theorem ListView.Inside.slot {s : Store} {v : ListView} (h : v.Inside s) {i : Nat}
    {l : Location} (hl : v.slot? i = some l) : s.covers l 8 = true := by
  obtain ⟨loc, len, shape, rfl, hi, rfl⟩ := ListView.slot?_eq_some.mp hl
  have hc := h.2
  rw [ElementKind.bytesFor_pointer] at hc
  exact covers_shift hc (by omega)

theorem ListView.element?_eq_some {v : ListView} {i n : Nat} {l : Location}
    (hl : v.element? i n = some l) : ∃ loc len elem shape, v = .backed loc len elem shape ∧
      ((elem = .composite ∧ i < len ∧ n ≤ shape.data ∧ l = loc.shift (i * shape.bytes)) ∨
        (elem ≠ .composite ∧ (elem = .pointer → n = 0) ∧
          ∃ off, off + n ≤ elem.bytesFor len ∧ l = loc.shift off)) := by
  unfold ListView.element? at hl
  cases v with
  | absent => cases hl
  | backed loc len elem shape =>
      simp only [loc?] at hl
      split at hl
      case isFalse => cases hl
      rename_i hin
      obtain ⟨hi, hn⟩ := hin
      change i < len at hi
      obtain rfl := Option.some.inj hl
      refine ⟨loc, len, elem, shape, rfl, ?_⟩
      have plain (hne : elem ≠ .composite) (hp : elem = .pointer → n = 0)
          (hd : n ≤ elem.bits / 8) : elem ≠ .composite ∧ (elem = .pointer → n = 0) ∧
            ∃ off, off + n ≤ elem.bytesFor len ∧
              loc.shift (i * (elem.bits / 8)) = loc.shift off := by
        have hpitch := elem.pitch_le hi
        exact ⟨hne, hp, i * (elem.bits / 8), by omega, rfl⟩
      cases elem with
      | composite => exact .inl ⟨rfl, hi, hn, rfl⟩
      | pointer =>
          have hzero : n = 0 := Nat.le_zero.mp hn
          exact .inr (plain (fun he => nomatch he) (fun _ => hzero) (by omega))
      | _ => exact .inr (plain (fun he => nomatch he) (fun he => nomatch he) hn)

theorem ListView.bit?_eq_some {v : ListView} {i : Nat} {l : Location} (hl : v.bit? i = some l) :
    ∃ loc len shape off, v = .backed loc len .bit shape ∧ off + 1 ≤ ElementKind.bit.bytesFor len ∧
      l = loc.shift off := by
  unfold ListView.bit? at hl
  split at hl
  · rename_i loc len shape
    split at hl
    · cases hl
      refine ⟨loc, len, shape, _, rfl, ?_, rfl⟩
      simp only [Layout.bitByte, ElementKind.bytesFor, ElementKind.bits]
      omega
    · cases hl
  · cases hl

theorem ListView.contentSize_plain {v : ListView} (h : v.element ≠ .composite) :
    v.contentSize = v.element.bytesFor v.length := by
  unfold ListView.contentSize
  split
  · rename_i he
    exact absurd he h
  · rfl

theorem ListView.Inside.plain {s : Store} {loc : Location} {len : Nat} {elem : ElementKind}
    {shape : StructShape} (h : (ListView.backed loc len elem shape).Inside s)
    (hne : elem ≠ .composite) : s.covers loc (elem.bytesFor len) = true := by
  have hc := h.content rfl
  have hsize : (ListView.backed loc len elem shape).contentSize = elem.bytesFor len :=
    contentSize_plain hne
  rwa [hsize] at hc

theorem ListView.Inside.length_le {s : Store} {loc : Location} {len : Nat} {elem : ElementKind}
    {shape : StructShape} (h : (ListView.backed loc len elem shape).Inside s) :
    len ≤ longestList := by
  cases elem with
  | composite => exact h.2.1
  | _ => exact h.1

theorem ListView.Inside.element {s : Store} {v : ListView} (h : v.Inside s) {i n : Nat}
    {l : Location} (hl : v.element? i n = some l) : s.covers l n = true := by
  obtain ⟨loc, len, elem, shape, rfl, hkind⟩ := ListView.element?_eq_some hl
  rcases hkind with ⟨rfl, hi, hn, rfl⟩ | ⟨hne, _, off, hoff, rfl⟩
  · have hm := h.member i
    rw [ListView.member, if_pos hi] at hm
    exact covers_take hm.2 (Nat.le_add_right_of_le hn)
  · exact covers_shift (h.plain hne) hoff

theorem ListView.Inside.bit {s : Store} {v : ListView} (h : v.Inside s) {i : Nat}
    {l : Location} (hl : v.bit? i = some l) : s.covers l 1 = true := by
  obtain ⟨loc, len, shape, off, rfl, hoff, rfl⟩ := ListView.bit?_eq_some hl
  exact covers_shift h.2 hoff

theorem ListView.compositeFits_length {shape : StructShape} {len : Nat}
    (h : ListView.compositeFits shape len = true) : len ≤ longestList :=
  (of_decide_eq_true h).1

theorem ListView.compositeFits_words {shape : StructShape} {len : Nat} (hr : shape.Regular)
    (h : ListView.compositeFits shape len = true) : len * shape.bytes / 8 ≤ longestList := by
  rw [Nat.mul_div_assoc len (Nat.dvd_of_mod_eq_zero hr.bytes_mod)]
  exact (of_decide_eq_true h).2.1

section Allocated

variable {s t u : Store} {l : Location} {r : SegmentRef} {shape : StructShape} {len : Nat}

theorem Store.Allocated.struct_inside (h : Allocated r shape.bytes s l t)
    (hm : r.message < s.messages.size) (hr : shape.Regular) (member : Bool) :
    (StructView.backed l shape member).Inside t :=
  ⟨hr, h.covers hm⟩

theorem Store.Allocated.list_inside {elem : ElementKind}
    (h : Allocated r (elem.bytesFor len) s l t) (hm : r.message < s.messages.size)
    (he : elem ≠ .composite) (hlen : len ≤ longestList) :
    (ListView.backed l len elem .empty).Inside t := by
  cases elem with
  | composite => exact absurd rfl he
  | _ => exact ⟨hlen, h.covers hm⟩

theorem StructShape.Regular.composite_bytes (hr : shape.Regular) (len : Nat) :
    (len * (shape.bytes / 8) + 1) * 8 = 8 + len * shape.bytes := by
  have hb : shape.bytes / 8 * 8 = shape.bytes := by
    have := hr.bytes_mod
    omega
  rw [Nat.succ_mul, Nat.mul_assoc, hb, Nat.add_comm]

theorem Store.Tagged.covers (h : Tagged r shape len s l u t) (hm : r.message < s.messages.size)
    (hr : shape.Regular) : t.covers l (8 + len * shape.bytes) = true := by
  apply h.pasted.extends_.covers
  have hc := h.allocated.covers hm
  rwa [hr.composite_bytes] at hc

theorem Store.Tagged.inside (h : Tagged r shape len s l u t) (hm : r.message < s.messages.size)
    (hr : shape.Regular) (hlen : len ≤ longestList) :
    (ListView.backed (l.shift 8) len .composite shape).Inside t :=
  ⟨hr, hlen, l, rfl, h.covers hm hr⟩

theorem Store.Tagged.wordAt (h : Tagged r shape len s l u t) (hm : r.message < s.messages.size) :
    t.wordAt l = .ofTag len shape :=
  h.pasted.wordAt (covers_take (h.allocated.covers hm) (by omega))

end Allocated

namespace Store

structure Decoded (s : Store) (m : Nat) (p : Pointer) : Prop where
  inside : p.Inside s
  message : p.In m
  whole : p.isMember = false
  null : p.isBacked = false → p = .null

def failed (e : Abort) : Prop :=
  ∃ f, e = .failure f

theorem covers_locate {s : Store} {r : SegmentRef} {address : Int} {len : Nat} :
    Answers (s.checkRange r address len)
      (fun l => l.segment = r ∧ s.covers l len = true ∧ (l.address : Int) = address) failed := by
  unfold checkRange
  dsimp only
  split
  · rename_i h
    refine ⟨rfl, h.2.2, ?_⟩
    simp only
    omega
  · exact ⟨_, rfl⟩

theorem segment_answers (s : Store) (m id : Nat) :
    Answers (s.segment m id) (fun r => r = ⟨m, id⟩ ∧ id < s.count m) failed := by
  unfold segment
  split
  · rename_i h
    exact ⟨rfl, h⟩
  · exact ⟨_, rfl⟩

theorem readWord_answers {s : Store} {l : Location} (h : s.covers l 8 = true) :
    Answers (s.readWord l) (fun w => w = s.wordAt l) failed := by
  rw [readWord_eq h]
  rfl

theorem locateSingle_answers (s : Store) (w : PointerWord) (pad : Location) :
    Answers (s.locateSingle w pad) (fun t => (s.wordAt pad).kind ≠ .far ∧
      t = ⟨pad.segment, s.wordAt pad, targetFrom pad.address (s.wordAt pad)⟩) failed := by
  unfold locateSingle
  split
  · rename_i hc
    refine Answers.bind (readWord_answers hc) ?_
    rintro _ rfl
    split
    · exact ⟨_, rfl⟩
    · rename_i hnear
      exact ⟨hnear, rfl⟩
  · exact ⟨_, rfl⟩

theorem locateDouble_answers (s : Store) (w : PointerWord) (pad : Location) :
    Answers (s.locateDouble w pad) (fun t => (s.wordAt (pad.shift 8)).kind ≠ .far ∧
      t = ⟨⟨pad.segment.message, (s.wordAt pad).padSegment⟩, s.wordAt (pad.shift 8),
        Layout.wordAddress (s.wordAt pad).padWord⟩) failed := by
  unfold locateDouble
  split
  · rename_i hc
    refine Answers.bind (readWord_answers (covers_take hc (by omega))) ?_
    rintro _ rfl
    have htag : s.covers (pad.shift 8) 8 = true := covers_shift hc (Nat.le_refl 16)
    refine Answers.bind (readWord_answers htag) ?_
    rintro _ rfl
    split
    · exact ⟨_, rfl⟩
    · rename_i hgood
      refine Answers.bind (segment_answers s _ _) ?_
      rintro r ⟨rfl, _⟩
      exact ⟨fun hfar => hgood (.inr (.inr hfar)), rfl⟩
  · exact ⟨_, rfl⟩

/-- Where a word leads: on from itself, on from the word of a landing pad, or to the place that the
first word of a pad names. -/
inductive Followed (s : Store) (l : Location) (w : PointerWord) : Target → Prop where
  | near (hnear : w.kind ≠ .far) : Followed s l w ⟨l.segment, w, targetFrom l.address w⟩
  | single (pad : Location) (hfar : w.kind = .far) (hsingle : w.isDouble = false)
      (hpad : pad = ⟨⟨l.segment.message, w.padSegment⟩, Layout.wordAddress w.padWord⟩)
      (hland : (s.wordAt pad).kind ≠ .far) :
      Followed s l w ⟨pad.segment, s.wordAt pad, targetFrom pad.address (s.wordAt pad)⟩
  | double (pad : Location) (hfar : w.kind = .far) (hdouble : w.isDouble = true)
      (hpad : pad = ⟨⟨l.segment.message, w.padSegment⟩, Layout.wordAddress w.padWord⟩)
      (htag : (s.wordAt (pad.shift 8)).kind ≠ .far) :
      Followed s l w ⟨⟨pad.segment.message, (s.wordAt pad).padSegment⟩, s.wordAt (pad.shift 8),
        Layout.wordAddress (s.wordAt pad).padWord⟩

theorem locate_follows (s : Store) (l : Location) (w : PointerWord) :
    Answers (s.locate l w) (s.Followed l w) failed := by
  unfold locate
  split
  · rename_i hfar
    unfold locateFar
    refine Answers.bind (segment_answers s _ _) ?_
    rintro r ⟨rfl, _⟩
    dsimp only
    split
    · rename_i hdouble
      refine (locateDouble_answers s w _).mono ?_ fun _ h => h
      rintro _ ⟨htag, rfl⟩
      exact .double _ hfar hdouble rfl htag
    · rename_i hsingle
      refine (locateSingle_answers s w _).mono ?_ fun _ h => h
      rintro _ ⟨hland, rfl⟩
      exact .single _ hfar (by simpa using hsingle) rfl hland
  · rename_i hnear
    exact .near hnear

theorem locate_answers (s : Store) (l : Location) (w : PointerWord) :
    Answers (s.locate l w) (fun t => t.segment.message = l.segment.message) failed := by
  refine (locate_follows s l w).mono (fun t ht => ?_) fun _ h => h
  cases ht with
  | near => rfl
  | single pad _ _ hpad => rw [hpad]
  | double pad _ _ hpad => rw [hpad]

theorem readStruct_answers (s : Store) (t : Target) :
    Answers (s.readStruct t) (fun v => ∃ loc, v = .backed loc t.word.shape false ∧
      loc.segment = t.segment ∧ v.Inside s ∧ (loc.address : Int) = t.address) failed := by
  unfold readStruct
  refine Answers.bind covers_locate fun loc hloc => ?_
  exact ⟨loc, rfl, hloc.1, ⟨t.word.regular_shape, hloc.2.1⟩, hloc.2.2⟩

theorem count_le_longest (w : PointerWord) : w.count ≤ longestList := by
  have h := w.high.toNat_lt
  simp only [PointerWord.count, longestList]
  omega

theorem readPlain_answers (s : Store) (t : Target) {elem : ElementKind} (he : elem ≠ .composite) :
    Answers (s.readPlain t elem) (fun v => ∃ loc, v = .backed loc t.word.count elem .empty ∧
      loc.segment = t.segment ∧ v.Inside s) failed := by
  unfold readPlain
  refine Answers.bind covers_locate fun loc hloc => ?_
  refine ⟨loc, rfl, hloc.1, ?_⟩
  cases elem with
  | composite => exact absurd rfl he
  | _ => exact ⟨count_le_longest _, hloc.2.1⟩

theorem readComposite_answers (s : Store) (t : Target) :
    Answers (s.readComposite t) (fun v => ∃ loc len shape, v = .backed loc len .composite shape ∧
      loc.segment = t.segment ∧ v.Inside s) failed := by
  unfold readComposite
  refine Answers.bind covers_locate fun loc hloc => ?_
  refine Answers.bind (readWord_answers (covers_take hloc.2.1 (by omega))) fun tag _ => ?_
  dsimp only
  split
  · exact ⟨_, rfl⟩
  · rename_i hfits
    simp only [not_or, Nat.not_lt] at hfits
    refine ⟨_, _, _, rfl, hloc.1, tag.regular_shape, hfits.2.1, loc, rfl, ?_⟩
    exact covers_take hloc.2.1 (by omega)

theorem readList_answers (s : Store) (t : Target) :
    Answers (s.readList t) (fun v => ∃ loc len elem shape, v = .backed loc len elem shape ∧
      loc.segment = t.segment ∧ v.Inside s) failed := by
  unfold readList
  split
  · refine (readComposite_answers s t).mono ?_ fun _ he => he
    rintro v ⟨loc, len, shape, hv, hs, hin⟩
    exact ⟨loc, len, .composite, shape, hv, hs, hin⟩
  · rename_i hne
    refine (readPlain_answers s t hne).mono ?_ fun _ he => he
    rintro v ⟨loc, hv, hs, hin⟩
    exact ⟨loc, _, _, _, hv, hs, hin⟩

theorem readTarget_answers (s : Store) (t : Target) :
    Answers (s.readTarget t) (s.Decoded t.segment.message) failed := by
  unfold readTarget
  split
  · refine (readStruct_answers s t).map ?_
    rintro v ⟨loc, rfl, hs, hin, _⟩
    refine ⟨hin, ?_, rfl, fun h => nomatch h⟩
    intro l hl
    cases hl
    exact congrArg SegmentRef.message hs
  · refine (readList_answers s t).map ?_
    rintro v ⟨loc, len, elem, shape, rfl, hs, hin⟩
    refine ⟨hin, ?_, rfl, fun h => nomatch h⟩
    intro l hl
    cases hl
    exact congrArg SegmentRef.message hs
  · split
    · exact ⟨trivial, fun l hl => (nomatch hl), rfl, fun h => (nomatch h)⟩
    · exact ⟨_, rfl⟩

theorem pointerAt_answers (s : Store) (l : Location) :
    Answers (s.pointerAt l) (s.Decoded l.segment.message) failed := by
  unfold pointerAt
  split
  · rename_i hc
    refine Answers.bind (readWord_answers hc) fun w _ => ?_
    split
    · exact ⟨trivial, fun k hk => (nomatch hk), rfl, fun _ => rfl⟩
    · refine Answers.bind (locate_answers s l w) fun t ht => ?_
      rw [← ht]
      exact readTarget_answers s t
  · exact ⟨_, rfl⟩

end Store

theorem StructView.pointerAt_answers (v : StructView) (i : Nat) (s : Store) :
    Answers (v.pointerAt i s)
      (fun p => p.Inside s ∧ p.isMember = false ∧ (p.isBacked = false → p = .null) ∧
        ∀ loc, v.loc? = some loc → p.In loc.segment.message) Store.failed := by
  unfold StructView.pointerAt
  split
  · rename_i l hl
    obtain ⟨loc, shape, member, rfl, _, rfl⟩ := StructView.slot?_eq_some.mp hl
    refine (Store.pointerAt_answers s _).mono (fun p hp => ?_) fun _ he => he
    refine ⟨hp.inside, hp.whole, hp.null, ?_⟩
    intro k hk
    cases hk
    exact hp.message
  · exact ⟨trivial, rfl, fun _ => rfl, fun _ _ l hl => nomatch hl⟩

theorem ListView.pointerAt_answers (v : ListView) (i : Nat) (s : Store) :
    Answers (v.pointerAt i s)
      (fun p => p.Inside s ∧ p.isMember = false ∧ (p.isBacked = false → p = .null) ∧
        ∀ loc, v.loc? = some loc → p.In loc.segment.message) Store.failed := by
  unfold ListView.pointerAt
  split
  · rename_i l hl
    obtain ⟨loc, len, shape, rfl, _, rfl⟩ := ListView.slot?_eq_some.mp hl
    refine (Store.pointerAt_answers s _).mono (fun p hp => ?_) fun _ he => he
    refine ⟨hp.inside, hp.whole, hp.null, ?_⟩
    intro k hk
    cases hk
    exact hp.message
  · exact ⟨trivial, rfl, fun _ => rfl, fun _ _ l hl => nomatch hl⟩

namespace Store

section SameMessage

variable {s t : Store} {m : Nat} (h : t.message m = s.message m)

include h

theorem arena_congr {r : SegmentRef} (hr : r.message = m) : t.arena r = s.arena r := by
  rw [arena, arena, hr, h]

theorem covers_congr {l : Location} (hl : l.segment.message = m) (n : Nat) :
    t.covers l n = s.covers l n := by
  rw [covers, covers, arena_congr h hl]

theorem range_congr {l : Location} (hl : l.segment.message = m) (n : Nat) :
    t.range l n = s.range l n := by
  rw [range, range, contents, contents, arena_congr h hl]

end SameMessage

end Store

end SegmentedMessage
