import SegmentedMessage.Pointer.Assign
import SegmentedMessage.Proofs.DeepCopy
import SegmentedMessage.Proofs.Supply

namespace SegmentedMessage

open Store Copy Observation

theorem gather_agree {α : Type} {f g : Nat → Option α} {j n : Nat} {xs : List α}
    (hf : gather f j n = some xs) (hg : gather g j n = some xs) {i : Nat} (hlo : j ≤ i)
    (hhi : i < j + n) : ∃ x, f i = some x ∧ g i = some x := by
  induction n generalizing j xs with
  | zero => omega
  | succ n ih =>
    obtain ⟨x, ys, hx, hys, rfl⟩ := gather_succ_eq_some.mp hf
    obtain ⟨y, zs, hy, hzs, heq⟩ := gather_succ_eq_some.mp hg
    obtain ⟨rfl, rfl⟩ := List.cons.inj heq
    rcases Nat.lt_or_eq_of_le hlo with hlt | rfl
    · exact ih hys hzs hlt (by omega)
    · exact ⟨x, hx, hy⟩

theorem Store.slotTree_eq_some {f : Pointer → Option Tree} {r : Except Abort Pointer} {T : Tree} :
    slotTree f r = some T ↔ ∃ p, r = .ok p ∧ f p = some T := by
  cases r with
  | ok p => simp [slotTree]
  | error e => simp [slotTree]

theorem window_replicate {n k w : Nat} (h : k + w ≤ n) :
    window (List.replicate n 0) k w = List.replicate w 0 := by
  rw [window, List.drop_replicate, List.take_replicate, Nat.min_eq_left (by omega)]

namespace Store

variable {s t : Store} {l k : Location} {n i w : Nat}

theorem range_shift (h : i + w ≤ n) : s.range (l.shift i) w = window (s.range l n) i w :=
  (window_window h).symm

theorem range_shift_eq (hr : t.range l n = s.range k n) (h : i + w ≤ n) :
    t.range (l.shift i) w = s.range (k.shift i) w := by
  rw [range_shift h, range_shift h, hr]

theorem range_shift_zero (hr : t.range l n = List.replicate n 0) (h : i + w ≤ n) :
    t.range (l.shift i) w = List.replicate w 0 := by
  rw [range_shift h, hr, window_replicate h]

theorem wordAt_of_zero (hr : t.range l 8 = List.replicate 8 0) : t.wordAt l = .null := by
  rw [wordAt, hr, LittleEndian.decode_replicate_zero]
  rfl

end Store

namespace StructView

/-- What reads of `dst` in `t` is what read of `src` in `s`, as far as the first `data` bytes and the
first `slots` slots go, and nothing beyond. Slots may lead elsewhere, but to the same tree. -/
structure Mirrors (src dst : StructView) (s t : Store) (data slots : Nat) : Prop where
  field : ∀ (w : Width) off, off % w.bytes = 0 → off + w.bytes ≤ data →
    ∃ n, src.get w off s = .ok n ∧ dst.get w off t = .ok n
  blank : ∀ (w : Width) off, off % w.bytes = 0 → data < off + w.bytes → dst.get w off t = .ok 0
  bit : ∀ n, n < 8 * data → ∃ b, src.getBit n s = .ok b ∧ dst.getBit n t = .ok b
  unset : ∀ n, 8 * data ≤ n → dst.getBit n t = .ok false
  slot : ∀ i, i < slots → ∃ p q k T, src.pointerAt i s = .ok p ∧ dst.pointerAt i t = .ok q ∧
    s.tree? k p = some T ∧ t.tree? k q = some T
  null : ∀ i, slots ≤ i → dst.pointerAt i t = .ok .null

section Fields

variable {loc : Location} {shape : StructShape} {member : Bool} {s : Store} {w : Width} {off : Nat}

theorem get_eq (hc : s.covers loc shape.data = true) (h : off + w.bytes ≤ shape.data) :
    (backed loc shape member).get w off s =
      .ok (LittleEndian.decode (s.range (loc.shift off) w.bytes)) := by
  simp only [get, field?, if_pos h]
  exact read_eq (covers_shift hc h)

theorem field?_beyond {v : StructView} {n : Nat} (h : v.shape.data < off + n) :
    v.field? off n = none := by
  cases v with
  | absent => rfl
  | backed loc shape member => exact if_neg (Nat.not_le.mpr h)

theorem get_beyond {v : StructView} (h : v.shape.data < off + w.bytes) : v.get w off s = .ok 0 := by
  rw [get, field?_beyond h]
  rfl

theorem pointerAt_beyond {v : StructView} {i : Nat} (h : v.shape.slots.toNat ≤ i) :
    v.pointerAt i s = .ok .null := by
  have hnone : v.slot? i = none := by
    cases v with
    | absent => rfl
    | backed loc shape member => exact if_neg (Nat.not_lt.mpr h)
  rw [pointerAt, hnone]

theorem le_of_aligned {data : Nat} (hdata : data % 8 = 0) (hoff : off % w.bytes = 0)
    (h : data < off + w.bytes) : data ≤ off := by
  cases w <;> simp only [Width.bytes] at hoff h <;> omega

end Fields

theorem getBit_eq (v : StructView) (n : Nat) (s : Store) : v.getBit n s =
    (do return Layout.testBit (UInt8.ofNat (← v.get .one (Layout.bitByte n) s)) n) := rfl

theorem testBit_zero (n : Nat) : Layout.testBit 0 n = false := by
  simp [Layout.testBit]

theorem Mirrors.of_fields {src dst : StructView} {s t : Store} {data slots : Nat}
    (hfield : ∀ (w : Width) off, off % w.bytes = 0 → off + w.bytes ≤ data →
      ∃ n, src.get w off s = .ok n ∧ dst.get w off t = .ok n)
    (hblank : ∀ (w : Width) off, off % w.bytes = 0 → data < off + w.bytes →
      dst.get w off t = .ok 0)
    (hslot : ∀ i, i < slots → ∃ p q k T, src.pointerAt i s = .ok p ∧ dst.pointerAt i t = .ok q ∧
      s.tree? k p = some T ∧ t.tree? k q = some T)
    (hnull : ∀ i, slots ≤ i → dst.pointerAt i t = .ok .null) :
    src.Mirrors dst s t data slots where
  field := hfield
  blank := hblank
  bit n hn := by
    have hbyte : Layout.bitByte n + Width.one.bytes ≤ data := by
      simp only [Layout.bitByte, Width.bytes]
      omega
    obtain ⟨b, hsrc, hdst⟩ := hfield .one (Layout.bitByte n) (Nat.mod_one _) hbyte
    rw [getBit_eq, getBit_eq, hsrc, hdst]
    exact ⟨_, rfl, rfl⟩
  unset n hn := by
    have hbyte : data < Layout.bitByte n + Width.one.bytes := by
      simp only [Layout.bitByte, Width.bytes]
      omega
    rw [getBit_eq, hblank .one (Layout.bitByte n) (Nat.mod_one _) hbyte]
    exact congrArg Except.ok (testBit_zero n)
  slot := hslot
  null := hnull

end StructView

namespace Store

structure Overlaid (s t : Store) (src dst : Location) (data' data : Nat) : Prop where
  copied : t.range dst (min data data') = s.range src (min data data')
  rest : t.range (dst.shift (min data data')) (data - min data data')
    = List.replicate (data - min data data') 0

namespace Overlaid

variable {s t : Store} {src dst : Location}

theorem kept {u : Store} {m data data' : Nat} {free : Location → Prop}
    (h : s.Overlaid t src dst data' data) (he : t.Extends m free u)
    (hc : t.covers dst data = true) (hf : ∀ l, dst.Extent data l → ¬ free l) :
    s.Overlaid u src dst data' data := by
  have hle := Nat.min_le_left data data'
  have hstart : t.covers dst (min data data') = true := covers_take hc hle
  have hrest : t.covers (dst.shift (min data data')) (data - min data data') = true :=
    covers_shift hc (by omega)
  constructor
  · rw [he.range_eq (covers_iff.mp hstart).2 fun l hl => hf l (hl.mono hle), h.copied]
  · rw [he.range_eq (covers_iff.mp hrest).2 fun l hl => hf l (hl.of_shift.mono (by omega)), h.rest]

theorem mirrors {shape shape' : StructShape} {member member' : Bool}
    (h : s.Overlaid t src dst shape'.data shape.data)
    (hs : (StructView.backed src shape' member').Inside s)
    (hd : (StructView.backed dst shape member).Inside t)
    (hslot : ∀ i, i < min shape.slots.toNat shape'.slots.toNat → ∃ p q k T,
      (StructView.backed src shape' member').pointerAt i s = .ok p ∧
        (StructView.backed dst shape member).pointerAt i t = .ok q ∧
        s.tree? k p = some T ∧ t.tree? k q = some T)
    (hnull : ∀ i, min shape.slots.toNat shape'.slots.toNat ≤ i →
      (StructView.backed dst shape member).pointerAt i t = .ok .null) :
    (StructView.backed src shape' member').Mirrors (.backed dst shape member) s t
      (min shape.data shape'.data) (min shape.slots.toNat shape'.slots.toNat) := by
  have hsource : s.covers src shape'.data = true := hs.data rfl
  have hcov : t.covers dst shape.data = true := hd.data rfl
  refine .of_fields (fun w off _ hin => ?_) (fun w off hoff hout => ?_) hslot hnull
  · have hboth := Nat.le_min.mp hin
    refine ⟨_, StructView.get_eq hsource hboth.2, ?_⟩
    rw [StructView.get_eq hcov hboth.1, range_shift_eq h.copied hin]
  · -- past the end of the struct, or in the zeros after what was copied
    rcases Nat.lt_or_ge shape.data (off + w.bytes) with hbeyond | hin
    · exact StructView.get_beyond hbeyond
    · have hle := StructView.le_of_aligned hs.1.1 hoff (by omega : shape'.data < off + w.bytes)
      have hoffset : off = min shape.data shape'.data + (off - min shape.data shape'.data) := by omega
      rw [StructView.get_eq hcov hin, hoffset, ← Location.shift_shift,
        range_shift_zero h.rest (by omega), LittleEndian.decode_replicate_zero]

end Overlaid

end Store

namespace Copy

variable {deeper : Writer}

theorem fillData_overlays {dst loc : Location} {space : Nat} {shape : StructShape} {member : Bool}
    {s : Store} (hd : s.covers dst space = true) (hs : s.covers loc shape.data = true) :
    Outcome (fillData dst space (.backed loc shape member)) s
      (fun _ t => s.Overlaid t loc dst shape.data space) fun _ _ => True := by
  have hle := Nat.min_le_left space shape.data
  have hstart := outcome_copyRange dst loc _ s (covers_take hs (Nat.min_le_right space shape.data))
  unfold fillData
  simp only [StructView.shape, StructView.loc?]
  refine Outcome.bind_of (hstart.and (copyBytes_extends dst loc _ s)) (fun _ _ _ => trivial) ?_
  rintro _ t ⟨ht, he⟩
  refine (outcome_clear _ _ t).mono ?_ fun _ _ _ => trivial
  intro _ u hu
  refine ⟨?_, hu.range_self (List.length_replicate ..)⟩
  rw [hu.extends_.range_eq (covers_iff.mp (he.covers (covers_take hd hle))).2 fun l hl => hl.before,
    ht]

theorem fillWith_overlays (hw : Atomic deeper) {loc loc' : Location} {shape shape' : StructShape}
    {member member' : Bool} {st : CopyState} {Q : CopyState → Prop}
    (hd : st.store.covers loc shape.bytes = true) (hs : st.store.covers loc' shape'.data = true)
    (hslots : ∀ t, st.store.Extends loc.segment.message (loc.Extent shape.data) t.store →
      st.budget = t.budget + max (shape'.bytes / 8) 1 →
      Outcome (fillSlots deeper (loc.shift shape.data) shape.slots.toNat
        (.backed loc' shape' member')) t (fun _ u => Q u) fun _ _ => True) :
    Outcome (fillWith deeper (.backed loc shape member) (.backed loc' shape' member')) st
      (fun _ u => st.store.Overlaid u.store loc' loc shape'.data shape.data ∧ Q u)
      fun _ _ => True := by
  have hdata : st.store.covers loc shape.data = true := covers_take hd (Nat.le_add_right _ _)
  unfold fillWith
  refine Outcome.bind_of (outcome_spend_exact (shape'.bytes / 8) st) (fun _ _ _ => trivial) ?_
  rintro _ st₁ ⟨h₁, hspent⟩
  rw [← h₁] at hdata hs hslots ⊢
  have hfill : Outcome (onStore (fillData loc shape.data (.backed loc' shape' member'))) st₁ _ _ :=
    (outcome_onStore (fillData_overlays hdata hs)).and
      (fillData_confined loc shape.data (.backed loc' shape' member') st₁)
  refine Outcome.bind_of hfill (fun _ _ _ => trivial) ?_
  rintro _ st₂ ⟨⟨hover, hbudget⟩, he⟩
  rw [← hbudget] at hspent
  refine ((hslots st₂ he hspent).and (fillSlots_confined hw (loc.shift shape.data)
    shape.slots.toNat (.backed loc' shape' member') st₂)).mono ?_ fun _ _ _ => trivial
  rintro _ t ⟨hQ, he'⟩
  exact ⟨hover.kept he' (he.covers hdata) fun l hl => hl.before, hQ⟩

end Copy

end SegmentedMessage
