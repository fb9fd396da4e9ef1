import SegmentedMessage.Proofs.Containment
import SegmentedMessage.Proofs.Fill

namespace SegmentedMessage

open Store

def stateAfter {ε σ α : Type} (act : EStateM ε σ α) (s : σ) : σ :=
  match act s with
  | .ok _ t => t
  | .error _ t => t

theorem Outcome.after {ε σ α : Type} {act : EStateM ε σ α} {s : σ} {P : σ → Prop}
    (h : Outcome act s (fun _ t => P t) fun _ t => P t) : P (stateAfter act s) := by
  unfold Outcome at h
  unfold stateAfter
  cases hr : act s with
  | ok a t => simpa only [hr] using h
  | error e t => simpa only [hr] using h

/-- The number in the `n` bytes from `off` on, zero where the array does not have them all. -/
def numberAt (xs : List UInt8) (off n : Nat) : Nat :=
  if off + n ≤ xs.length then LittleEndian.decode (window xs off n) else 0

def bitAt (xs : List UInt8) (n : Nat) : Bool :=
  (xs[n / 8]?.getD 0).toNat.testBit (n % 8)

theorem ofNat_numberAt (xs : List UInt8) (i : Nat) :
    UInt8.ofNat (numberAt xs i 1) = xs[i]?.getD 0 := by
  unfold numberAt
  split
  · rename_i hi
    have hwindow : window xs i 1 = [xs[i]] := by
      rw [window, List.drop_eq_getElem_cons hi, List.take_succ_cons, List.take_zero]
    rw [hwindow, List.getElem?_eq_getElem hi]
    simp [LittleEndian.decode]
  · rw [List.getElem?_eq_none (by omega)]
    rfl

inductive FieldWrite where
  | number (w : Width) (off val : Nat)
  | signed (w : Width) (off : Nat) (val : Int)
  | bit (n : Nat) (val : Bool)

namespace FieldWrite

def run (v : StructView) : FieldWrite → StoreM Unit
  | number w off val => v.set w off val
  | signed w off val => v.setInt w off val
  | bit n val => v.setBit n val

def fits (data : Nat) : FieldWrite → Bool
  | number w off _ => off + w.bytes ≤ data
  | signed w off _ => off + w.bytes ≤ data
  | bit n _ => n < 8 * data

def refusal (v : StructView) : FieldWrite → Fault
  | number _ off _ => v.outOfRange .data off
  | signed _ off _ => v.outOfRange .data off
  | bit n _ => v.outOfRange .bit n

def put (xs : List UInt8) : FieldWrite → List UInt8
  | number w off val => splice xs off (LittleEndian.encode w.bytes val)
  | signed w off val =>
    splice xs off (LittleEndian.encode w.bytes (BitVec.ofInt (8 * w.bytes) val).toNat)
  | bit n val => xs.modify (n / 8) (Layout.assignBit · n val)

def apply (c : FieldWrite) (xs : List UInt8) : List UInt8 :=
  if c.fits xs.length then c.put xs else xs

theorem apply_of_fits {c : FieldWrite} {xs : List UInt8} (h : c.fits xs.length = true) :
    c.apply xs = c.put xs :=
  if_pos h

theorem apply_of_not_fits {c : FieldWrite} {xs : List UInt8} (h : c.fits xs.length = false) :
    c.apply xs = xs :=
  if_neg (Bool.eq_false_iff.mp h)

def applyAll (cs : List FieldWrite) (xs : List UInt8) : List UInt8 :=
  cs.foldl (fun xs c => c.apply xs) xs

theorem applyAll_refused {cs : List FieldWrite} {xs : List UInt8}
    (h : ∀ c ∈ cs, c.fits xs.length = false) : applyAll cs xs = xs := by
  induction cs with
  | nil => rfl
  | cons c cs ih =>
      rw [applyAll, List.foldl_cons, apply_of_not_fits (h c List.mem_cons_self)]
      exact ih fun d hd => h d (List.mem_cons_of_mem c hd)

end FieldWrite

theorem bitAt_eq (xs : List UInt8) (n : Nat) :
    bitAt xs n = Layout.testBit (xs[n / 8]?.getD 0) n :=
  (Layout.testBit_eq _ n).symm

theorem bitAt_apply (n k : Nat) (val : Bool) (xs : List UInt8) :
    bitAt ((FieldWrite.bit n val).apply xs) k =
      if k = n ∧ n < 8 * xs.length then val else bitAt xs k := by
  cases hn : (FieldWrite.bit n val).fits xs.length with
  | false =>
      have hout : ¬ n < 8 * xs.length := of_decide_eq_false hn
      rw [FieldWrite.apply_of_not_fits hn, if_neg fun h => hout h.2]
  | true =>
      have hin : n < 8 * xs.length := of_decide_eq_true hn
      rw [FieldWrite.apply_of_fits hn, FieldWrite.put, bitAt_eq, bitAt_eq, List.getElem?_modify]
      by_cases hbyte : n / 8 = k / 8
      · have hget : xs[k / 8]? = some xs[k / 8] := List.getElem?_eq_getElem (by omega)
        simp only [if_pos hbyte, hget, Option.map_eq_map, Option.map_some, Option.getD_some,
          Layout.testBit_assignBit]
        by_cases hk : k = n
        · rw [if_pos (by rw [hk]), if_pos ⟨hk, hin⟩]
        · rw [if_neg (by omega), if_neg fun h => hk h.1]
      · have hk : ¬ (k = n ∧ n < 8 * xs.length) := fun h => hbyte (by rw [h.1])
        simp only [if_neg hbyte, Option.map_eq_map, Option.map_id', if_neg hk]

structure Store.Edited (l : Location) (n : Nat) (f : List UInt8 → List UInt8) (s t : Store) :
    Prop where
  bytes : t.range l n = f (s.range l n)
  rest : s.Overwrites l.segment.message (l.Extent n) t

namespace Store

variable {s t u : Store} {l : Location} {n off : Nat} {f g : List UInt8 → List UInt8}

theorem Edited.refl (l : Location) (n : Nat) (s : Store) : Edited l n id s s :=
  ⟨rfl, .refl _ _ s⟩

theorem Edited.trans (h : Edited l n f s t) (h' : Edited l n g t u) : Edited l n (g ∘ f) s u :=
  ⟨by rw [h'.bytes, h.bytes, Function.comp_apply], h.rest.trans h'.rest⟩

theorem Edited.covers (h : Edited l n f s t) {k : Location} {i : Nat} (hc : s.covers k i = true) :
    t.covers k i = true :=
  h.rest.1.covers hc

theorem Pasted.edited {src : List UInt8} (h : Pasted (l.shift off) src s t)
    (hc : s.covers l n = true) (hin : off + src.length ≤ n) :
    Edited l n (splice · off src) s t where
  bytes := by
    rw [range, h.contents, Location.shift_segment, if_pos rfl]
    exact window_splice hin (covers_iff.mp hc).2
  rest := h.overwrites.weaken fun k hk => hk.of_shift.mono hin

theorem write_edits (hc : s.covers l n = true) {w : Nat} (hin : off + w ≤ n) (val : Nat) :
    ∃ t, write (l.shift off) w val s = .ok () t ∧
      Edited l n (splice · off (LittleEndian.encode w val)) s t := by
  have hrun := outcome_write (l.shift off) w val s
  cases hr : write (l.shift off) w val s with
  | ok u t =>
      refine ⟨t, rfl, (hrun.of_ok hr).1.edited hc ?_⟩
      rwa [LittleEndian.length_encode]
  | error e t =>
      have hnot := (hrun.of_error hr).2.2
      rw [covers_shift hc hin] at hnot
      cases hnot

theorem splice_byte (f : UInt8 → UInt8) {xs : List UInt8} (h : off < xs.length) :
    splice xs off (LittleEndian.encode 1 (f (UInt8.ofNat (numberAt xs off 1))).toNat) =
      xs.modify off f := by
  have hbyte (b : UInt8) : LittleEndian.encode 1 b.toNat = [b] := LittleEndian.encode_decode [b]
  rw [ofNat_numberAt, List.getElem?_eq_getElem h, hbyte, List.modify_eq_take_cons_drop h, splice,
    List.append_assoc]
  rfl

theorem read_numberAt (hc : s.covers l n = true) {w : Nat} (hin : off + w ≤ n) :
    s.read (l.shift off) w = .ok (numberAt (s.range l n) off w) := by
  rw [read_eq (covers_shift hc hin), range_shift hin, numberAt, if_pos (by rwa [length_range hc])]

theorem readBitAt?_eq (hc : s.covers l n = true) {i : Nat} (hin : i / 8 < n) :
    s.readBitAt? (some (l.shift (Layout.bitByte i))) i = .ok (bitAt (s.range l n) i) := by
  have hread := read_numberAt hc (show i / 8 + 1 ≤ n from hin)
  have hbyte := ofNat_numberAt (s.range l n) (i / 8)
  unfold readBitAt?
  simp only [readAt?, Layout.bitByte, Width.bytes, hread, Bind.bind, Except.bind, hbyte, bitAt_eq]
  rfl

theorem writeBitAt?_edits (hc : s.covers l n = true) {i : Nat} (hin : i / 8 < n) (e : Fault)
    (val : Bool) : ∃ t, writeBitAt? (some (l.shift (Layout.bitByte i))) e i val s = .ok () t ∧
      Edited l n (fun xs => xs.modify (i / 8) (Layout.assignBit · i val)) s t := by
  have hread := read_numberAt hc (show i / 8 + 1 ≤ n from hin)
  obtain ⟨t, hrun, hedit⟩ := write_edits hc (show i / 8 + 1 ≤ n from hin)
    (Layout.assignBit (UInt8.ofNat (numberAt (s.range l n) (i / 8) 1)) i val).toNat
  refine ⟨t, ?_, ?_, hedit.rest⟩
  · simp only [writeBitAt?, Layout.bitByte, Bind.bind, EStateM.bind, query, hread]
    exact hrun
  · rw [hedit.bytes]
    exact splice_byte (Layout.assignBit · i val) (by rwa [length_range hc])

end Store

namespace FieldWrite

variable {loc : Location} {shape : StructShape} {member : Bool} {s : Store}

theorem run_of_fits (hc : s.covers loc shape.data = true) {c : FieldWrite}
    (h : c.fits shape.data = true) : ∃ t, c.run (.backed loc shape member) s = .ok () t ∧
      Edited loc shape.data c.put s t := by
  have number (w : Width) (off val : Nat) (hin : off + w.bytes ≤ shape.data) :
      ∃ t, (StructView.backed loc shape member).set w off val s = .ok () t ∧
        Edited loc shape.data (splice · off (LittleEndian.encode w.bytes val)) s t := by
    rw [StructView.set, StructView.field?, if_pos hin]
    exact write_edits hc hin val
  cases c with
  | number w off val => exact number w off val (of_decide_eq_true h)
  | signed w off val =>
      rw [run, StructView.setInt, w.ofSigned_eq]
      exact number w off _ (of_decide_eq_true h)
  | bit n val =>
      have hn : n < 8 * shape.data := of_decide_eq_true h
      have hin : Layout.bitByte n + 1 ≤ shape.data := by
        rw [Layout.bitByte]
        omega
      simp only [run, StructView.setBit, StructView.field?, if_pos hin]
      exact writeBitAt?_edits hc hin _ val

theorem not_fits_zero (c : FieldWrite) : c.fits 0 = false := by
  have number (w : Width) (off : Nat) : ¬ off + w.bytes ≤ 0 := by
    have hpos := w.bytes_pos
    omega
  cases c with
  | number w off val => exact decide_eq_false (number w off)
  | signed w off val => exact decide_eq_false (number w off)
  | bit n val => exact decide_eq_false (Nat.not_lt_zero n)

theorem run_of_not_fits {v : StructView} {c : FieldWrite} (h : c.fits v.shape.data = false)
    (s : Store) : c.run v s = .error (.fault (c.refusal v)) s := by
  have number (w : Width) (off val : Nat) (hout : ¬ off + w.bytes ≤ v.shape.data) :
      v.set w off val s = .error (.fault (v.outOfRange .data off)) s := by
    rw [StructView.set, StructView.field?_beyond (Nat.lt_of_not_le hout)]
    rfl
  cases c with
  | number w off val => exact number w off val (of_decide_eq_false h)
  | signed w off val => exact number w off (w.ofSigned val) (of_decide_eq_false h)
  | bit n val =>
      have hn : ¬ n < 8 * v.shape.data := of_decide_eq_false h
      have hout : v.shape.data < Layout.bitByte n + 1 := by
        rw [Layout.bitByte]
        omega
      rw [run, StructView.setBit, StructView.field?_beyond hout]
      rfl

theorem outcome_run (hc : s.covers loc shape.data = true) (c : FieldWrite) :
    Outcome (c.run (.backed loc shape member)) s
      (fun _ t => c.fits shape.data = true ∧ Edited loc shape.data c.apply s t)
      (fun e t => c.fits shape.data = false ∧ e = .fault (c.refusal (.backed loc shape member)) ∧
        t = s) := by
  have hlen := length_range hc
  cases h : c.fits shape.data with
  | true =>
      obtain ⟨t, hrun, hedit⟩ := run_of_fits hc h
      have hput : c.apply (s.range loc shape.data) = c.put (s.range loc shape.data) :=
        apply_of_fits (by rwa [hlen])
      rw [Outcome, hrun]
      exact ⟨rfl, hedit.bytes.trans hput.symm, hedit.rest⟩
  | false =>
      have hrun := run_of_not_fits (v := .backed loc shape member) h s
      rw [Outcome, hrun]
      exact ⟨rfl, rfl, rfl⟩

end FieldWrite

namespace StructView

variable {loc : Location} {shape : StructShape} {s : Store}

def writeAll (v : StructView) (cs : List FieldWrite) (s : Store) : Store :=
  cs.foldl (fun s c => stateAfter (c.run v) s) s

theorem write_edited (hc : s.covers loc shape.data = true) (member : Bool) (c : FieldWrite) :
    Edited loc shape.data c.apply s (stateAfter (c.run (backed loc shape member)) s) := by
  refine ((c.outcome_run hc).mono (fun _ _ ht => ht.2) ?_).after
  rintro e t ⟨hout, _, rfl⟩
  refine ⟨?_, .refl _ _ t⟩
  rw [FieldWrite.apply_of_not_fits (by rwa [length_range hc])]

theorem writeAll_edited (hc : s.covers loc shape.data = true) (member : Bool)
    (cs : List FieldWrite) :
    Edited loc shape.data (FieldWrite.applyAll cs) s ((backed loc shape member).writeAll cs s) := by
  induction cs generalizing s with
  | nil => exact .refl loc shape.data s
  | cons c cs ih =>
      have hfirst := write_edited hc member c
      exact hfirst.trans (ih (hfirst.covers hc))

/-- Reads of `v` in `s` are reads of the array `xs`. -/
structure ActsAs (v : StructView) (xs : List UInt8) (s : Store) : Prop where
  length : xs.length = v.shape.data
  number : ∀ (w : Width) off, v.get w off s = .ok (numberAt xs off w.bytes)
  signed : ∀ (w : Width) off,
    v.getInt w off s = .ok (BitVec.ofNat (8 * w.bytes) (numberAt xs off w.bytes)).toInt
  bit : ∀ n, v.getBit n s = .ok (bitAt xs n)

theorem ActsAs.of_range (hc : s.covers loc shape.data = true) (member : Bool) :
    (backed loc shape member).ActsAs (s.range loc shape.data) s := by
  have hlen := length_range hc
  have number (w : Width) (off : Nat) : (backed loc shape member).get w off s =
      .ok (numberAt (s.range loc shape.data) off w.bytes) := by
    by_cases hin : off + w.bytes ≤ shape.data
    · rw [get, field?, if_pos hin]
      exact read_numberAt hc hin
    · rw [get_beyond (Nat.lt_of_not_le hin), numberAt, if_neg (by rwa [hlen])]
  refine ⟨hlen, number, ?_, ?_⟩
  · intro w off
    rw [getInt, number, ← w.toSigned_eq]
    rfl
  · intro n
    rw [getBit_eq, number, bitAt_eq]
    exact congrArg (fun b => Except.ok (Layout.testBit b n)) (ofNat_numberAt _ (n / 8))

end StructView

/-- A struct that a session holds behaves as one little-endian array of bytes under any calls of
setters, and nothing outside its data section changes. -/
theorem fields_are_bytes {σ : Session} (h : Session.Reaches Session.Allows Session.empty σ)
    {loc : Location} {shape : StructShape} {member : Bool}
    (hv : Pointer.struct (.backed loc shape member) ∈ σ.views) (cs : List FieldWrite) :
    let v := StructView.backed loc shape member
    let xs := σ.store.range loc shape.data
    let t := v.writeAll cs σ.store
    [Width.one, .two, .four, .eight].map Width.bytes = [1, 2, 4, 8] ∧
    v.ActsAs xs σ.store ∧
    v.ActsAs (FieldWrite.applyAll cs xs) t ∧
    Edited loc shape.data (FieldWrite.applyAll cs) σ.store t ∧
    (∀ i l, v.slot? i = some l → t.wordAt l = σ.store.wordAt l) ∧
    (∀ c : FieldWrite, Outcome (c.run v) t
      (fun _ u => c.fits shape.data = true ∧ Edited loc shape.data c.apply t u)
      (fun e u => c.fits shape.data = false ∧ e = .fault (c.refusal v) ∧ u = t)) ∧
    (∀ ys n k val, bitAt ((FieldWrite.bit n val).apply ys) k =
      if k = n ∧ n < 8 * ys.length then val else bitAt ys k) ∧
    ∀ (c : FieldWrite) s, c.run .absent s = .error (.fault (c.refusal .absent)) s := by
  intro v xs t
  have hinside : v.Inside σ.store := (h.safe Session.safe_empty).inside _ hv
  have hc : σ.store.covers loc shape.data = true := hinside.data rfl
  have hedit := StructView.writeAll_edited hc member cs
  have hc' : t.covers loc shape.data = true := hedit.covers hc
  refine ⟨rfl, .of_range hc member, ?_, hedit, ?_, fun c => c.outcome_run hc', fun ys n k val =>
    bitAt_apply n k val ys, fun c => c.run_of_not_fits c.not_fits_zero⟩
  · have hacts := StructView.ActsAs.of_range hc' member
    rwa [hedit.bytes] at hacts
  · intro i l hl
    obtain ⟨_, _, _, heq, _, rfl⟩ := StructView.slot?_eq_some.mp (show v.slot? i = some l from hl)
    obtain ⟨rfl, rfl, rfl⟩ := StructView.backed.inj heq
    refine hedit.rest.1.wordAt_eq (hinside.slot hl) fun k hk hdata => ?_
    have hlo := hk.2.1
    have hhi := hdata.2.2
    rw [Location.shift_address] at hlo
    omega

/-- The root struct has one word of data and one slot; the writes overlap and the last is refused.
What was written as -1 reads back so in one byte, and with the byte before it as another number. -/
theorem fields_are_bytes_overlap :
    let σ := (Session.empty.after (.creation (.opened
      [⟨#[0, 0, 0, 0, 1, 0, 1, 0, 9, 9, 9, 9, 9, 9, 9, 9, 0, 0, 0, 0, 0, 0, 0, 0]⟩] []))).after
      (.query (.root 0))
    let v := StructView.backed ⟨⟨0, 0⟩, 8⟩ ⟨8, 1⟩ false
    let cs : List FieldWrite := [.number .two 1 0x1234, .signed .one 2 (-1), .bit 0 false,
      .number .eight 1 7]
    Session.Reaches Session.Allows Session.empty σ ∧ Pointer.struct v ∈ σ.views ∧
      v.ActsAs [8, 0x34, 0xff, 9, 9, 9, 9, 9] (v.writeAll cs σ.store) ∧
      v.getInt .one 2 (v.writeAll cs σ.store) = .ok (-1) ∧
      v.getInt .two 1 (v.writeAll cs σ.store) = .ok (-204) := by
  intro σ v cs
  have hopen : Session.empty.Allows (.creation (.opened
      [⟨#[0, 0, 0, 0, 1, 0, 1, 0, 9, 9, 9, 9, 9, 9, 9, 9, 0, 0, 0, 0, 0, 0, 0, 0]⟩] [])) := trivial
  have h : Session.Reaches Session.Allows Session.empty σ :=
    Relation.ReflTransGen.tail (.single ⟨_, hopen, rfl⟩) ⟨.query (.root 0), trivial, rfl⟩
  have hv : Pointer.struct v ∈ σ.views := by decide
  have hbytes : FieldWrite.applyAll cs (σ.store.range ⟨⟨0, 0⟩, 8⟩ 8) =
      [8, 0x34, 0xff, 9, 9, 9, 9, 9] := by decide
  have hacts := (fields_are_bytes h hv cs).2.2.1
  rw [hbytes] at hacts
  exact ⟨h, hv, hacts, (hacts.signed .one 2).trans (congrArg Except.ok (by decide)),
    (hacts.signed .two 1).trans (congrArg Except.ok (by decide))⟩

end SegmentedMessage
