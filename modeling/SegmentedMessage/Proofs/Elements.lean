import SegmentedMessage.Proofs.Fields

namespace SegmentedMessage

open Store

/-- How many bytes of an element hold numbers, where structs have `data` of them. -/
def ElementKind.dataWidth (data : Nat) : ElementKind → Nat
  | bits8 => 1
  | bits16 => 2
  | bits32 => 4
  | bits64 => 8
  | composite => data
  | void | bit | pointer => 0

inductive ElementWrite where
  | number (w : Width) (i val : Nat)
  | bit (i : Nat) (val : Bool)
  | field (i : Nat) (c : FieldWrite)

namespace ElementWrite

def run (v : ListView) : ElementWrite → StoreM Unit
  | number w i val => v.set w i val
  | bit i val => v.setBit i val
  | field i c => c.run (v.member i)

def fits (v : ListView) : ElementWrite → Bool
  | number w i _ => i < v.length ∧ w.bytes ≤ v.dataBytes
  | bit i _ => v.element = .bit ∧ i < v.length
  | field i c => c.fits (v.member i).shape.data

def refusal (v : ListView) : ElementWrite → Fault
  | number _ i _ => v.outOfRange .element i
  | bit i _ => v.outOfRange .bit i
  | field i c => c.refusal (v.member i)

/-- What the call asks of the data bytes of element `i`. -/
def aim (v : ListView) (i : Nat) : ElementWrite → List FieldWrite
  | number w j val => if j = i then [.number w 0 val] else []
  | bit _ _ => []
  | field j c => if j = i ∧ v.element = .composite then [c] else []

def bitAfter (n : Nat) (b : Bool) : ElementWrite → Bool
  | bit i val => if i = n then val else b
  | _ => b

end ElementWrite

namespace ListView

def aimed (v : ListView) (cs : List ElementWrite) (i : Nat) : List FieldWrite :=
  cs.flatMap (·.aim v i)

def Writable (v : ListView) (loc k : Location) : Prop :=
  (∃ i, i < v.length ∧ (loc.shift (i * v.pitch)).Extent v.dataBytes k) ∨
    v.element = .bit ∧ loc.Extent v.contentSize k

/-- The calls have changed each element as those of them that name it say, and nothing else. -/
structure Rewritten (v : ListView) (loc : Location) (cs : List ElementWrite) (s t : Store) :
    Prop where
  data : ∀ i, i < v.length → t.range (loc.shift (i * v.pitch)) v.dataBytes =
    FieldWrite.applyAll (v.aimed cs i) (s.range (loc.shift (i * v.pitch)) v.dataBytes)
  bit : v.element = .bit → ∀ n, bitAt (t.range loc v.contentSize) n =
    if n < v.length then cs.foldl (fun b c => c.bitAfter n b) (bitAt (s.range loc v.contentSize) n)
    else bitAt (s.range loc v.contentSize) n
  rest : s.Overwrites loc.segment.message (v.Writable loc) t

section Places

variable {loc : Location} {i j : Nat}

theorem dataBytes_eq (v : ListView) : v.dataBytes = v.element.dataWidth v.shape.data := by
  unfold dataBytes
  cases v.element <;> rfl

theorem dataBytes_composite {v : ListView} (h : v.element = .composite) :
    v.dataBytes = v.shape.data := by
  rw [dataBytes_eq, h, ElementKind.dataWidth]

theorem dataBytes_bit {v : ListView} (h : v.element = .bit) : v.dataBytes = 0 := by
  rw [dataBytes_eq, h, ElementKind.dataWidth]

theorem member_eq {v : ListView} (hl : v.loc? = some loc) (h : v.element = .composite)
    (hi : i < v.length) : v.member i = .backed (loc.shift (i * v.pitch)) v.shape true := by
  cases v with
  | absent => cases hl
  | backed loc len elem shape =>
      cases hl
      obtain rfl : elem = .composite := h
      exact Copy.member_eq hi

theorem member_absent {v : ListView} (h : ¬ (v.element = .composite ∧ i < v.length)) :
    v.member i = .absent := by
  unfold member
  split
  · exact if_neg fun hi => h ⟨rfl, hi⟩
  · rfl

theorem dataBytes_le_pitch (v : ListView) : v.dataBytes ≤ v.pitch := by
  unfold dataBytes pitch
  cases v.element with
  | composite => exact Nat.le_add_right _ _
  | pointer => exact Nat.zero_le _
  | _ => exact Nat.le_refl _

theorem pitch_plain (v : ListView) (hp : v.element ≠ .pointer) (hc : v.element ≠ .composite) :
    v.pitch = v.dataBytes := by
  unfold dataBytes pitch
  cases h : v.element with
  | pointer => exact absurd h hp
  | composite => exact absurd h hc
  | _ => rfl

theorem element_inside (v : ListView) (hi : i < v.length) :
    i * v.pitch + v.pitch ≤ v.contentSize := by
  unfold pitch contentSize
  cases v.element with
  | composite => exact v.shape.mul_bytes_le hi
  | _ => exact ElementKind.pitch_le _ hi

theorem contentSize_bounds (v : ListView) (hb : v.element ≠ .bit) :
    v.length * v.pitch ≤ v.contentSize ∧ v.contentSize < v.length * v.pitch + 8 := by
  unfold pitch contentSize
  cases h : v.element with
  | composite => exact ⟨Nat.le_refl _, Nat.lt_add_of_pos_right (by decide)⟩
  | bit => exact absurd h hb
  | _ =>
      simp only [ElementKind.bytesFor, ElementKind.bits]
      omega

theorem contentSize_bits {v : ListView} (h : v.element = .bit) :
    v.length ≤ v.contentSize * 8 ∧ v.contentSize * 8 < v.length + 64 := by
  rw [contentSize_plain (by rw [h]; decide), h]
  simp only [ElementKind.bytesFor, ElementKind.bits]
  omega

theorem bit_inside {v : ListView} (h : v.element = .bit) (hi : i < v.length) :
    i / 8 < v.contentSize := by
  have hbits := contentSize_bits h
  omega

theorem elements_apart (v : ListView) (h : i < j) : i * v.pitch + v.pitch ≤ j * v.pitch := by
  rw [← Nat.succ_mul]
  exact Nat.mul_le_mul_right _ h

theorem regions_apart (v : ListView) {k : Location} (hij : i ≠ j)
    (hk : (loc.shift (i * v.pitch)).Extent v.pitch k) :
    ¬ (loc.shift (j * v.pitch)).Extent v.pitch k := by
  apply hk.apart
  rcases Nat.lt_or_gt_of_ne hij with hlt | hgt
  · exact .inl (v.elements_apart hlt)
  · exact .inr (v.elements_apart hgt)

theorem element?_eq {v : ListView} (hl : v.loc? = some loc) (i n : Nat) : v.element? i n =
    if i < v.length ∧ n ≤ v.dataBytes then some (loc.shift (i * v.pitch)) else none := by
  rw [element?, hl]
  rfl

theorem element?_member {v : ListView} (hl : v.loc? = some loc) (h : v.element = .composite)
    (i n : Nat) : v.element? i n = (v.member i).field? 0 n := by
  rw [element?_eq hl, dataBytes_composite h]
  by_cases hi : i < v.length
  · rw [member_eq hl h hi, StructView.field?, Nat.zero_add]
    by_cases hn : n ≤ v.shape.data
    · rw [if_pos ⟨hi, hn⟩, if_pos hn]
      rfl
    · rw [if_neg fun hin => hn hin.2, if_neg hn]
  · rw [member_absent fun hm => hi hm.2, if_neg fun hin => hi hin.1]
    rfl

theorem bit?_eq {v : ListView} (hl : v.loc? = some loc) (i : Nat) : v.bit? i =
    if v.element = .bit ∧ i < v.length then some (loc.shift (Layout.bitByte i)) else none := by
  cases v with
  | absent => cases hl
  | backed loc len elem shape =>
      cases hl
      cases elem <;> simp [bit?, element, length]

end Places

section Steps

variable {v : ListView} {loc : Location} {s t : Store} {c : ElementWrite} {i : Nat}

theorem Inside.data_covers (h : v.Inside s) (hl : v.loc? = some loc) (hi : i < v.length) :
    s.covers (loc.shift (i * v.pitch)) v.dataBytes = true := by
  have hle := v.dataBytes_le_pitch
  have hin := v.element_inside hi
  exact covers_shift (h.content hl) (by omega)

theorem Rewritten.refl (v : ListView) (loc : Location) (s : Store) : v.Rewritten loc [] s s where
  data _ _ := rfl
  bit _ n := by
    rw [List.foldl_nil, ite_self]
  rest := .refl _ _ s

theorem Rewritten.trans {u : Store} {cs ds : List ElementWrite} (h : v.Rewritten loc cs s t)
    (h' : v.Rewritten loc ds t u) : v.Rewritten loc (cs ++ ds) s u where
  data i hi := by
    rw [h'.data i hi, h.data i hi, aimed, aimed, aimed, List.flatMap_append]
    exact List.foldl_append.symm
  bit hb n := by
    rw [h'.bit hb n, h.bit hb n, List.foldl_append]
    split <;> rfl
  rest := h.rest.trans h'.rest

theorem fits_of_aim (hl : v.loc? = some loc) (hi : i < v.length) {e : FieldWrite} (he : e ∈ c.aim v i) :
    e.fits v.dataBytes = c.fits v := by
  cases c with
  | number w j val =>
      simp only [ElementWrite.aim] at he
      split at he
      · rename_i hj
        subst hj
        obtain rfl := List.mem_singleton.mp he
        simp [FieldWrite.fits, ElementWrite.fits, hi]
      · cases he
  | bit j val => cases he
  | field j e' =>
      simp only [ElementWrite.aim] at he
      split at he
      · rename_i hj
        obtain ⟨rfl, helem⟩ := hj
        obtain rfl := List.mem_singleton.mp he
        rw [ElementWrite.fits, member_eq hl helem hi, dataBytes_composite helem]
        rfl
      · cases he

theorem Rewritten.of_refused (hin : v.Inside s) (hl : v.loc? = some loc) (h : c.fits v = false) :
    v.Rewritten loc [c] s s where
  data i hi := by
    rw [aimed, List.flatMap_singleton, FieldWrite.applyAll_refused]
    intro e he
    rw [length_range (hin.data_covers hl hi), fits_of_aim hl hi he, h]
  bit hb n := by
    rw [List.foldl_cons, List.foldl_nil]
    split
    · rename_i hn
      cases c with
      | number w i val => rfl
      | field i e => rfl
      | bit i val =>
          have hi : ¬ (v.element = .bit ∧ i < v.length) := of_decide_eq_false h
          rw [ElementWrite.bitAfter, if_neg]
          rintro rfl
          exact hi ⟨hb, hn⟩
    · rfl
  rest := .refl _ _ s

theorem Rewritten.of_data (hin : v.Inside s) (hl : v.loc? = some loc) (hi : i < v.length)
    {e : FieldWrite} (hfits : e.fits v.dataBytes = true) (haim : c.aim v i = [e])
    (hother : ∀ j, j ≠ i → c.aim v j = [])
    (h : Edited (loc.shift (i * v.pitch)) v.dataBytes e.put s t) : v.Rewritten loc [c] s t where
  data j hj := by
    rw [aimed, List.flatMap_singleton]
    have hc := hin.data_covers hl hj
    by_cases hji : j = i
    · subst hji
      rw [haim, h.bytes]
      exact (FieldWrite.apply_of_fits (by rwa [length_range hc])).symm
    · rw [hother j hji]
      have hle := v.dataBytes_le_pitch
      exact h.rest.1.range_eq (covers_iff.mp hc).2 fun k hk hdata =>
        v.regions_apart hji (hk.mono hle) (hdata.mono hle)
  bit hb := by
    rw [dataBytes_bit hb, e.not_fits_zero] at hfits
    cases hfits
  rest := h.rest.weaken fun k hk => .inl ⟨i, hi, hk⟩

theorem Rewritten.of_bit (hin : v.Inside s) (hl : v.loc? = some loc) (hb : v.element = .bit)
    (hi : i < v.length) {val : Bool}
    (h : Edited loc v.contentSize (FieldWrite.put · (.bit i val)) s t) :
    v.Rewritten loc [.bit i val] s t where
  data j hj := by
    rw [dataBytes_bit hb]
    rfl
  bit _ n := by
    have hlen := length_range (hin.content hl)
    have hbyte := bit_inside hb hi
    have hfits : (FieldWrite.bit i val).fits (s.range loc v.contentSize).length = true := by
      rw [hlen]
      exact decide_eq_true (by omega)
    rw [h.bytes, ← FieldWrite.apply_of_fits hfits, bitAt_apply, hlen, List.foldl_cons,
      List.foldl_nil, ElementWrite.bitAfter]
    by_cases hn : n = i
    · subst hn
      rw [if_pos ⟨rfl, by omega⟩, if_pos hi, if_pos rfl]
    · rw [if_neg fun h => hn h.1, if_neg (Ne.symm hn), ite_self]
  rest := h.rest.weaken fun k hk => .inr ⟨hb, hk⟩

end Steps

end ListView

namespace ElementWrite

variable {v : ListView} {loc : Location} {s t : Store}

theorem run_of_fits (hin : v.Inside s) (hl : v.loc? = some loc) {c : ElementWrite}
    (h : c.fits v = true) : ∃ t, c.run v s = .ok () t ∧ v.Rewritten loc [c] s t := by
  have hcontent := hin.content hl
  cases c with
  | number w i val =>
      obtain ⟨hi, hw⟩ : i < v.length ∧ w.bytes ≤ v.dataBytes := of_decide_eq_true h
      have hzero : 0 + w.bytes ≤ v.dataBytes := by rwa [Nat.zero_add]
      obtain ⟨t, hrun, hedit⟩ := write_edits (hin.data_covers hl hi) hzero val
      refine ⟨t, ?_, .of_data hin hl hi (e := .number w 0 val) ?_ (if_pos rfl) ?_ hedit⟩
      · rw [run, ListView.set, ListView.element?_eq hl, if_pos ⟨hi, hw⟩]
        exact hrun
      · exact decide_eq_true hzero
      · exact fun j hj => if_neg (Ne.symm hj)
  | bit i val =>
      obtain ⟨hb, hi⟩ : v.element = .bit ∧ i < v.length := of_decide_eq_true h
      obtain ⟨t, hrun, hedit⟩ := writeBitAt?_edits hcontent (ListView.bit_inside hb hi)
        (v.outOfRange .bit i) val
      refine ⟨t, ?_, .of_bit hin hl hb hi hedit⟩
      rw [run, ListView.setBit, ListView.bit?_eq hl, if_pos ⟨hb, hi⟩]
      exact hrun
  | field i e =>
      by_cases hm : v.element = .composite ∧ i < v.length
      · obtain ⟨helem, hi⟩ := hm
        have hc := hin.data_covers hl hi
        have hdata := ListView.dataBytes_composite helem
        rw [fits, ListView.member_eq hl helem hi] at h
        rw [hdata] at hc
        obtain ⟨t, hrun, hedit⟩ := FieldWrite.run_of_fits hc h
        refine ⟨t, ?_, .of_data hin hl hi (e := e) (by rwa [hdata]) (if_pos ⟨rfl, helem⟩) ?_ ?_⟩
        · rw [run, ListView.member_eq hl helem hi]
          exact hrun
        · exact fun j hj => if_neg fun hji => hj hji.1.symm
        · rwa [hdata]
      · rw [fits, ListView.member_absent hm] at h
        exact absurd (h.symm.trans e.not_fits_zero) (by decide)

theorem run_of_not_fits (hl : v.loc? = some loc) {c : ElementWrite} (h : c.fits v = false)
    (s : Store) : c.run v s = .error (.fault (c.refusal v)) s := by
  cases c with
  | number w i val =>
      have hout : ¬ (i < v.length ∧ w.bytes ≤ v.dataBytes) := of_decide_eq_false h
      rw [run, ListView.set, ListView.element?_eq hl, if_neg hout]
      rfl
  | bit i val =>
      have hout : ¬ (v.element = .bit ∧ i < v.length) := of_decide_eq_false h
      rw [run, ListView.setBit, ListView.bit?_eq hl, if_neg hout]
      rfl
  | field i e => exact e.run_of_not_fits h s

theorem outcome_run (hin : v.Inside s) (hl : v.loc? = some loc) (c : ElementWrite) :
    Outcome (c.run v) s (fun _ t => c.fits v = true ∧ v.Rewritten loc [c] s t)
      (fun e t => c.fits v = false ∧ e = .fault (c.refusal v) ∧ t = s) := by
  cases h : c.fits v with
  | true =>
      obtain ⟨t, hrun, hrewritten⟩ := run_of_fits hin hl h
      rw [Outcome, hrun]
      exact ⟨rfl, hrewritten⟩
  | false =>
      rw [Outcome, run_of_not_fits hl h s]
      exact ⟨rfl, rfl, rfl⟩

end ElementWrite

namespace ListView

variable {v : ListView} {loc : Location} {s t : Store}

def writeAll (v : ListView) (cs : List ElementWrite) (s : Store) : Store :=
  cs.foldl (fun s c => stateAfter (c.run v) s) s

theorem write_rewritten (hin : v.Inside s) (hl : v.loc? = some loc) (c : ElementWrite) :
    v.Rewritten loc [c] s (stateAfter (c.run v) s) := by
  refine ((c.outcome_run hin hl).mono (fun _ _ ht => ht.2) ?_).after
  rintro e t ⟨hout, _, rfl⟩
  exact .of_refused hin hl hout

theorem writeAll_rewritten (hin : v.Inside s) (hl : v.loc? = some loc) (cs : List ElementWrite) :
    v.Rewritten loc cs s (v.writeAll cs s) := by
  induction cs generalizing s with
  | nil => exact .refl v loc s
  | cons c cs ih =>
      have hfirst := write_rewritten hin hl c
      exact hfirst.trans (ih (hin.mono hfirst.rest.1))

theorem get_numberAt (hin : v.Inside s) (hl : v.loc? = some loc) (w : Width) (i : Nat) :
    v.get w i s = .ok (if i < v.length then
      numberAt (s.range (loc.shift (i * v.pitch)) v.dataBytes) 0 w.bytes else 0) := by
  rw [get, element?_eq hl]
  by_cases hi : i < v.length
  · have hc := hin.data_covers hl hi
    rw [if_pos hi]
    by_cases hw : w.bytes ≤ v.dataBytes
    · rw [if_pos ⟨hi, hw⟩]
      exact read_numberAt hc (show 0 + w.bytes ≤ v.dataBytes by rwa [Nat.zero_add])
    · rw [if_neg fun h => hw h.2, numberAt, length_range hc, Nat.zero_add, if_neg hw]
      rfl
  · rw [if_neg fun h => hi h.1, if_neg hi]
    rfl

theorem getBit_bitAt (hin : v.Inside s) (hl : v.loc? = some loc) (i : Nat) :
    v.getBit i s = .ok (if v.element = .bit ∧ i < v.length then
      bitAt (s.range loc v.contentSize) i else false) := by
  rw [getBit, bit?_eq hl]
  split
  · rename_i h
    exact readBitAt?_eq (hin.content hl) (bit_inside h.1 h.2)
  · exact congrArg Except.ok (StructView.testBit_zero i)

structure Separate (v : ListView) (loc : Location) : Prop where
  inside : ∀ i k, i < v.length → (loc.shift (i * v.pitch)).Extent v.pitch k →
    loc.Extent v.contentSize k
  apart : ∀ i j k, i ≠ j → (loc.shift (i * v.pitch)).Extent v.pitch k →
    ¬ (loc.shift (j * v.pitch)).Extent v.pitch k
  data : v.dataBytes ≤ v.pitch
  packed : v.element ≠ .pointer → v.element ≠ .composite → v.pitch = v.dataBytes
  padded : v.element ≠ .bit →
    v.length * v.pitch ≤ v.contentSize ∧ v.contentSize < v.length * v.pitch + 8
  bit : v.element = .bit → ∀ i, i < v.length → i / 8 < v.contentSize
  paddedBits : v.element = .bit →
    v.length ≤ v.contentSize * 8 ∧ v.contentSize * 8 < v.length + 64
  bits : ∀ i j, i ≠ j → i / 8 ≠ j / 8 ∨ i % 8 ≠ j % 8

theorem separate (v : ListView) (loc : Location) : v.Separate loc where
  inside i k hi hk := by
    have hin := v.element_inside hi
    exact (hk.of_shift).mono hin
  apart i j k hij hk := v.regions_apart hij hk
  data := v.dataBytes_le_pitch
  packed := v.pitch_plain
  padded := v.contentSize_bounds
  bit hb i hi := bit_inside hb hi
  paddedBits := contentSize_bits
  bits i j hij := by omega

structure Kept (v : ListView) (loc : Location) (s t : Store) : Prop where
  content : ∀ k, v.Writable loc k → loc.Extent v.contentSize k
  tag : v.element = .composite → ∃ tag, loc = Location.shift tag 8 ∧ t.wordAt tag = s.wordAt tag
  slots : ∀ i l, v.slot? i = some l → t.wordAt l = s.wordAt l
  memberSlots : ∀ i j l, (v.member i).slot? j = some l → t.wordAt l = s.wordAt l
  padding : v.element ≠ .bit → ∀ n, v.length * v.pitch ≤ n → n < v.contentSize →
    (t.range loc v.contentSize)[n]? = (s.range loc v.contentSize)[n]?

theorem Writable.content {k : Location} (h : v.Writable loc k) : loc.Extent v.contentSize k := by
  rcases h with ⟨i, hi, hk⟩ | ⟨_, hk⟩
  · exact (v.separate loc).inside i k hi (hk.mono v.dataBytes_le_pitch)
  · exact hk

theorem Writable.before_padding {k : Location} (h : v.Writable loc k) (hb : v.element ≠ .bit) :
    k.address < loc.address + v.length * v.pitch := by
  rcases h with ⟨i, hi, hk⟩ | ⟨hbit, _⟩
  · have hhi := hk.2.2
    have hle := v.dataBytes_le_pitch
    have hnext := v.elements_apart hi
    rw [Location.shift_address] at hhi
    omega
  · exact absurd hbit hb

theorem Inside.tag (h : v.Inside s) (hl : v.loc? = some loc) (hcomp : v.element = .composite) :
    ∃ tag, loc = Location.shift tag 8 ∧ s.covers tag 8 = true := by
  cases v with
  | absent => cases hl
  | backed loc len elem shape =>
      cases hl
      obtain rfl : elem = .composite := hcomp
      obtain ⟨_, _, tag, htag, hc⟩ := h
      exact ⟨tag, htag, covers_take hc (Nat.le_add_right 8 _)⟩

theorem Writable.not_slot {i j : Nat} {l k : Location} (hl : v.loc? = some loc)
    (hs : (v.member i).slot? j = some l) (hk : l.Extent 8 k) : ¬ v.Writable loc k := by
  intro hw
  by_cases hm : v.element = .composite ∧ i < v.length
  · obtain ⟨hcomp, hi⟩ := hm
    rw [member_eq hl hcomp hi] at hs
    obtain ⟨_, _, _, heq, hj, rfl⟩ := StructView.slot?_eq_some.mp hs
    obtain ⟨rfl, rfl, rfl⟩ := StructView.backed.inj heq
    have hpitch : v.pitch = v.shape.data + v.shape.slots.toNat * 8 := by
      rw [pitch, hcomp]
      rfl
    rw [Location.shift_shift] at hk
    rcases hw with ⟨i', hi', hdata⟩ | ⟨hbit, _⟩
    -- slots of a member come after its data, and the next element after its slots
    · by_cases hii : i' = i
      · have hlo := hk.2.1
        have hhi := hdata.2.2
        rw [dataBytes_composite hcomp] at hhi
        rw [Location.shift_address] at hlo hhi
        subst hii
        omega
      · have hregion : (loc.shift (i * v.pitch)).Extent v.pitch k := hk.within (by omega) (by omega)
        exact v.regions_apart hii (hdata.mono v.dataBytes_le_pitch) hregion
    · rw [hcomp] at hbit
      cases hbit
  · rw [member_absent hm] at hs
    cases hs

theorem Rewritten.kept {cs : List ElementWrite} (hin : v.Inside s) (hl : v.loc? = some loc)
    (h : v.Rewritten loc cs s t) : v.Kept loc s t where
  content k hk := hk.content
  tag hcomp := by
    obtain ⟨tag, rfl, hc⟩ := hin.tag hl hcomp
    refine ⟨tag, rfl, h.rest.1.wordAt_eq hc fun k hk hw => ?_⟩
    have hhi := hk.2.2
    have hlo := hw.content.2.1
    rw [Location.shift_address] at hlo
    omega
  slots i l hs := by
    refine h.rest.1.wordAt_eq (hin.slot hs) fun k _ hw => ?_
    obtain ⟨_, _, _, rfl, _, _⟩ := slot?_eq_some.mp hs
    rcases hw with ⟨_, _, hdata⟩ | ⟨hbit, _⟩
    · exact Location.not_extent_zero hdata
    · cases hbit
  memberSlots i j l hs :=
    h.rest.1.wordAt_eq ((hin.member i).slot hs) fun _ hk => Writable.not_slot hl hs hk
  padding hb n hlo hhi := by
    have hused : s.Used (loc.shift n) := by
      have hle := (covers_iff.mp (hin.content hl)).2
      rw [Used, Location.shift_address]
      exact Nat.lt_of_lt_of_le (Nat.add_lt_add_left hhi _) hle
    have hkept := h.rest.1.getElem?_eq hused fun hw => by
      have hbefore := hw.before_padding hb
      rw [Location.shift_address] at hbefore
      omega
    rw [range, range, getElem?_window, getElem?_window, if_pos hhi, if_pos hhi]
    exact hkept

end ListView

/-- The elements of a list that a session holds are apart, each shows what was last written to it
by any calls of setters, and nothing but their data changes. -/
theorem elements_isolated {σ : Session} (h : Session.Reaches Session.Allows Session.empty σ)
    {v : ListView} {loc : Location} (hv : Pointer.list v ∈ σ.views) (hl : v.loc? = some loc)
    (cs : List ElementWrite) :
    let s := σ.store
    let t := v.writeAll cs s
    let written i := FieldWrite.applyAll (v.aimed cs i)
      (s.range (loc.shift (i * v.pitch)) v.dataBytes)
    v.dataBytes = v.element.dataWidth v.shape.data ∧
    [Width.one, .two, .four, .eight].map Width.bytes = [1, 2, 4, 8] ∧
    v.Separate loc ∧ v.Rewritten loc cs s t ∧ v.Kept loc s t ∧
    (∀ c : ElementWrite, Outcome (c.run v) t
      (fun _ u => c.fits v = true ∧ v.Rewritten loc [c] t u)
      (fun e u => c.fits v = false ∧ e = .fault (c.refusal v) ∧ u = t)) ∧
    (∀ (w : Width) i, v.get w i t =
      .ok (if i < v.length then numberAt (written i) 0 w.bytes else 0)) ∧
    (∀ i, v.getBit i t = .ok (if v.element = .bit ∧ i < v.length then
      cs.foldl (fun b c => c.bitAfter i b) (bitAt (s.range loc v.contentSize) i) else false)) ∧
    (∀ i, v.element = .composite → i < v.length → (v.member i).ActsAs (written i) t) ∧
    ∀ (w : Width) i u, v.element = .composite → v.get w i u = (v.member i).get w 0 u := by
  intro s t written
  have hin : v.Inside s := (h.safe Session.safe_empty).inside _ hv
  have hrewritten : v.Rewritten loc cs s t := ListView.writeAll_rewritten hin hl cs
  have hin' : v.Inside t := hin.mono hrewritten.rest.1
  refine ⟨v.dataBytes_eq, rfl, v.separate loc, hrewritten, hrewritten.kept hin hl,
    fun c => c.outcome_run hin' hl, ?_, ?_, ?_, ?_⟩
  · intro w i
    rw [ListView.get_numberAt hin' hl]
    split
    · rename_i hi
      rw [hrewritten.data i hi]
    · rfl
  · intro i
    rw [ListView.getBit_bitAt hin' hl]
    split
    · rename_i hi
      rw [hrewritten.bit hi.1, if_pos hi.2]
    · rfl
  · intro i hcomp hi
    have hc := hin'.data_covers hl hi
    have hdata : _ = written i := hrewritten.data i hi
    rw [ListView.dataBytes_composite hcomp] at hc hdata
    rw [ListView.member_eq hl hcomp hi, ← hdata]
    exact .of_range hc true
  · intro w i u hcomp
    rw [ListView.get, ListView.element?_member hl hcomp]
    rfl

/-- The root list of the first message has two structs of one word; both ways to the second one are
taken, and the last call is too wide. That of the second message has three numbers of two bytes, and
what is too wide for them, or beyond them, is refused and reads as zero. -/
theorem elements_isolated_pair :
    let σ := (((Session.empty.after (.creation (.opened
      [⟨#[1, 0, 0, 0, 0x17, 0, 0, 0, 8, 0, 0, 0, 1, 0, 0, 0,
        5, 5, 5, 5, 5, 5, 5, 5, 9, 9, 9, 9, 9, 9, 9, 9]⟩] []))).after (.creation (.opened
      [⟨#[1, 0, 0, 0, 0x1b, 0, 0, 0, 1, 0, 2, 0, 3, 0, 7, 7]⟩] []))).after (.query (.root 0))).after
      (.query (.root 1))
    let v := ListView.backed ⟨⟨0, 0⟩, 16⟩ 2 .composite ⟨8, 0⟩
    let cs : List ElementWrite := [.number .two 1 0x1234, .field 1 (.number .one 1 7), .bit 0 true,
      .field 1 (.number .eight 1 0)]
    let u := ListView.backed ⟨⟨1, 0⟩, 8⟩ 3 .bits16 .empty
    let ds : List ElementWrite := [.number .two 1 0x1234, .number .one 2 0xff, .number .four 0 5,
      .number .two 3 6]
    Session.Reaches Session.Allows Session.empty σ ∧
      Pointer.list v ∈ σ.views ∧ v.loc? = some ⟨⟨0, 0⟩, 16⟩ ∧
      v.get .four 0 (v.writeAll cs σ.store) = .ok 0x05050505 ∧
      v.get .four 1 (v.writeAll cs σ.store) = .ok 0x09090734 ∧
      Pointer.list u ∈ σ.views ∧ u.loc? = some ⟨⟨1, 0⟩, 8⟩ ∧
      u.get .two 0 (u.writeAll ds σ.store) = .ok 1 ∧
      u.get .two 1 (u.writeAll ds σ.store) = .ok 0x1234 ∧
      u.get .two 2 (u.writeAll ds σ.store) = .ok 0xff ∧
      u.get .two 3 (u.writeAll ds σ.store) = .ok 0 ∧
      u.get .four 0 (u.writeAll ds σ.store) = .ok 0 := by
  intro σ v cs u ds
  have h : Session.Reaches Session.Allows Session.empty σ :=
    (((Relation.ReflTransGen.single ⟨.creation (.opened _ []), trivial, rfl⟩).tail
      ⟨.creation (.opened _ []), trivial, rfl⟩).tail ⟨.query (.root 0), trivial, rfl⟩).tail
      ⟨.query (.root 1), trivial, rfl⟩
  have hv : Pointer.list v ∈ σ.views := by decide
  have hu : Pointer.list u ∈ σ.views := by decide
  have hstructs := (elements_isolated h hv rfl cs).2.2.2.2.2.2.1
  have hnumbers := (elements_isolated h hu rfl ds).2.2.2.2.2.2.1
  refine ⟨h, hv, rfl, ?_, ?_, hu, rfl, ?_, ?_, ?_, ?_, ?_⟩
  · exact (hstructs .four 0).trans (congrArg Except.ok (by decide))
  · exact (hstructs .four 1).trans (congrArg Except.ok (by decide))
  · exact (hnumbers .two 0).trans (congrArg Except.ok (by decide))
  · exact (hnumbers .two 1).trans (congrArg Except.ok (by decide))
  · exact (hnumbers .two 2).trans (congrArg Except.ok (by decide))
  · exact (hnumbers .two 3).trans (congrArg Except.ok (by decide))
  · exact (hnumbers .four 0).trans (congrArg Except.ok (by decide))

end SegmentedMessage
