import SegmentedMessage.Proofs.Extension
import SegmentedMessage.View.Alloc

namespace SegmentedMessage

/-- `l.Onward k` says that `k` is in the segment of `l` and not before it. -/
def Location.Onward (l k : Location) : Prop :=
  k.segment = l.segment ∧ l.address ≤ k.address

theorem Location.Extent.onward {l k : Location} {n : Nat} (h : l.Extent n k) : l.Onward k :=
  ⟨h.1, h.2.1⟩

theorem Location.Onward.of_extent {l l' k : Location} {n : Nat} (hk : l'.Extent n k)
    (hs : l'.segment = l.segment) (hle : l.address ≤ l'.address) : l.Onward k := by
  obtain ⟨hks, hlo, _⟩ := hk
  exact ⟨hks.trans hs, Nat.le_trans hle hlo⟩

theorem Location.Extent.of_shift {l k : Location} {i n : Nat} (h : (l.shift i).Extent n k) :
    l.Extent (i + n) k := by
  obtain ⟨hs, hlo, hhi⟩ := h
  simp only [Location.shift_address] at hlo hhi
  exact ⟨hs, by omega, by omega⟩

theorem Location.Extent.mono {l k : Location} {i n : Nat} (h : l.Extent i k) (hn : i ≤ n) :
    l.Extent n k :=
  ⟨h.1, h.2.1, by have := h.2.2; omega⟩

theorem Location.not_extent_zero {l k : Location} : ¬ l.Extent 0 k := by
  rintro ⟨_, hlo, hhi⟩
  omega

theorem Location.Extent.within {l k : Location} {i j n m : Nat} (h : (l.shift i).Extent n k)
    (hlo : j ≤ i) (hhi : i + n ≤ j + m) : (l.shift j).Extent m k := by
  obtain ⟨hs, hl, hu⟩ := h
  rw [Location.shift_address] at hl hu
  refine ⟨hs, ?_, ?_⟩
  · rw [Location.shift_address]
    omega
  · rw [Location.shift_address]
    omega

theorem Location.Extent.before {l k : Location} {n m : Nat} (h : l.Extent n k) :
    ¬ (l.shift n).Extent m k := by
  rintro ⟨_, hlo, _⟩
  have hhi := h.2.2
  rw [Location.shift_address] at hlo
  omega

theorem Location.shift_mod {l : Location} {n : Nat} (hl : l.address % 8 = 0) (hn : n % 8 = 0) :
    (l.shift n).address % 8 = 0 := by
  rw [Location.shift_address]
  omega

theorem Location.Extent.apart {l k : Location} {i j n m : Nat} (h : (l.shift i).Extent n k)
    (hd : i + n ≤ j ∨ j + m ≤ i) : ¬ (l.shift j).Extent m k := by
  rintro ⟨_, hl', hu'⟩
  obtain ⟨_, hl, hu⟩ := h
  rw [Location.shift_address] at hl hu hl' hu'
  omega

namespace Store

variable {m : Nat} {s t u : Store} {l : Location} {r : SegmentRef} {n : Nat}

def Fresh (s : Store) (l : Location) : Prop :=
  (s.contents l.segment).length ≤ l.address

theorem Fresh.not_used {k : Location} (h : s.Fresh l) (hk : l.Onward k) : ¬ s.Used k := by
  intro hu
  obtain ⟨hs, hle⟩ := hk
  rw [Used, hs] at hu
  rw [Fresh] at h
  omega

theorem Extends.into_fresh {own : Location → Prop} (h : s.Extends m untouched t) (hf : s.Fresh l)
    (h' : t.Extends m own u) (ho : ∀ k, own k → l.Onward k) : s.Extends m untouched u :=
  (h.of_untouched.trans h').of_fresh fun k _ hk => hf.not_used (ho k hk)

namespace Allocated

theorem fresh (h : Allocated r n s l t) : s.Fresh l :=
  Nat.le_of_eq h.address.symm

theorem contents_self (h : Allocated r n s l t) (hm : r.message < s.messages.size) :
    t.contents l.segment = s.contents l.segment ++ List.replicate (Layout.roundUp n) 0 := by
  rw [h.contents hm, if_pos rfl]

theorem length_self (h : Allocated r n s l t) (hm : r.message < s.messages.size) :
    (t.contents l.segment).length = l.address + Layout.roundUp n := by
  rw [h.contents_self hm, List.length_append, List.length_replicate, h.address]

theorem covers (h : Allocated r n s l t) (hm : r.message < s.messages.size) :
    t.covers l n = true := by
  rw [covers_iff, h.length_self hm, h.message]
  exact ⟨h.index hm, Nat.add_le_add_left (Layout.le_roundUp n) _⟩

theorem range_zero (h : Allocated r n s l t) (hm : r.message < s.messages.size) {k : Location}
    {i : Nat} (hk : l.Onward k) (hi : k.address + i ≤ l.address + n) :
    t.range k i = List.replicate i 0 := by
  have hround := Layout.le_roundUp n
  have hlo := hk.2
  apply List.ext_getElem?
  intro j
  rw [range, hk.1, getElem?_window, h.contents_self hm, List.getElem?_replicate]
  by_cases hj : j < i
  · have hlen : (s.contents l.segment).length ≤ k.address + j := by
      rw [← h.address]
      omega
    rw [if_pos hj, if_pos hj, List.getElem?_append_right hlen, List.getElem?_replicate, if_pos]
    rw [← h.address]
    omega
  · rw [if_neg hj, if_neg hj]

theorem wordAt_null (h : Allocated r n s l t) (hm : r.message < s.messages.size) {k : Location}
    (hk : l.Onward k) (hi : k.address + 8 ≤ l.address + n) : t.wordAt k = .null := by
  rw [wordAt, h.range_zero hm hk hi, LittleEndian.decode_replicate_zero]
  rfl

theorem aligned (h : Allocated r n s l t) (hv : s.Valid) : l.address % 8 = 0 := by
  rw [h.address]
  exact hv.length_mod l.segment

end Allocated

theorem Pasted.wordAt {w : PointerWord} (h : Pasted l (LittleEndian.encode 8 w.toNat) s t)
    (hc : s.covers l 8 = true) : t.wordAt l = w := by
  have hlen := LittleEndian.length_encode 8 w.toNat
  have hle := (covers_iff.mp hc).2
  rw [← hlen] at hle
  have hself : t.range l 8 = LittleEndian.encode 8 w.toNat := by
    rw [range, h.contents, if_pos rfl]
    have hw := window_splice_self hle
    rwa [hlen] at hw
  rw [Store.wordAt, hself, LittleEndian.decode_encode_of_lt w.toNat_lt, PointerWord.ofNat_toNat]

theorem Pasted.range_self {src : List UInt8} (h : Pasted l src s t) (hn : src.length = n) :
    t.range l n = src := by
  subst hn
  rcases List.eq_nil_or_concat src with rfl | ⟨_, _, hne⟩
  · simp [range, window]
  · have hc := h.covered (by rw [hne]; simp)
    rw [range, h.contents, if_pos rfl]
    exact window_splice_self (covers_iff.mp hc).2

theorem Pasted.length_eq {src : List UInt8} (h : Pasted l src s t) (q : SegmentRef) :
    (t.contents q).length = (s.contents q).length := by
  rw [h.contents]
  split
  · rename_i hq
    rcases List.eq_nil_or_concat src with rfl | ⟨_, _, hne⟩
    · rw [splice_nil]
    · have hc := h.covered (by rw [hne]; simp)
      rw [hq]
      exact length_splice (covers_iff.mp hc).2
  · rfl

section Overwrites

variable {changed more : Location → Prop}

def Overwrites (m : Nat) (changed : Location → Prop) (s t : Store) : Prop :=
  s.Extends m changed t ∧ ∀ r, (t.contents r).length = (s.contents r).length

theorem Overwrites.refl (m : Nat) (changed : Location → Prop) (s : Store) :
    s.Overwrites m changed s :=
  ⟨.refl _ _ _, fun _ => rfl⟩

theorem Overwrites.trans (h : s.Overwrites m changed t) (h' : t.Overwrites m changed u) :
    s.Overwrites m changed u :=
  ⟨h.1.trans h'.1, fun r => (h'.2 r).trans (h.2 r)⟩

theorem Overwrites.weaken (h : s.Overwrites m changed t) (hm : ∀ l, changed l → more l) :
    s.Overwrites m more t :=
  ⟨h.1.weaken fun l _ _ hl => hm l hl, h.2⟩

theorem Overwrites.used (h : s.Overwrites m changed t) : t.Used l ↔ s.Used l := by
  rw [Used, Used, h.2]

theorem Pasted.overwrites {src : List UInt8} (h : Pasted l src s t) :
    s.Overwrites l.segment.message (l.Extent src.length) t :=
  ⟨h.extends_, h.length_eq⟩

end Overwrites

end Store

open Store

theorem StructView.outcome_allocate (r : SegmentRef) (shape : StructShape) (s : Store) :
    Outcome (StructView.allocate r shape) s
      (fun v t => ∃ l, v = .backed l shape.roundUp false ∧ shape.isEncodable = true ∧
        Allocated r shape.roundUp.bytes s l t)
      (fun e t => t = s ∧ ∃ f, e = .failure f) := by
  unfold StructView.allocate
  split
  · rename_i henc
    exact (Store.outcome_allocate r shape.roundUp.bytes s).map fun l t ht => ⟨l, rfl, henc, ht⟩
  · exact Outcome.throw ⟨rfl, _, rfl⟩

theorem ListView.outcome_allocate (r : SegmentRef) (elem : ElementKind) (len : Nat) (s : Store) :
    Outcome (ListView.allocate r elem len) s
      (fun v t => ∃ l, v = .backed l len elem .empty ∧ elem ≠ .composite ∧ len ≤ longestList ∧
        Allocated r (elem.bytesFor len) s l t)
      (fun e t => t = s ∧ ((∃ f, e = .failure f) ∨
        elem = .composite ∧ e = .fault .untaggedComposite)) := by
  unfold ListView.allocate
  split
  · rename_i he
    exact Outcome.throw ⟨rfl, .inr ⟨he, rfl⟩⟩
  · rename_i he
    split
    · exact Outcome.throw ⟨rfl, .inl ⟨_, rfl⟩⟩
    · rename_i hlen
      have hle : len ≤ longestList := by omega
      exact ((Store.outcome_allocate r (elem.bytesFor len) s).mono (fun _ _ h => h)
        fun e t h => ⟨h.1, .inl h.2⟩).map fun l t ht => ⟨l, rfl, he, hle, ht⟩

structure Store.Tagged (r : SegmentRef) (shape : StructShape) (len : Nat) (s : Store)
    (tag : Location) (u t : Store) : Prop where
  allocated : Allocated r ((len * (shape.bytes / 8) + 1) * 8) s tag u
  pasted : Pasted tag (LittleEndian.encode 8 (PointerWord.ofTag len shape).toNat) u t

theorem Store.Tagged.extends_ {r : SegmentRef} {shape : StructShape} {len : Nat} {s u t : Store}
    {tag : Location} (h : Tagged r shape len s tag u t) : s.Extends r.message untouched t := by
  have hp := h.pasted.extends_
  rw [h.allocated.message] at hp
  exact h.allocated.extends_.into_fresh h.allocated.fresh hp fun _ hk => hk.onward

theorem ListView.outcome_allocateTagged (r : SegmentRef) (shape : StructShape) (len : Nat)
    (s : Store) :
    Outcome (ListView.allocateTagged r shape len) s
      (fun v t => ∃ tag u, v = .backed (tag.shift 8) len .composite shape ∧
        Tagged r shape len s tag u t)
      (fun e t => s.Extends r.message untouched t ∧
        (r.message < s.messages.size → t = s ∧ ∃ f, e = .failure f)) := by
  unfold ListView.allocateTagged
  refine Outcome.bind_of (Store.outcome_allocate r _ s) ?_ ?_
  · rintro e t ⟨rfl, hf⟩
    exact ⟨.refl _ _ _, fun _ => ⟨rfl, hf⟩⟩
  · intro tag u hu
    refine Outcome.bind_of (outcome_writeWord tag _ u) ?_ ?_
    · rintro e t ⟨rfl, _, hc⟩
      refine ⟨hu.extends_, fun hm => ?_⟩
      have hcov := covers_take (j := 8) (hu.covers hm) (by omega)
      rw [hcov] at hc
      cases hc
    · rintro _ t ⟨ht, _⟩
      exact Outcome.pure ⟨tag, u, rfl, hu, ht⟩

theorem ListView.outcome_allocateComposite (r : SegmentRef) (shape : StructShape) (len : Nat)
    (s : Store) :
    Outcome (ListView.allocateComposite r shape len) s
      (fun v t => ∃ tag u, v = .backed (tag.shift 8) len .composite shape.roundUp ∧
        shape.isEncodable = true ∧ compositeFits shape.roundUp len = true ∧
        Tagged r shape.roundUp len s tag u t)
      (fun e t => s.Extends r.message untouched t ∧
        (r.message < s.messages.size → t = s ∧ ∃ f, e = .failure f)) := by
  unfold ListView.allocateComposite
  split
  · exact Outcome.throw ⟨.refl _ _ _, fun _ => ⟨rfl, _, rfl⟩⟩
  · rename_i henc
    split
    · exact Outcome.throw ⟨.refl _ _ _, fun _ => ⟨rfl, _, rfl⟩⟩
    · rename_i hfits
      refine (outcome_allocateTagged r shape.roundUp len s).mono ?_ (fun _ _ h => h)
      rintro v t ⟨tag, u, hv, ht⟩
      simp only [Bool.not_eq_true', Bool.not_eq_false] at henc hfits
      exact ⟨tag, u, hv, henc, hfits, ht⟩

end SegmentedMessage
