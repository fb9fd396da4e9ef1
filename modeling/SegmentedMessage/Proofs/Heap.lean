import Mathlib.Data.List.Pairwise
import SegmentedMessage.Proofs.Target
import SegmentedMessage.Proofs.Tree

/-!
Heaps. A heap tells what the bytes of a message have been allocated for: the root word, structs,
lists with their tags, and landing pads. In a well-formed message these blocks tile the used bytes,
and every slot shows nothing but whole objects of the same heap.
-/

namespace SegmentedMessage

open Store

inductive Block where
  | root
  | struct (shape : StructShape)
  | list (elem : ElementKind) (len : Nat)
  | composite (shape : StructShape) (len : Nat)
  | pad (double : Bool)
  deriving DecidableEq, Repr

namespace Block

def size : Block → Nat
  | root => 8
  | struct shape => shape.bytes
  | list elem len => elem.bytesFor len
  | composite shape len => 8 + len * shape.bytes
  | pad double => if double then 16 else 8

def Regular : Block → Prop
  | struct shape => shape.Regular
  | list elem len => elem ≠ .composite ∧ len ≤ longestList
  | composite shape len =>
    shape.Regular ∧ len ≤ longestList ∧ len * shape.bytes / 8 ≤ longestList
  | _ => True

/-- The words that are written once: tags and landing pads. -/
def Words (s : Store) (l : Location) : Block → Prop
  | composite shape len => s.wordAt l = .ofTag len shape
  | pad false => (s.wordAt l).kind ≠ .far
  | pad true => (s.wordAt l).kind = .far ∧ (s.wordAt (l.shift 8)).kind ≠ .far
  | _ => True

end Block

def StructShape.SlotAt (shape : StructShape) (loc slot : Location) : Prop :=
  ∃ i, i < shape.slots.toNat ∧ slot = loc.shift (shape.data + i * 8)

def StructShape.memberAt (shape : StructShape) (tag : Location) (j : Nat) : Location :=
  (tag.shift 8).shift (j * shape.bytes)

structure Place where
  start : Location
  block : Block
  deriving DecidableEq, Repr

namespace Place

def region (a : Place) : Region :=
  ⟨a.start, a.block.size⟩

def Slot (a : Place) (slot : Location) : Prop :=
  match a.block with
  | .root => slot = a.start
  | .struct shape => shape.SlotAt a.start slot
  | .list .pointer len => ∃ i, i < len ∧ slot = a.start.shift (i * 8)
  | .composite shape len => ∃ j, j < len ∧ shape.SlotAt (shape.memberAt a.start j) slot
  | _ => False

def Data (a : Place) (l : Location) : Prop :=
  match a.block with
  | .struct shape => a.start.Extent shape.data l
  | .list .pointer _ => False
  | .list elem len => a.start.Extent (elem.bytesFor len) l
  | .composite shape len => ∃ j, j < len ∧ (shape.memberAt a.start j).Extent shape.data l
  | _ => False

def Mutable (a : Place) (l : Location) : Prop :=
  a.Data l ∨ ∃ slot, a.Slot slot ∧ slot.Extent 8 l

structure Sound (m : Nat) (s : Store) (a : Place) : Prop where
  message : a.start.segment.message = m
  aligned : a.start.address % 8 = 0
  covers : s.covers a.start a.block.size = true
  regular : a.block.Regular
  words : a.block.Words s a.start

end Place

theorem StructShape.SlotAt.bounds {shape : StructShape} {loc slot : Location}
    (h : shape.SlotAt loc slot) : slot.segment = loc.segment ∧
      loc.address + shape.data ≤ slot.address ∧ slot.address + 8 ≤ loc.address + shape.bytes := by
  obtain ⟨i, hi, rfl⟩ := h
  refine ⟨rfl, ?_, ?_⟩
  · rw [Location.shift_address]
    omega
  · rw [Location.shift_address, StructShape.bytes, StructShape.slotBytes]
    omega

theorem StructShape.SlotAt.aligned {shape : StructShape} {loc slot : Location}
    (h : shape.SlotAt loc slot) (hr : shape.Regular) (hl : loc.address % 8 = 0) :
    slot.address % 8 = 0 := by
  obtain ⟨i, _, rfl⟩ := h
  have hdata := hr.1
  rw [Location.shift_address]
  omega

@[simp] theorem StructShape.memberAt_segment (shape : StructShape) (tag : Location) (j : Nat) :
    (shape.memberAt tag j).segment = tag.segment := rfl

@[simp] theorem StructShape.memberAt_address (shape : StructShape) (tag : Location) (j : Nat) :
    (shape.memberAt tag j).address = tag.address + 8 + j * shape.bytes := rfl

namespace Place

variable {a : Place} {l slot : Location} {shape : StructShape} {len i j : Nat}

theorem Slot.bounds (h : a.Slot slot) : slot.segment = a.start.segment ∧
    a.start.address ≤ slot.address ∧ slot.address + 8 ≤ a.start.address + a.block.size := by
  obtain ⟨start, block⟩ := a
  cases block with
  | root =>
      obtain rfl : slot = start := h
      exact ⟨rfl, Nat.le_refl _, Nat.le_refl _⟩
  | struct shape =>
      obtain ⟨hs, hlo, hhi⟩ := StructShape.SlotAt.bounds h
      exact ⟨hs, Nat.le_trans (Nat.le_add_right _ _) hlo, hhi⟩
  | list elem len =>
      cases elem with
      | pointer =>
          obtain ⟨i, hi, rfl⟩ := h
          refine ⟨rfl, Nat.le_add_right _ _, ?_⟩
          rw [Location.shift_address, Block.size, ElementKind.bytesFor_pointer]
          omega
      | _ => exact h.elim
  | composite shape len =>
      obtain ⟨j, hj, hslot⟩ := h
      obtain ⟨hs, hlo, hhi⟩ := hslot.bounds
      have hle := shape.mul_bytes_le hj
      simp only [StructShape.memberAt_address] at hlo hhi
      refine ⟨hs, ?_, ?_⟩
      · change start.address ≤ slot.address
        omega
      · change slot.address + 8 ≤ start.address + (8 + len * shape.bytes)
        omega
  | pad double => exact h.elim

theorem Slot.has (h : a.Slot slot) (hl : slot.Extent 8 l) : a.region.Has l := by
  obtain ⟨hs, hlo, hhi⟩ := h.bounds
  obtain ⟨hls, hllo, hlhi⟩ := hl
  exact ⟨hls.trans hs, Nat.le_trans hlo hllo, Nat.lt_of_lt_of_le hlhi hhi⟩

theorem Slot.aligned (h : a.Slot slot) (hr : a.block.Regular) (ha : a.start.address % 8 = 0) :
    slot.address % 8 = 0 := by
  obtain ⟨start, block⟩ := a
  cases block with
  | root =>
      obtain rfl : slot = start := h
      exact ha
  | struct shape => exact StructShape.SlotAt.aligned h hr ha
  | list elem len =>
      cases elem with
      | pointer =>
          obtain ⟨i, _, rfl⟩ := h
          rw [Location.shift_address]
          omega
      | _ => exact h.elim
  | composite shape len =>
      obtain ⟨j, _, hslot⟩ := h
      refine hslot.aligned hr.1 ?_
      have hmul := hr.1.mul_bytes_mod j
      rw [StructShape.memberAt_address]
      omega
  | pad double => exact h.elim

theorem Data.has (h : a.Data l) : a.region.Has l := by
  obtain ⟨start, block⟩ := a
  cases block with
  | root => exact h.elim
  | struct shape => exact Location.Extent.mono h (Nat.le_add_right _ _)
  | list elem len =>
      cases elem with
      | pointer => exact h.elim
      | _ => exact h
  | composite shape len =>
      obtain ⟨j, hj, hs, hlo, hhi⟩ := h
      have hle := shape.mul_bytes_le hj
      have hdata : shape.data ≤ shape.bytes := Nat.le_add_right _ _
      simp only [StructShape.memberAt_address] at hlo hhi
      refine ⟨hs, ?_, ?_⟩
      · change start.address ≤ l.address
        omega
      · change l.address < start.address + (8 + len * shape.bytes)
        omega
  | pad double => exact h.elim

theorem Mutable.has (h : a.Mutable l) : a.region.Has l := by
  rcases h with hdata | ⟨slot, hslot, hl⟩
  · exact hdata.has
  · exact hslot.has hl

theorem Data.apart (h : a.Data l) (hs : a.Slot slot) : ¬ slot.Extent 8 l := by
  obtain ⟨start, block⟩ := a
  rintro ⟨_, hslo, hshi⟩
  cases block with
  | root => exact h.elim
  | struct shape =>
      obtain ⟨_, hlo, _⟩ := StructShape.SlotAt.bounds hs
      obtain ⟨_, _, hhi⟩ := h
      omega
  | list elem len =>
      cases elem with
      | pointer => exact h.elim
      | _ => exact hs.elim
  | composite shape len =>
      obtain ⟨j, hj, _, hlo, hhi⟩ := h
      obtain ⟨i, hi, hslot⟩ := hs
      obtain ⟨_, hilo, hihi⟩ := hslot.bounds
      have hdata : shape.data ≤ shape.bytes := Nat.le_add_right _ _
      simp only [StructShape.memberAt_address] at hlo hhi hilo hihi
      rcases Nat.lt_trichotomy i j with hij | rfl | hij
      · have hle := shape.mul_bytes_le hij
        omega
      · omega
      · have hle := shape.mul_bytes_le hij
        omega
  | pad double => exact h.elim

def Word (a : Place) (k : Location) : Prop :=
  k.segment = a.start.segment ∧ a.start.address ≤ k.address ∧
    k.address + 8 ≤ a.start.address + a.block.size

theorem Word.has {k : Location} (h : a.Word k) (hl : k.Extent 8 l) : a.region.Has l := by
  obtain ⟨hs, hlo, hhi⟩ := h
  obtain ⟨hls, hllo, hlhi⟩ := hl
  exact ⟨hls.trans hs, Nat.le_trans hlo hllo, Nat.lt_of_lt_of_le hlhi hhi⟩

theorem tag_apart {tag : Location} (h : (Place.mk tag (.composite shape len)).Mutable l) :
    ¬ tag.Extent 8 l := by
  rintro ⟨_, _, hhi⟩
  rcases h with ⟨j, _, _, hlo, _⟩ | ⟨slot, ⟨j, _, hslot⟩, _, hlo, _⟩
  · simp only [StructShape.memberAt_address] at hlo
    omega
  · obtain ⟨_, hslo, _⟩ := hslot.bounds
    simp only [StructShape.memberAt_address] at hslo
    omega

theorem words_congr {s t : Store} (h : a.block.Words s a.start)
    (ht : ∀ k, a.Word k → (∀ l, k.Extent 8 l → ¬ a.Mutable l) → t.wordAt k = s.wordAt k) :
    a.block.Words t a.start := by
  obtain ⟨start, block⟩ := a
  cases block with
  | composite shape len =>
      have htag : t.wordAt start = s.wordAt start := by
        refine ht start ⟨rfl, Nat.le_refl _, Nat.add_le_add_left (Nat.le_add_right _ _) _⟩ ?_
        exact fun l hl hchanged => tag_apart hchanged hl
      exact htag.trans h
  | pad double =>
      have hfixed (l : Location) : ¬ (Place.mk start (.pad double)).Mutable l := by
        rintro (hdata | ⟨slot, hslot, _⟩)
        · exact hdata
        · exact hslot
      cases double with
      | false =>
          have hword : t.wordAt start = s.wordAt start :=
            ht start ⟨rfl, Nat.le_refl _, Nat.le_refl _⟩ fun l _ => hfixed l
          rw [Block.Words, hword]
          exact h
      | true =>
          have hfirst : t.wordAt start = s.wordAt start :=
            ht start ⟨rfl, Nat.le_refl _, Nat.add_le_add_left (Nat.le_add_right 8 8) _⟩ fun l _ =>
              hfixed l
          have hsecond : t.wordAt (start.shift 8) = s.wordAt (start.shift 8) :=
            ht (start.shift 8) ⟨rfl, Nat.le_add_right _ _, Nat.le_of_eq (Nat.add_assoc _ _ _)⟩
              fun l _ => hfixed l
          rw [Block.Words, hfirst, hsecond]
          exact h
  | _ => trivial

end Place

abbrev Heap := List Place

namespace Heap

def Slot (H : Heap) (slot : Location) : Prop :=
  ∃ a ∈ H, a.Slot slot

def Data (H : Heap) (l : Location) : Prop :=
  ∃ a ∈ H, a.Data l

def Mutable (H : Heap) (l : Location) : Prop :=
  ∃ a ∈ H, a.Mutable l

def Free (H : Heap) (slot l : Location) : Prop :=
  H.Mutable l ∧ ¬ slot.Extent 8 l

def Object (H : Heap) : Pointer → Prop
  | .struct (.backed loc shape member) => member = false ∧ ⟨loc, .struct shape⟩ ∈ H
  | .list (.backed loc len .composite shape) =>
    ∃ tag, loc = Location.shift tag 8 ∧ ⟨tag, .composite shape len⟩ ∈ H
  | .list (.backed loc len elem shape) => shape = .empty ∧ ⟨loc, .list elem len⟩ ∈ H
  | _ => False

/-- What a slot shows: nothing, a capability, a struct without content, or a whole object. -/
def Shows (H : Heap) (p : Pointer) : Prop :=
  p = .null ∨ (∃ i, p = .capability i) ∨ (∃ l, p = .struct (.backed l .empty false)) ∨ H.Object p

def View (H : Heap) (p : Pointer) : Prop :=
  H.Shows p ∨ ∃ tag shape len j, ⟨tag, .composite shape len⟩ ∈ H ∧ j < len ∧
    p = .struct (.backed (shape.memberAt tag j) shape true)

/-- The slot shows `p` as long as it is not written itself. A struct without content has no place but
the slot. -/
structure ShownAs (H : Heap) (m : Nat) (s : Store) (slot : Location) (p : Pointer) : Prop where
  shows : H.Shows p
  home : ∀ l, p = .struct (.backed l .empty false) → l = slot
  steady : ∀ u, s.Grows m (H.Free slot) u → u.pointerAt slot = .ok p

def Shown (H : Heap) (m : Nat) (s : Store) (slot : Location) : Prop :=
  ∃ p, H.ShownAs m s slot p

theorem ShownAs.pointerAt {H : Heap} {m : Nat} {s : Store} {slot : Location} {p : Pointer}
    (h : H.ShownAs m s slot p) : s.pointerAt slot = .ok p :=
  h.steady s (.refl _ _ s)

structure WellFormed (H : Heap) (m : Nat) (s : Store) : Prop where
  valid : s.Valid
  apart : H.Pairwise fun a b => a.region.Apart b.region
  used : ∀ l, l.segment.message = m → (s.Used l ↔ ∃ a ∈ H, a.region.Has l)
  sound : ∀ a ∈ H, a.Sound m s
  root : ⟨rootSlot m, .root⟩ ∈ H
  slots : ∀ slot, H.Slot slot → H.Shown m s slot

section Larger

variable {H new : Heap} {l slot : Location} {p : Pointer}

theorem Slot.mono (h : H.Slot slot) : (new ++ H).Slot slot := by
  obtain ⟨a, ha, hslot⟩ := h
  exact ⟨a, List.mem_append_right new ha, hslot⟩

theorem Mutable.mono (h : H.Mutable l) : (new ++ H).Mutable l := by
  obtain ⟨a, ha, hl⟩ := h
  exact ⟨a, List.mem_append_right new ha, hl⟩

theorem Object.mono (h : H.Object p) : (new ++ H).Object p := by
  cases p with
  | struct v =>
      cases v with
      | absent => exact h
      | backed loc shape member => exact ⟨h.1, List.mem_append_right new h.2⟩
  | list v =>
      cases v with
      | absent => exact h
      | backed loc len elem shape =>
          cases elem with
          | composite =>
              obtain ⟨tag, rfl, ha⟩ := h
              exact ⟨tag, rfl, List.mem_append_right new ha⟩
          | _ => exact ⟨h.1, List.mem_append_right new h.2⟩
  | _ => exact h

theorem Shows.mono (h : H.Shows p) : (new ++ H).Shows p := by
  rcases h with rfl | hcap | hempty | hobject
  · exact .inl rfl
  · exact .inr (.inl hcap)
  · exact .inr (.inr (.inl hempty))
  · exact .inr (.inr (.inr hobject.mono))

theorem View.mono (h : H.View p) : (new ++ H).View p := by
  rcases h with hshows | ⟨tag, shape, len, j, ha, hj, rfl⟩
  · exact .inl hshows.mono
  · exact .inr ⟨tag, shape, len, j, List.mem_append_right new ha, hj, rfl⟩

theorem Slot.mutable (h : H.Slot slot) (hl : slot.Extent 8 l) : H.Mutable l := by
  obtain ⟨a, ha, hslot⟩ := h
  exact ⟨a, ha, .inr ⟨slot, hslot, hl⟩⟩

theorem Data.mutable (h : H.Data l) : H.Mutable l := by
  obtain ⟨a, ha, hdata⟩ := h
  exact ⟨a, ha, .inl hdata⟩

theorem Data.of_list {loc : Location} {elem : ElementKind} {len : Nat}
    (ha : ⟨loc, .list elem len⟩ ∈ H) (hp : elem ≠ .pointer)
    (hl : loc.Extent (elem.bytesFor len) l) : H.Data l := by
  refine ⟨_, ha, ?_⟩
  cases elem with
  | pointer => exact absurd rfl hp
  | _ => exact hl

end Larger

namespace WellFormed

variable {H new : Heap} {m : Nat} {s t : Store} {l slot : Location} {a b : Place}

theorem place_message (h : H.WellFormed m s) (ha : a ∈ H) (hl : a.region.Has l) :
    l.segment.message = m := by
  rw [hl.1]
  exact (h.sound a ha).message

theorem place_used (h : H.WellFormed m s) (ha : a ∈ H) (hl : a.region.Has l) : s.Used l :=
  (h.used l (h.place_message ha hl)).mpr ⟨a, ha, hl⟩

theorem place_unique (h : H.WellFormed m s) (ha : a ∈ H) (hb : b ∈ H) (hal : a.region.Has l)
    (hbl : b.region.Has l) : a = b := by
  by_contra hne
  have hsymm : Std.Symm fun a b : Place => a.region.Apart b.region :=
    ⟨fun _ _ hab l hb ha => hab l ha hb⟩
  exact h.apart.forall ha hb hne l hal hbl

theorem mutable_used (h : H.WellFormed m s) (hl : H.Mutable l) : s.Used l := by
  obtain ⟨a, ha, hal⟩ := hl
  exact h.place_used ha hal.has

theorem slot_message (h : H.WellFormed m s) (hs : H.Slot slot) : slot.segment.message = m := by
  obtain ⟨a, ha, hslot⟩ := hs
  rw [hslot.bounds.1]
  exact (h.sound a ha).message

theorem slot_aligned (h : H.WellFormed m s) (hs : H.Slot slot) : slot.address % 8 = 0 := by
  obtain ⟨a, ha, hslot⟩ := hs
  exact hslot.aligned (h.sound a ha).regular (h.sound a ha).aligned

theorem slot_covers (h : H.WellFormed m s) (hs : H.Slot slot) : s.covers slot 8 = true := by
  obtain ⟨a, ha, hslot⟩ := hs
  obtain ⟨hseg, _, hhi⟩ := hslot.bounds
  exact covers_mono (h.sound a ha).covers hseg hhi

theorem slots_apart (h : H.WellFormed m s) {other : Location} (hs : H.Slot slot)
    (ho : H.Slot other) (hne : slot ≠ other) (hl : slot.Extent 8 l) : ¬ other.Extent 8 l := by
  intro hlo
  apply hne
  have hsmod := h.slot_aligned hs
  have homod := h.slot_aligned ho
  obtain ⟨hseg, hslo, hshi⟩ := hl
  obtain ⟨hoseg, holo, hohi⟩ := hlo
  have haddress : slot.address = other.address := by omega
  obtain ⟨sseg, saddr⟩ := slot
  obtain ⟨oseg, oaddr⟩ := other
  obtain rfl : sseg = oseg := hseg.symm.trans hoseg
  obtain rfl : saddr = oaddr := haddress
  rfl

theorem data_apart (h : H.WellFormed m s) (hl : H.Data l) (hs : H.Slot slot) :
    ¬ slot.Extent 8 l := by
  obtain ⟨a, ha, hdata⟩ := hl
  obtain ⟨b, hb, hslot⟩ := hs
  intro hin
  obtain rfl := h.place_unique ha hb hdata.has (hslot.has hin)
  exact hdata.apart hslot hin

theorem sound_later {changed : Location → Prop} (h : H.WellFormed m s)
    (he : s.Extends m changed t) (hc : ∀ l, changed l → s.Used l → H.Mutable l) (ha : a ∈ H) :
    a.Sound m t where
  message := (h.sound a ha).message
  aligned := (h.sound a ha).aligned
  covers := he.covers (h.sound a ha).covers
  regular := (h.sound a ha).regular
  words := by
    refine Place.words_congr (h.sound a ha).words fun k hk hfixed => ?_
    refine he.wordAt_eq (covers_mono (h.sound a ha).covers hk.1 hk.2.2) fun l hl hchanged => ?_
    have hhas := hk.has hl
    obtain ⟨b, hb, hbl⟩ := hc l hchanged (h.place_used ha hhas)
    obtain rfl := h.place_unique ha hb hhas hbl.has
    exact hfixed l hl hbl

theorem grow (new : Heap) {changed : Location → Prop} (h : H.WellFormed m s) (he : s.Extends m changed t)
    (hc : ∀ l, changed l → s.Used l → H.Mutable l)
    (hfresh : ∀ a ∈ new, ∀ l, a.region.Has l → ¬ s.Used l)
    (hapart : new.Pairwise fun a b => a.region.Apart b.region) (hsound : ∀ a ∈ new, a.Sound m t)
    (hused : ∀ l, l.segment.message = m →
      (t.Used l ↔ s.Used l ∨ ∃ a ∈ new, a.region.Has l))
    (hslots : ∀ slot, H.Slot slot →
      (∀ l, changed l → ¬ slot.Extent 8 l) ∨ Shown (new ++ H) m t slot)
    (hnew : ∀ slot, Slot new slot → Shown (new ++ H) m t slot) : (new ++ H).WellFormed m t where
  valid := he.valid h.valid
  apart := by
    refine List.pairwise_append.mpr ⟨hapart, h.apart, ?_⟩
    exact fun a ha b hb l hal hbl => hfresh a ha l hal (h.place_used hb hbl)
  used l hl := by
    rw [hused l hl, h.used l hl]
    constructor
    · rintro (⟨a, ha, hal⟩ | ⟨a, ha, hal⟩)
      · exact ⟨a, List.mem_append_right new ha, hal⟩
      · exact ⟨a, List.mem_append_left H ha, hal⟩
    · rintro ⟨a, ha, hal⟩
      rcases List.mem_append.mp ha with ha | ha
      · exact .inr ⟨a, ha, hal⟩
      · exact .inl ⟨a, ha, hal⟩
  sound a ha := by
    rcases List.mem_append.mp ha with ha | ha
    · exact hsound a ha
    · exact h.sound_later he hc ha
  root := List.mem_append_right new h.root
  slots slot hslot := by
    obtain ⟨a, ha, hslot⟩ := hslot
    rcases List.mem_append.mp ha with ha | ha
    · exact hnew slot ⟨a, ha, hslot⟩
    · have hold : H.Slot slot := ⟨a, ha, hslot⟩
      rcases hslots slot hold with hkeep | hshown
      · obtain ⟨p, hp⟩ := h.slots slot hold
        -- what changes on the way to `u` is old memory other than the slot, or new memory
        refine ⟨p, hp.shows.mono, hp.home, fun u hu => hp.steady u ?_⟩
        have hfirst : s.Grows m (Free (new ++ H) slot) t :=
          he.grows.weaken fun l _ hl hch => ⟨(hc l hch hl).mono, hkeep l hch⟩
        refine (hfirst.trans hu).weaken fun l _ hl hfree => ⟨?_, hfree.2⟩
        obtain ⟨b, hb, hbl⟩ := hfree.1
        rcases List.mem_append.mp hb with hb | hb
        · exact absurd hl (hfresh b hb l hbl.has)
        · exact ⟨b, hb, hbl⟩
      · exact hshown

end WellFormed

end Heap

end SegmentedMessage
