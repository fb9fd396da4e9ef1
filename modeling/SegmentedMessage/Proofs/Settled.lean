import SegmentedMessage.Proofs.Target
import SegmentedMessage.Proofs.Tree

/-!
What is settled in message `m` at a store `t`: a value that is read the same from `t` on, as long as
changes keep to `free`. Its regions are apart from each other, and lie in memory that the earlier
store `s` did not use or that is the value's own.
-/

namespace SegmentedMessage

structure Observation (α : Type) where
  value : Store → Option α
  regions : Store → List Region

namespace Observation

def gathered {α : Type} (o : Nat → Observation α) (j n : Nat) : Observation (List α) where
  value u := gather (fun i => (o i).value u) j n
  regions u := spread (fun i => (o i).regions u) j n

def ofPointer (k : Nat) (p : Pointer) : Observation Tree where
  value u := u.tree? k p
  regions u := u.regions k p

def ofSlot (k : Nat) (slot : Location) : Observation Tree where
  value u := Store.slotTree (u.tree? k) (u.pointerAt slot)
  regions u := Store.slotRegions (u.regions k) (u.pointerAt slot)

def ofStruct (k : Nat) (v : StructView) : Observation Tree where
  value u := u.structTree (u.tree? k) v
  regions u := u.structRegions (u.regions k) v

end Observation

open Store Observation

theorem Store.range_zero (s : Store) (l : Location) : s.range l 0 = [] := by
  rw [range, window, List.take_zero]

structure Settled {α : Type} (m : Nat) (own free : Location → Prop) (s t : Store)
    (o : Observation α) (x : α) : Prop where
  value : ∀ u, t.Grows m free u → o.value u = some x
  regions : ∀ u, t.Grows m free u → o.regions u = o.regions t
  message : ∀ r ∈ o.regions t, r.start.segment.message = m
  used : ∀ r ∈ o.regions t, ∀ l, r.Has l → t.Used l
  fresh : ∀ r ∈ o.regions t, ∀ l, r.Has l → s.Used l → own l
  apart : (o.regions t).Pairwise Region.Apart

theorem Region.Has.message {r : Region} {l : Location} {m : Nat} (h : r.Has l)
    (hr : r.start.segment.message = m) : l.segment.message = m := by
  rw [h.1, hr]

namespace Settled

variable {α : Type} {m : Nat} {own own' free free' : Location → Prop} {s s' t t' : Store}
  {o : Observation α} {x : α}

theorem later (h : Settled m own free s t o x) (ht : t.Grows m free t') :
    Settled m own free s t' o x := by
  have heq := h.regions t' ht
  refine ⟨fun u hu => h.value u (ht.trans hu), ?_, ?_, ?_, ?_, ?_⟩
  · intro u hu
    rw [h.regions u (ht.trans hu), heq]
  · rw [heq]
    exact h.message
  · rw [heq]
    intro r hr l hl
    exact ht.used (hl.message (h.message r hr)) (h.used r hr l hl)
  · rw [heq]
    exact h.fresh
  · rw [heq]
    exact h.apart

theorem narrow (h : Settled m own free s t o x)
    (hf : ∀ l, l.segment.message = m → t.Used l → free' l → free l) :
    Settled m own free' s t o x where
  value u hu := h.value u (hu.weaken hf)
  regions u hu := h.regions u (hu.weaken hf)
  message := h.message
  used := h.used
  fresh := h.fresh
  apart := h.apart

theorem since (h : Settled m own free s t o x)
    (hs : ∀ l, l.segment.message = m → s'.Used l → s.Used l ∧ (own l → own' l)) :
    Settled m own' free s' t o x where
  value := h.value
  regions := h.regions
  message := h.message
  used := h.used
  fresh r hr l hl hused := by
    obtain ⟨hsu, hown⟩ := hs l (hl.message (h.message r hr)) hused
    exact hown (h.fresh r hr l hl hsu)
  apart := h.apart

theorem of_fresh {l : Location} {n : Nat} (h : Settled m (l.Extent n) (s'.Outside l n) s' t o x)
    (he : s.Extends m untouched s') (hf : s.Fresh l) : Settled m untouched s.Used s t o x := by
  have hapart (k : Location) (hk : s.Used k) : ¬ l.Extent n k := fun h => hf.not_used h.onward hk
  have hnarrow : Settled m (l.Extent n) s.Used s' t o x :=
    h.narrow fun k _ _ hk => ⟨he.used hk, hapart k hk⟩
  exact hnarrow.since fun k _ hk => ⟨he.used hk, hapart k hk⟩

theorem of_pointer {slot : Location} {p : Pointer} {k : Nat} {T : Tree}
    (h : Settled m own free s t (ofPointer k p) T)
    (hp : ∀ u, t.Grows m free u → u.pointerAt slot = .ok p) :
    Settled m own free s t (ofSlot k slot) T := by
  have heq (u : Store) (hu : t.Grows m free u) :
      (ofSlot k slot).value u = (ofPointer k p).value u ∧
        (ofSlot k slot).regions u = (ofPointer k p).regions u := by
    simp only [ofSlot, ofPointer, hp u hu]
    exact ⟨rfl, rfl⟩
  have ht := (heq t (.refl _ _ _)).2
  refine ⟨?_, ?_, ?_, ?_, ?_, ?_⟩
  · intro u hu
    rw [(heq u hu).1]
    exact h.value u hu
  · intro u hu
    rw [(heq u hu).2, ht]
    exact h.regions u hu
  · rw [ht]
    exact h.message
  · rw [ht]
    exact h.used
  · rw [ht]
    exact h.fresh
  · rw [ht]
    exact h.apart

theorem nil (o : Nat → Observation α) (j : Nat) :
    Settled m own free s t (gathered o j 0) [] where
  value _ _ := rfl
  regions _ _ := rfl
  message _ hr := nomatch hr
  used _ hr := nomatch hr
  fresh _ hr := nomatch hr
  apart := .nil

theorem cons {own₁ own₂ free₁ free₂ : Location → Prop} {t₁ : Store} {o : Nat → Observation α}
    {j n : Nat} {xs : List α} (h₁ : Settled m own₁ free₁ s t₁ (o j) x)
    (h₂ : Settled m own₂ free₂ t₁ t (gathered o (j + 1) n) xs)
    (hs : ∀ l, l.segment.message = m → s.Used l → t₁.Used l) (ht : t₁.Grows m free₁ t)
    (hf₁ : ∀ l, l.segment.message = m → t.Used l → free l → free₁ l)
    (hf₂ : ∀ l, l.segment.message = m → t.Used l → free l → free₂ l)
    (hown : ∀ l, own₂ l → s.Used l) (hdisj : ∀ l, own₁ l → ¬ own₂ l) :
    Settled m (fun l => own₁ l ∨ own₂ l) free s t (gathered o j (n + 1)) (x :: xs) := by
  have h₁' := (h₁.later ht).narrow hf₁
  have h₂' := h₂.narrow hf₂
  have hfirst := h₁.regions t ht
  refine ⟨?_, ?_, ?_, ?_, ?_, ?_⟩
  · intro u hu
    exact gather_succ_eq_some.mpr ⟨x, xs, h₁'.value u hu, h₂'.value u hu, rfl⟩
  · intro u hu
    change (o j).regions u ++ (gathered o (j + 1) n).regions u = _
    rw [h₁'.regions u hu, h₂'.regions u hu]
    rfl
  · intro r hr
    rcases List.mem_append.mp hr with hr | hr
    · exact h₁'.message r hr
    · exact h₂'.message r hr
  · intro r hr l hl
    rcases List.mem_append.mp hr with hr | hr
    · exact h₁'.used r hr l hl
    · exact h₂'.used r hr l hl
  · intro r hr l hl hused
    rcases List.mem_append.mp hr with hr | hr
    · exact .inl (h₁'.fresh r hr l hl hused)
    · exact .inr (h₂'.fresh r hr l hl (hs l (hl.message (h₂'.message r hr)) hused))
  · refine List.pairwise_append.mpr ⟨h₁'.apart, h₂'.apart, ?_⟩
    intro r hr q hq l hl hlq
    have hr₁ : r ∈ (o j).regions t₁ := by
      rw [← hfirst]
      exact hr
    have howned : own₂ l := h₂'.fresh q hq l hlq (h₁.used r hr₁ l hl)
    exact hdisj l (h₁.fresh r hr₁ l hl (hown l howned)) howned

theorem row {size i n : Nat} {loc : Location} {own₁ own₂ : Location → Prop} {t₁ : Store}
    {o : Nat → Observation α} {xs : List α}
    (h₁ : Settled m own₁ (s.Outside (loc.shift (i * size)) size) s t₁ (o i) x)
    (h₂ : Settled m own₂ (t₁.Outside (loc.shift ((i + 1) * size)) (n * size)) t₁ t
      (gathered o (i + 1) n) xs)
    (hc : s.covers (loc.shift (i * size)) ((n + 1) * size) = true)
    (he₁ : s.Extends m ((loc.shift (i * size)).Extent size) t₁)
    (he₂ : t₁.Extends m ((loc.shift ((i + 1) * size)).Extent (n * size)) t)
    (hown₁ : ∀ l, own₁ l → (loc.shift (i * size)).Extent size l)
    (hown₂ : ∀ l, own₂ l → (loc.shift ((i + 1) * size)).Extent (n * size) l) :
    Settled m (fun l => own₁ l ∨ own₂ l) (s.Outside (loc.shift (i * size)) ((n + 1) * size)) s t
      (gathered o i (n + 1)) (x :: xs) := by
  have hnext : (i + 1) * size = i * size + size := Nat.succ_mul _ _
  have hall : (n + 1) * size = n * size + size := Nat.succ_mul _ _
  have hrest (l : Location) (hl : (loc.shift ((i + 1) * size)).Extent (n * size) l) : s.Used l :=
    used_of_extent hc (hl.within (by omega) (by omega))
  refine h₁.cons h₂ (fun l _ hl => he₁.used hl) ?_ ?_ ?_ (fun l hl => hrest l (hown₂ l hl)) ?_
  · exact he₂.grows.weaken fun l _ _ hl => ⟨hrest l hl, hl.apart (by omega)⟩
  · exact fun l _ _ hl => ⟨hl.1, fun h => hl.2 (h.within (by omega) (by omega))⟩
  · exact fun l _ _ hl => ⟨he₁.used hl.1, fun h => hl.2 (h.within (by omega) (by omega))⟩
  · exact fun l hl hl' => (hown₁ l hl).apart (by omega) (hown₂ l hl')

theorem object {parts : Observation (List Tree)} {o : Observation Tree} {r : Region}
    {xs : List Tree} {T : Tree} (h : Settled m own free s t parts xs)
    (hm : r.start.segment.message = m) (hs : ∀ l, l.segment.message = m → s.Used l → t.Used l)
    (hr : ∀ l, r.Has l → s.Used l ∧ own' l ∧ ¬ own l) (hown : ∀ l, own l → own' l)
    (hval : ∀ u, t.Grows m free u → parts.value u = some xs → o.value u = some T)
    (hreg : ∀ u, o.regions u = r :: parts.regions u) : Settled m own' free s t o T := by
  refine ⟨fun u hu => hval u hu (h.value u hu), ?_, ?_, ?_, ?_, ?_⟩
  · intro u hu
    rw [hreg, hreg, h.regions u hu]
  · rw [hreg]
    intro q hq
    rcases List.mem_cons.mp hq with rfl | hq
    · exact hm
    · exact h.message q hq
  · rw [hreg]
    intro q hq l hl
    rcases List.mem_cons.mp hq with rfl | hq
    · exact hs l (hl.message hm) (hr l hl).1
    · exact h.used q hq l hl
  · rw [hreg]
    intro q hq l hl hused
    rcases List.mem_cons.mp hq with rfl | hq
    · exact (hr l hl).2.1
    · exact hown l (h.fresh q hq l hl hused)
  · rw [hreg]
    refine List.pairwise_cons.mpr ⟨?_, h.apart⟩
    intro q hq l hl hlq
    obtain ⟨hused, _, hnot⟩ := hr l hl
    exact hnot (h.fresh q hq l hlq hused)

theorem of_regions_nil (hval : ∀ u, o.value u = some x) (hreg : ∀ u, o.regions u = []) :
    Settled m own free s t o x := by
  refine ⟨fun u _ => hval u, fun u _ => by rw [hreg, hreg], ?_, ?_, ?_, ?_⟩
  · rw [hreg]
    exact fun r hr => nomatch hr
  · rw [hreg]
    exact fun r hr => nomatch hr
  · rw [hreg]
    exact fun r hr => nomatch hr
  · rw [hreg]
    exact .nil

theorem null (k : Nat) : Settled m own free s t (ofPointer (k + 1) .null) .null :=
  of_regions_nil (fun u => by simp only [ofPointer, tree?, treeWith])
    fun u => by simp only [ofPointer, Store.regions, regionsWith]

theorem capability (k : Nat) (i : UInt32) :
    Settled m own free s t (ofPointer (k + 1) (.capability i)) (.capability i) :=
  of_regions_nil (fun u => by simp only [ofPointer, tree?, treeWith])
    fun u => by simp only [ofPointer, Store.regions, regionsWith]

theorem emptyStruct (k : Nat) {l : Location} (hl : l.segment.message = m) (member : Bool) :
    Settled m own free s t (ofPointer (k + 1) (.struct (.backed l .empty member)))
      (.struct .empty [] []) := by
  have hslots : StructShape.empty.slots.toNat = 0 := rfl
  have hbytes : StructShape.empty.bytes = 0 := rfl
  have hdata : StructShape.empty.data = 0 := rfl
  have hreg (u : Store) : (ofPointer (k + 1) (.struct (.backed l .empty member))).regions u
      = [⟨l, 0⟩] := by
    simp only [ofPointer, Store.regions, regionsWith, structRegions, hslots, hbytes, spread]
  have hnone (k : Location) : ¬ (⟨l, 0⟩ : Region).Has k := by
    rintro ⟨_, hlo, hhi⟩
    exact absurd hhi (Nat.not_lt.mpr hlo)
  refine ⟨?_, fun u _ => by rw [hreg, hreg], ?_, ?_, ?_, ?_⟩
  · intro u _
    simp only [ofPointer, tree?, treeWith, structTree, hslots, hdata, gather, Store.range_zero,
      Option.map_some]
  · rw [hreg]
    intro r hr
    obtain rfl := List.mem_singleton.mp hr
    exact hl
  · rw [hreg]
    intro r hr k hk
    obtain rfl := List.mem_singleton.mp hr
    exact absurd hk (hnone k)
  · rw [hreg]
    intro r hr k hk
    obtain rfl := List.mem_singleton.mp hr
    exact absurd hk (hnone k)
  · rw [hreg]
    exact List.pairwise_singleton _ _

end Settled

end SegmentedMessage
