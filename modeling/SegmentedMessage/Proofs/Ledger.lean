import SegmentedMessage.Proofs.Containment

namespace SegmentedMessage

open Layout

structure Grant where
  segment : Nat
  address : Nat
  size : Nat
  deriving DecidableEq, Repr

def Grant.Holds (g : Grant) (i k : Nat) : Prop :=
  i = g.segment ∧ g.address ≤ k ∧ k < g.address + g.size

def Grant.Apart (g h : Grant) : Prop :=
  g.segment ≠ h.segment ∨ g.address + g.size ≤ h.address ∨ h.address + h.size ≤ g.address

inductive ArenaCall where
  | allocate (pref n : Nat)
  | allocateIn (id n : Nat)
  | write (id addr width v : Nat)
  | writeWord (id addr : Nat) (w : PointerWord)
  | clear (id addr n : Nat)
  | copy (id addr : Nat) (other : Option Arena) (srcId srcAddr n : Nat)

namespace ArenaCall

def settle {ε α : Type} : EStateM.Result ε Arena α → Option Grant × Arena
  | .ok _ b => (none, b)
  | .error _ b => (none, b)

def run (a : Arena) : ArenaCall → Option Grant × Arena
  | allocate pref n =>
    match Arena.allocate pref n a with
    | .ok (id, addr) b => (some ⟨id, addr, roundUp n⟩, b)
    | .error _ b => (none, b)
  | allocateIn id n =>
    match Arena.allocateIn id n a with
    | .ok (some addr) b => (some ⟨id, addr, roundUp n⟩, b)
    | .ok none b => (none, b)
    | .error _ b => (none, b)
  | write id addr width v => settle (Arena.write id addr width v a)
  | writeWord id addr w => settle (Arena.writeWord id addr w a)
  | clear id addr n => settle (Arena.clear id addr n a)
  | copy id addr other srcId srcAddr n => settle (Arena.copy id addr other srcId srcAddr n a)

end ArenaCall

structure Ledger where
  arena : Arena
  grants : List Grant

namespace Ledger

def after (L : Ledger) (c : ArenaCall) : Ledger :=
  ⟨(c.run L.arena).2, (c.run L.arena).1.toList ++ L.grants⟩

def run (L : Ledger) : List ArenaCall → Ledger
  | [] => L
  | c :: calls => (L.after c).run calls

end Ledger

namespace Arena

inductive Made : Arena → Prop where
  | empty (opts : List ArenaOption) : Made (.empty (.ofOptions opts))
  | ofBuffers {bufs : List ByteArray} {opts : List ArenaOption} {a : Arena}
      (h : ofBuffers bufs (.ofOptions opts) = .ok a) : Made a

def capacity? (a : Arena) (i : Nat) : Option Nat :=
  a.segments[i]?.map Segment.capacity

/-- All that one call can do: nothing, put bytes over used ones, or grant room at the end of a
segment, which may just have been opened. -/
inductive Step (a : Arena) : Option Grant → Arena → Prop where
  | same : Step a none a
  | overwrite {id addr : Nat} {src : ByteArray} (h : a.covers id addr src.size = true) :
      Step a none (a.overwrite id addr src)
  | grant {id n addr : Nat} {c : Arena}
      (hc : c = a ∨ c = a.openSegment (a.nextCapacity (roundUp n)))
      (h : c.room? id (roundUp n) = some addr) :
      Step a (some ⟨id, addr, roundUp n⟩) (c.extend id (roundUp n))

variable {a b : Arena}

theorem step_paste (id addr : Nat) (src : ByteArray) (a : Arena) :
    Step a (ArenaCall.settle (paste id addr src a)).1
      (ArenaCall.settle (paste id addr src a)).2 := by
  simp only [paste]
  split
  · rename_i h
    exact .overwrite h
  · exact .same

theorem step_clear (id addr n : Nat) (a : Arena) :
    Step a (ArenaCall.settle (clear id addr n a)).1 (ArenaCall.settle (clear id addr n a)).2 := by
  cases n with
  | zero => exact .same
  | succ n =>
      rw [clear_of_pos (Nat.succ_pos n)]
      exact step_paste id addr _ a

theorem step_copy (id addr : Nat) (other : Option Arena) (srcId srcAddr n : Nat) (a : Arena) :
    Step a (ArenaCall.settle (copy id addr other srcId srcAddr n a)).1
      (ArenaCall.settle (copy id addr other srcId srcAddr n a)).2 := by
  simp only [copy_eq, pasteFrom]
  split
  · exact .same
  · split
    · exact step_paste id addr _ a
    · exact .same

theorem step_run (c : ArenaCall) (a : Arena) : Step a (c.run a).1 (c.run a).2 := by
  cases c with
  | allocate pref n =>
      simp only [ArenaCall.run]
      split
      · rename_i h
        obtain ⟨c, hc, hroom, rfl⟩ := allocate_grants h
        exact .grant hc hroom
      · rename_i h
        obtain ⟨_, rfl⟩ := allocate_error h
        exact .same
  | allocateIn id n =>
      simp only [ArenaCall.run]
      split
      · rename_i h
        obtain ⟨hr, _⟩ | ⟨k, hr, hroom, rfl⟩ := allocateIn_ok h
        · cases hr
        · cases hr
          exact .grant (.inl rfl) hroom
      · rename_i h
        obtain ⟨_, rfl⟩ | ⟨k, hr, _⟩ := allocateIn_ok h
        · exact .same
        · cases hr
      · rename_i h
        exact (allocateIn_error h).elim
  | write id addr width v => exact step_paste id addr _ a
  | writeWord id addr w => exact step_paste id addr _ a
  | clear id addr n => exact step_clear id addr n a
  | copy id addr other srcId srcAddr n => exact step_copy id addr other srcId srcAddr n a

theorem totalSize_append (xs ys : List ByteArray) :
    totalSize (xs ++ ys) = totalSize xs + totalSize ys := by
  induction xs with
  | nil => simp [totalSize]
  | cons x xs ih =>
      rw [List.cons_append, totalSize, totalSize, ih, Nat.add_assoc]

theorem totalSize_modify {xs : List Segment} {id : Nat} {x : Segment}
    (f : ByteArray → ByteArray) (h : xs[id]? = some x) :
    totalSize ((xs.modify id fun s => { s with bytes := f s.bytes }).map Segment.bytes) +
        x.bytes.size =
      totalSize (xs.map Segment.bytes) + (f x.bytes).size := by
  induction xs generalizing id with
  | nil => cases h
  | cons y ys ih =>
      cases id with
      | zero =>
          cases h
          simp only [List.modify_zero_cons, List.map_cons, totalSize]
          omega
      | succ id =>
          have hys := ih h
          simp only [List.modify_succ_cons, List.map_cons, totalSize]
          omega

theorem total_overwrite {id addr : Nat} {src : ByteArray} (h : a.covers id addr src.size = true) :
    totalSize (a.overwrite id addr src).buffers = totalSize a.buffers := by
  obtain ⟨n, hn, hle⟩ := covers_iff.mp h
  obtain ⟨x, hx, rfl⟩ := Option.map_eq_some_iff.mp hn
  have hsize := Buffer.size_overwrite hle
  have htotal := totalSize_modify (fun bs => Buffer.overwrite bs addr src)
    ((Array.getElem?_toList ..).trans hx)
  simp only [buffers, overwrite, Array.toList_modify]
  omega

theorem total_extend {id : Nat} (h : id < a.count) (n : Nat) :
    totalSize (a.extend id n).buffers = totalSize a.buffers + n := by
  obtain ⟨x, hx⟩ := exists_segment h
  have hsize := Buffer.size_pushZeros n x.bytes
  have htotal := totalSize_modify (Buffer.pushZeros n) ((Array.getElem?_toList ..).trans hx)
  simp only [buffers, extend, Array.toList_modify]
  omega

theorem total_openSegment (a : Arena) (cap : Nat) :
    totalSize (a.openSegment cap).buffers = totalSize a.buffers := by
  simp only [buffers, openSegment, Array.toList_push, List.map_append, totalSize_append]
  rfl

theorem capacity?_overwrite (a : Arena) (id addr : Nat) (src : ByteArray) (i : Nat) :
    (a.overwrite id addr src).capacity? i = a.capacity? i := by
  simp only [capacity?, segments_overwrite]
  split
  · rw [Option.map_map]
    rfl
  · rfl

theorem capacity?_extend (a : Arena) (id n i : Nat) :
    (a.extend id n).capacity? i = a.capacity? i := by
  simp only [capacity?, segments_extend]
  split
  · rw [Option.map_map]
    rfl
  · rfl

theorem capacity?_openSegment (a : Arena) (cap i : Nat) :
    (a.openSegment cap).capacity? i = if i = a.count then some cap else a.capacity? i := by
  simp only [capacity?, segments_openSegment]
  split
  · rfl
  · rfl

theorem length?_extend (a : Arena) (id n i : Nat) :
    (a.extend id n).length? i =
      if id = i then (a.length? i).map fun len => len + n else a.length? i := by
  simp only [length?, segments_extend]
  split
  · rw [Option.map_map, Option.map_map]
    exact congrArg (fun f => a.segments[i]?.map f) (funext fun x => Buffer.size_pushZeros n x.bytes)
  · rfl

theorem length?_openSegment (a : Arena) (cap i : Nat) :
    (a.openSegment cap).length? i = if i = a.count then some 0 else a.length? i := by
  simp only [length?, segments_openSegment]
  split
  · rfl
  · rfl

theorem room?_fits {id n k : Nat} (h : a.room? id n = some k) :
    a.length? id = some k ∧ ∃ c, a.capacity? id = some c ∧ k + n ≤ c := by
  obtain ⟨hid, rfl, x, hx, hfits⟩ := room?_eq_some h
  refine ⟨length?_eq_some.mpr ⟨hid, rfl⟩, x.capacity, ?_, ?_⟩
  · rw [capacity?, hx]
    rfl
  · rwa [contents_of_some hx, Buffer.length_bytes]

theorem double_le_nextCapacity {i c : Nat} (h : a.capacity? i = some c) (hi : i + 1 = a.count)
    (n : Nat) : min (2 * c) largestSegment ≤ a.nextCapacity n := by
  obtain ⟨x, hx, rfl⟩ := Option.map_eq_some_iff.mp h
  have hlast : a.segments.back? = some x := by
    rw [Array.back?_eq_getElem?, ← hx]
    congr 1
    simp only [count] at hi
    omega
  simp only [nextCapacity, hlast]
  omega

structure Kept (a₀ a : Arena) : Prop where
  valid : a.Valid
  limits : a.limits = a₀.limits
  count : a₀.count ≤ a.count
  total : a.allocated = totalSize a.buffers
  bounded : a.allocated ≤ max a₀.allocated a₀.limits.ceiling
  given : ∀ i n, a₀.length? i = some n → a.length? i = some n ∧ a.capacity? i = some n
  doubling : ∀ i c d, a₀.count ≤ i + 1 → a.capacity? i = some c → a.capacity? (i + 1) = some d →
    min (2 * c) largestSegment ≤ d

namespace Kept

variable {a₀ : Arena}

theorem overwrite (h : Kept a₀ a) {id addr : Nat} {src : ByteArray}
    (hc : a.covers id addr src.size = true) : Kept a₀ (a.overwrite id addr src) where
  valid := (extends_overwrite hc).valid h.valid
  limits := h.limits
  count := by
    rw [count_overwrite]
    exact h.count
  total := by
    rw [total_overwrite hc]
    exact h.total
  bounded := h.bounded
  given i n hn := by
    rw [length?_overwrite hc, capacity?_overwrite]
    exact h.given i n hn
  doubling i c d := by
    rw [capacity?_overwrite, capacity?_overwrite]
    exact h.doubling i c d

theorem openSegment (h : Kept a₀ a) (n : Nat) :
    Kept a₀ (a.openSegment (a.nextCapacity n)) where
  valid := (extends_openSegment (a.nextCapacity_le n)).valid h.valid
  limits := h.limits
  count := by
    rw [count_openSegment]
    exact Nat.le_succ_of_le h.count
  total := by
    rw [total_openSegment]
    exact h.total
  bounded := h.bounded
  given i len hlen := by
    have hi := (length?_eq_some.mp hlen).1
    have hne : i ≠ a.count := Nat.ne_of_lt (Nat.lt_of_lt_of_le hi h.count)
    rw [length?_openSegment, capacity?_openSegment, if_neg hne, if_neg hne]
    exact h.given i len hlen
  doubling i c d hi hc hd := by
    rw [capacity?_openSegment] at hc hd
    split at hd
    · rename_i hnew
      cases hd
      rw [if_neg (by omega)] at hc
      exact double_le_nextCapacity hc hnew n
    · rename_i hold
      split at hc
      · rename_i hlast
        obtain ⟨x, hx, _⟩ := Option.map_eq_some_iff.mp hd
        have hlt := lt_count hx
        omega
      · exact h.doubling i c d hi hc hd

theorem extend (h : Kept a₀ a) {id n addr : Nat} (hroom : a.room? id (roundUp n) = some addr) :
    Kept a₀ (a.extend id (roundUp n)) where
  valid := (extends_extend hroom).valid h.valid
  limits := h.limits
  count := by
    rw [count_extend]
    exact h.count
  total := by
    rw [total_extend (room?_eq_some hroom).1, ← h.total]
    rfl
  bounded := by
    have hceiling := room?_within hroom
    rw [h.limits] at hceiling
    exact Nat.le_trans hceiling (Nat.le_max_right ..)
  given i len hlen := by
    obtain ⟨hlength, hcapacity⟩ := h.given i len hlen
    rw [length?_extend, capacity?_extend]
    refine ⟨?_, hcapacity⟩
    split
    · rename_i hi
      subst hi
      -- a given segment is full, so what is granted there has no bytes
      obtain ⟨haddr, c, hc, hfits⟩ := room?_fits hroom
      rw [hlength] at haddr
      rw [hcapacity] at hc
      cases haddr
      cases hc
      rw [hlength, Option.map_some]
      congr 1
      omega
    · exact hlength
  doubling i c d := by
    rw [capacity?_extend, capacity?_extend]
    exact h.doubling i c d

theorem step (h : Kept a₀ a) {r : Option Grant} (hs : Step a r b) : Kept a₀ b := by
  cases hs with
  | same => exact h
  | overwrite hc => exact h.overwrite hc
  | grant hc hroom =>
      rcases hc with rfl | rfl
      · exact h.extend hroom
      · exact (h.openSegment _).extend hroom

theorem start (hv : a.Valid) (ht : a.allocated = totalSize a.buffers)
    (hf : ∀ i n, a.length? i = some n → a.capacity? i = some n) : Kept a a where
  valid := hv
  limits := rfl
  count := Nat.le_refl _
  total := ht
  bounded := Nat.le_max_left ..
  given i n hn := ⟨hn, hf i n hn⟩
  doubling i c d hi _ hd := by
    obtain ⟨x, hx, _⟩ := Option.map_eq_some_iff.mp hd
    have hlt := lt_count hx
    omega

end Kept

theorem Made.kept (h : a.Made) : Kept a a := by
  cases h with
  | empty opts => exact .start (valid_empty _) rfl fun i n hn => nomatch hn
  | ofBuffers h =>
      have hbuffers := buffers_ofBuffers h
      have hvalid := ofBuffers_valid h
      simp only [Arena.ofBuffers] at h
      split at h
      · cases h
      · cases h
        refine .start hvalid (congrArg totalSize hbuffers).symm fun i n hn => ?_
        obtain ⟨x, hx, rfl⟩ := Option.map_eq_some_iff.mp hn
        rw [capacity?, hx, Option.map_some]
        rw [List.getElem?_toArray] at hx
        obtain ⟨b, _, rfl⟩ := List.mem_map.mp (List.mem_of_getElem? hx)
        rfl

theorem opened_extends {c : Arena} {n : Nat} (h : c = a ∨ c = a.openSegment (a.nextCapacity n)) :
    Extends (fun _ _ => False) a c := by
  rcases h with rfl | rfl
  · exact .refl _ c
  · exact extends_openSegment (a.nextCapacity_le n)

theorem opened_contents {c : Arena} {n : Nat} (h : c = a ∨ c = a.openSegment (a.nextCapacity n))
    (i : Nat) : c.contents i = a.contents i := by
  rcases h with rfl | rfl
  · rfl
  · exact contents_openSegment a _ i

theorem Step.extends {r : Option Grant} (h : Step a r b) : Extends (fun _ _ => True) a b := by
  cases h with
  | same => exact .refl _ a
  | overwrite hc => exact (extends_overwrite hc).weaken fun _ _ _ _ => trivial
  | grant hc hroom =>
      exact ((opened_extends hc).trans (extends_extend hroom)).weaken fun _ _ _ _ => trivial

theorem Step.covers {r : Option Grant} (h : Step a r b) {i k n : Nat}
    (hc : a.covers i k n = true) : b.covers i k n = true := by
  rw [covers_iff_contents] at hc ⊢
  have hext := h.extends
  exact ⟨Nat.lt_of_lt_of_le hc.1 hext.count, Nat.le_trans hc.2 (hext.length i)⟩

/-- What an allocation may hand out: whole words of zeros where no byte was in use, while every
byte that was in use stays as it is. -/
structure Issues (a b : Arena) (g : Grant) : Prop where
  aligned : g.address % 8 = 0
  inside : b.covers g.segment g.address g.size = true
  zero : window (b.contents g.segment) g.address g.size = List.replicate g.size 0
  kept : ∀ (i k : Nat) (x : UInt8), (a.contents i)[k]? = some x →
    (b.contents i)[k]? = some x ∧ ¬ g.Holds i k

theorem issues_extend {id n addr : Nat} (hv : a.Valid)
    (hroom : a.room? id (roundUp n) = some addr) :
    a.Issues (a.extend id (roundUp n)) ⟨id, addr, roundUp n⟩ := by
  obtain ⟨hid, rfl, -⟩ := room?_eq_some hroom
  have hcontents := contents_extend hid (roundUp n) id
  rw [if_pos rfl] at hcontents
  refine ⟨(hv.contents id).1, ?_, ?_, ?_⟩
  · rw [covers_iff_contents, count_extend, hcontents, List.length_append, List.length_replicate]
    exact ⟨hid, Nat.le_refl _⟩
  · rw [hcontents, window, List.drop_left]
    exact List.take_of_length_le (Nat.le_of_eq List.length_replicate)
  · intro i k x hx
    obtain ⟨hk, -⟩ := List.getElem?_eq_some_iff.mp hx
    refine ⟨((extends_extend hroom).kept i k hk not_false).trans hx, ?_⟩
    rintro ⟨rfl, hle, -⟩
    exact absurd hk (Nat.not_lt.mpr hle)

theorem Step.issues {g : Grant} (h : Step a (some g) b) (hv : a.Valid) : a.Issues b g := by
  cases h with
  | grant hc hroom =>
      have hissues := issues_extend ((opened_extends hc).valid hv) hroom
      exact { hissues with
        kept := fun i k x hx => hissues.kept i k x (by rwa [opened_contents hc]) }

theorem Step.address {g : Grant} (h : Step a (some g) b) :
    g.address = (a.contents g.segment).length := by
  cases h with
  | grant hc hroom =>
      obtain ⟨-, haddr, -⟩ := room?_eq_some hroom
      rwa [opened_contents hc] at haddr

theorem Step.apart {g old : Grant} (h : Step a (some g) b)
    (hold : a.covers old.segment old.address old.size = true) : g.Apart old := by
  by_cases hseg : g.segment = old.segment
  · have haddr := h.address
    have hend := (covers_iff_contents.mp hold).2
    rw [← hseg] at hend
    exact .inr (.inr (by omega))
  · exact .inl hseg

end Arena

namespace Ledger

variable {L : Ledger} {a₀ : Arena}

structure Sound (a₀ : Arena) (L : Ledger) : Prop where
  kept : Arena.Kept a₀ L.arena
  inside : ∀ g ∈ L.grants,
    g.address % 8 = 0 ∧ L.arena.covers g.segment g.address g.size = true
  apart : L.grants.Pairwise Grant.Apart

theorem Sound.after (h : L.Sound a₀) (c : ArenaCall) : (L.after c).Sound a₀ := by
  have hstep := Arena.step_run c L.arena
  have hold (g : Grant) (hg : g ∈ L.grants) :
      g.address % 8 = 0 ∧ (c.run L.arena).2.covers g.segment g.address g.size = true :=
    (h.inside g hg).imp_right hstep.covers
  cases hr : (c.run L.arena).1 with
  | none =>
      rw [hr] at hstep
      refine ⟨h.kept.step hstep, ?_, ?_⟩
      · rwa [Ledger.after, hr]
      · rw [Ledger.after, hr]
        exact h.apart
  | some g =>
      rw [hr] at hstep
      have hissues := hstep.issues h.kept.valid
      refine ⟨h.kept.step hstep, ?_, ?_⟩
      · rw [Ledger.after, hr]
        exact List.forall_mem_cons.mpr ⟨⟨hissues.aligned, hissues.inside⟩, hold⟩
      · rw [Ledger.after, hr]
        exact List.pairwise_cons.mpr ⟨fun old ho => hstep.apart (h.inside old ho).2, h.apart⟩

theorem Sound.run (h : L.Sound a₀) (calls : List ArenaCall) : (L.run calls).Sound a₀ := by
  induction calls generalizing L with
  | nil => exact h
  | cons c calls ih => exact ih (h.after c)

theorem sound_start (h : a₀.Made) : Sound a₀ ⟨a₀, []⟩ :=
  ⟨h.kept, List.forall_mem_nil _, .nil⟩

end Ledger

/-- Whatever is called on an arena, its segments stay within their capacities and its total within
the ceiling, given segments keep their length, and no two grants ever overlap. -/
theorem arena_run {a₀ : Arena} (h : a₀.Made) (calls : List ArenaCall) :
    let L := Ledger.run ⟨a₀, []⟩ calls
    (∀ i n, L.arena.length? i = some n →
      n % 8 = 0 ∧ ∃ c, L.arena.capacity? i = some c ∧ n ≤ c ∧ c ≤ largestSegment) ∧
    L.arena.allocated = Arena.totalSize L.arena.buffers ∧
    L.arena.allocated ≤ max a₀.allocated a₀.limits.ceiling ∧
    (∀ i, i < a₀.count → L.arena.length? i = a₀.length? i) ∧
    (∀ i c d, a₀.count ≤ i + 1 → L.arena.capacity? i = some c →
      L.arena.capacity? (i + 1) = some d → min (2 * c) largestSegment ≤ d) ∧
    (∀ g ∈ L.grants, g.address % 8 = 0 ∧ L.arena.covers g.segment g.address g.size = true) ∧
    L.grants.Pairwise Grant.Apart ∧
    (∀ n, roundUp n % 8 = 0 ∧ n ≤ roundUp n ∧ roundUp n < n + 8) ∧
    (∀ pref n id addr b, Arena.allocate pref n L.arena = .ok (id, addr) b →
      L.arena.Issues b ⟨id, addr, roundUp n⟩ ∧
        ∀ g ∈ L.grants, Grant.Apart ⟨id, addr, roundUp n⟩ g) ∧
    ∀ id n addr b, Arena.allocateIn id n L.arena = .ok (some addr) b →
      L.arena.Issues b ⟨id, addr, roundUp n⟩ ∧
        ∀ g ∈ L.grants, Grant.Apart ⟨id, addr, roundUp n⟩ g := by
  intro L
  have hs : L.Sound a₀ := (Ledger.sound_start h).run calls
  have hissue (g : Grant) (b : Arena) (hstep : L.arena.Step (some g) b) :
      L.arena.Issues b g ∧ ∀ old ∈ L.grants, g.Apart old :=
    ⟨hstep.issues hs.kept.valid, fun old ho => hstep.apart (hs.inside old ho).2⟩
  refine ⟨?_, hs.kept.total, hs.kept.bounded, ?_, hs.kept.doubling, hs.inside, hs.apart,
    roundUp_least, ?_, ?_⟩
  · intro i n hn
    obtain ⟨x, hx, rfl⟩ := Option.map_eq_some_iff.mp hn
    obtain ⟨hmod, hcap, hmax⟩ := hs.kept.valid i x hx
    exact ⟨hmod, x.capacity, by rw [Arena.capacity?, hx, Option.map_some], hcap, hmax⟩
  · intro i hi
    obtain ⟨x, hx⟩ := Arena.exists_segment hi
    have hlen : a₀.length? i = some x.bytes.size := by
      rw [Arena.length?, hx, Option.map_some]
    rw [hlen]
    exact (hs.kept.given i _ hlen).1
  · intro pref n id addr b hb
    have hstep := Arena.step_run (.allocate pref n) L.arena
    simp only [ArenaCall.run, hb] at hstep
    exact hissue _ b hstep
  · intro id n addr b hb
    have hstep := Arena.step_run (.allocateIn id n) L.arena
    simp only [ArenaCall.run, hb] at hstep
    exact hissue _ b hstep

/-- A full segment of one word is granted nothing but zero bytes; a request over the ceiling and a
write outside fail on the way. -/
theorem arena_run_givenSegment :
    let a₀ : Arena := ⟨#[⟨⟨#[1, 2, 3, 4, 5, 6, 7, 8]⟩, 8⟩], 8, .ofOptions [.ceiling 64]⟩
    let L := Ledger.run ⟨a₀, []⟩ [.allocateIn 0 0, .allocate 0 12, .write 1 8 4 7, .clear 9 0 1,
      .allocate 0 3, .allocate 0 5000, .copy 2 0 none 1 8 8]
    a₀.Made ∧ L.grants = [⟨2, 0, 8⟩, ⟨1, 0, 16⟩, ⟨0, 8, 0⟩] ∧ L.grants.Pairwise Grant.Apart ∧
      L.arena.allocated = 32 ∧ L.arena.allocated = Arena.totalSize L.arena.buffers ∧
      L.arena.length? 0 = a₀.length? 0 := by
  intro a₀ L
  have hbuffers :
      Arena.ofBuffers [⟨#[1, 2, 3, 4, 5, 6, 7, 8]⟩] (.ofOptions [.ceiling 64]) = .ok a₀ :=
    rfl
  have hmade : a₀.Made := .ofBuffers hbuffers
  have hrun := arena_run hmade [.allocateIn 0 0, .allocate 0 12, .write 1 8 4 7, .clear 9 0 1,
    .allocate 0 3, .allocate 0 5000, .copy 2 0 none 1 8 8]
  exact ⟨hmade, by decide, hrun.2.2.2.2.2.2.1, by decide, hrun.2.1, hrun.2.2.2.1 0 (by decide)⟩

end SegmentedMessage
