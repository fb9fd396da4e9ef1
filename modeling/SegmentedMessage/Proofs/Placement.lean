import SegmentedMessage.Proofs.Ledger

namespace SegmentedMessage

open Layout

namespace Arena

variable {a : Arena} {id p pref n : Nat}

def HasRoom (a : Arena) (id p : Nat) : Prop :=
  ∃ n c, a.length? id = some n ∧ a.capacity? id = some c ∧ n + p ≤ c

/-- The capacity that a new segment has, unless one request needs more. -/
def grown (a : Arena) : Nat :=
  match a.capacity? (a.count - 1) with
  | some c => 2 * c
  | none => a.limits.firstCapacity

theorem nextCapacity_eq (a : Arena) (p : Nat) :
    a.nextCapacity p = min largestSegment (max p a.grown) := by
  rw [nextCapacity, grown, Array.back?_eq_getElem?, capacity?, count]
  cases a.segments[a.segments.size - 1]? with
  | none =>
      simp only [Option.map_none]
      omega
  | some x =>
      simp only [Option.map_some]
      omega

theorem room?_eq_some_iff (ht : a.allocated + p ≤ a.limits.ceiling) {addr : Nat} :
    a.room? id p = some addr ↔ a.HasRoom id p ∧ addr = (a.contents id).length := by
  constructor
  · intro h
    obtain ⟨hlen, c, hc, hfits⟩ := room?_fits h
    exact ⟨⟨addr, c, hlen, hc, hfits⟩, (length?_eq_some.mp hlen).2⟩
  · rintro ⟨⟨n, c, hn, hc, hfits⟩, rfl⟩
    obtain ⟨x, hx, rfl⟩ := Option.map_eq_some_iff.mp hn
    rw [capacity?, hx] at hc
    cases hc
    simp only [room?, if_neg (Nat.not_lt.mpr ht), hx, if_pos hfits]
    rw [contents_of_some hx, Buffer.length_bytes]

theorem room?_eq_none_iff (ht : a.allocated + p ≤ a.limits.ceiling) :
    a.room? id p = none ↔ ¬ a.HasRoom id p := by
  rw [Option.eq_none_iff_forall_ne_some]
  constructor
  · exact fun h hroom => h _ ((room?_eq_some_iff ht).mpr ⟨hroom, rfl⟩)
  · exact fun h addr haddr => h ((room?_eq_some_iff ht).mp haddr).1

/-- `p` zero bytes have come after those of segment `id`, from `addr` on. No other byte and no
capacity has changed. -/
structure Granted (a : Arena) (p : Nat) (b : Arena) (id addr : Nat) : Prop where
  address : addr = (a.contents id).length
  contents : ∀ i, b.contents i =
    if i = id then a.contents i ++ List.replicate p 0 else a.contents i
  capacity : ∀ i, i < a.count → b.capacity? i = a.capacity? i
  limits : b.limits = a.limits
  total : b.allocated = a.allocated + p

/-- The segment that takes a request. One is opened only where neither the preferred nor the last
one has room. -/
inductive Placed (a : Arena) (pref p : Nat) (b : Arena) : Nat → Prop where
  | preferred (h : a.HasRoom pref p) (hcount : b.count = a.count) : Placed a pref p b pref
  | last (h : ¬ a.HasRoom pref p) (hlast : a.HasRoom (a.count - 1) p)
      (hcount : b.count = a.count) : Placed a pref p b (a.count - 1)
  | opened (h : ¬ a.HasRoom pref p) (hlast : ¬ a.HasRoom (a.count - 1) p)
      (hcount : b.count = a.count + 1)
      (hcap : b.capacity? a.count = some (min largestSegment (max p a.grown))) :
      Placed a pref p b a.count

theorem HasRoom.lt_count (h : a.HasRoom id p) : id < a.count := by
  obtain ⟨n, c, hn, -⟩ := h
  exact (length?_eq_some.mp hn).1

theorem granted_extend {c : Arena} (hc : c = a ∨ ∃ cap, c = a.openSegment cap)
    (hid : id < c.count) : a.Granted p (c.extend id p) id (a.contents id).length := by
  obtain rfl | ⟨cap, rfl⟩ := hc
  · exact ⟨rfl, contents_extend hid p, fun i _ => capacity?_extend _ id p i, rfl, rfl⟩
  · refine ⟨rfl, fun i => ?_, fun i hi => ?_, rfl, rfl⟩
    · rw [contents_extend hid, contents_openSegment]
    · rw [capacity?_extend, capacity?_openSegment, if_neg (Nat.ne_of_lt hi)]

theorem allocate_granted (hr : a.request n = .ok p) (pref : Nat) :
    ∃ id addr b, allocate pref n a = .ok (id, addr) b ∧ a.Granted p b id addr ∧
      a.Placed pref p b id := by
  obtain ⟨_, hmax, ht⟩ := request_eq_ok.mp hr
  by_cases h : a.HasRoom pref p
  · have hroom := (room?_eq_some_iff ht).mpr ⟨h, rfl⟩
    refine ⟨_, _, _, ?_, granted_extend (.inl rfl) h.lt_count, .preferred h (count_extend ..)⟩
    simp only [allocate, hr, hroom]
  · have hnone := (room?_eq_none_iff ht).mpr h
    by_cases hlast : a.HasRoom (a.count - 1) p
    · have hroom := (room?_eq_some_iff ht).mpr ⟨hlast, rfl⟩
      refine ⟨_, _, _, ?_, granted_extend (.inl rfl) hlast.lt_count,
        .last h hlast (count_extend ..)⟩
      simp only [allocate, hr, hnone, hroom]
    · have hnone' := (room?_eq_none_iff ht).mpr hlast
      have hroom := room?_openSegment (a.le_nextCapacity hmax) ht
      have hnew : a.count < (a.openSegment (a.nextCapacity p)).count := by
        rw [count_openSegment]
        exact Nat.lt_succ_self _
      refine ⟨_, _, _, ?_, granted_extend (.inr ⟨a.nextCapacity p, rfl⟩) hnew,
        .opened h hlast ?_ ?_⟩
      · simp only [allocate, hr, hnone, hnone', hroom, contents_of_count_le (Nat.le_refl _),
          List.length_nil]
      · rw [count_extend, count_openSegment]
      · rw [capacity?_extend, capacity?_openSegment, if_pos rfl, nextCapacity_eq]

theorem request_eq_error {e : ArenaFailure} : a.request n = .error e ↔
    (largestSegment < roundUp n ∧
      e = .oversized (if roundUp n < 0x100000000 then roundUp n else n)) ∨
    (roundUp n ≤ largestSegment ∧ a.limits.ceiling < a.allocated + roundUp n ∧
      e = .exhausted (a.allocated + roundUp n) a.limits.ceiling) := by
  have hround : roundUp n < 0x100000000 ↔ n + 7 < 0x100000000 := by
    simp only [roundUp]
    omega
  simp only [request, roundUp?, hround]
  by_cases hfits : n + 7 < 0x100000000
  · simp only [if_pos hfits]
    split
    · rename_i hlarge
      simp [hlarge, Nat.not_le.mpr hlarge, eq_comm]
    · rename_i hle
      split
      · rename_i hover
        simp [hle, Nat.le_of_not_lt hle, hover, eq_comm]
      · rename_i hceil
        simp [hle, hceil]
  · have hlarge : largestSegment < roundUp n := by
      simp only [largestSegment, roundUp]
      omega
    simp [if_neg hfits, hlarge, Nat.not_le.mpr hlarge, eq_comm]

theorem request_eq_ok_iff : (∃ q, a.request n = .ok q) ↔
    roundUp n ≤ largestSegment ∧ a.allocated + roundUp n ≤ a.limits.ceiling := by
  constructor
  · rintro ⟨q, hq⟩
    obtain ⟨hround, hmax, ht⟩ := request_eq_ok.mp hq
    obtain ⟨-, rfl⟩ := roundUp?_eq_some.mp hround
    exact ⟨hmax, ht⟩
  · rintro ⟨hmax, ht⟩
    refine ⟨_, request_eq_ok.mpr ⟨roundUp?_eq_some.mpr ⟨?_, rfl⟩, hmax, ht⟩⟩
    simp only [largestSegment, roundUp] at hmax
    omega

theorem allocate_eq_error_iff {b : Arena} {e : ArenaFailure} :
    allocate pref n a = .error e b ↔ a.request n = .error e ∧ b = a := by
  constructor
  · exact allocate_error
  · rintro ⟨hr, rfl⟩
    simp only [allocate, hr]

theorem allocate_eq_ok_iff :
    (∃ r b, allocate pref n a = .ok r b) ↔ ∃ q, a.request n = .ok q := by
  constructor
  · rintro ⟨r, b, h⟩
    cases hr : a.request n with
    | ok q => exact ⟨q, rfl⟩
    | error e =>
        rw [allocate_eq_error_iff.mpr ⟨hr, rfl⟩] at h
        cases h
  · rintro ⟨q, hq⟩
    obtain ⟨_, _, _, h, -⟩ := allocate_granted hq pref
    exact ⟨_, _, h⟩

end Arena

/-- A request is refused for its size, then for the ceiling, and else granted. What is refused
changes nothing; what is granted goes to the preferred segment, else to the last, else to a new one. -/
theorem allocation_decided (a : Arena) (pref n : Nat) :
    let p := roundUp n
    (p % 8 = 0 ∧ n ≤ p ∧ p < n + 8) ∧
    (∀ k b, Arena.allocate pref n a = .error (.oversized k) b ↔
      largestSegment < p ∧ k = (if p < 0x100000000 then p else n) ∧ b = a) ∧
    (∀ need limit b, Arena.allocate pref n a = .error (.exhausted need limit) b ↔
      p ≤ largestSegment ∧ a.limits.ceiling < a.allocated + p ∧
        need = a.allocated + p ∧ limit = a.limits.ceiling ∧ b = a) ∧
    (∀ id len b, Arena.allocate pref n a ≠ .error (.misaligned id len) b) ∧
    ((∃ r b, Arena.allocate pref n a = .ok r b) ↔
      p ≤ largestSegment ∧ a.allocated + p ≤ a.limits.ceiling) ∧
    ∀ id addr b, Arena.allocate pref n a = .ok (id, addr) b →
      a.Granted p b id addr ∧ a.Placed pref p b id := by
  intro p
  refine ⟨roundUp_least n, fun k b => ?_, fun need limit b => ?_, fun id len b => ?_, ?_,
    fun id addr b h => ?_⟩
  · rw [Arena.allocate_eq_error_iff, Arena.request_eq_error]
    simp [p, and_assoc]
  · rw [Arena.allocate_eq_error_iff, Arena.request_eq_error]
    simp [p, and_assoc]
  · rw [Ne, Arena.allocate_eq_error_iff, Arena.request_eq_error]
    simp
  · rw [Arena.allocate_eq_ok_iff, Arena.request_eq_ok_iff]
  · obtain ⟨q, hq⟩ := Arena.allocate_eq_ok_iff.mp ⟨_, _, h⟩
    obtain ⟨hround, -⟩ := Arena.request_eq_ok.mp hq
    obtain ⟨-, rfl⟩ := roundUp?_eq_some.mp hround
    obtain ⟨_, _, _, hrun, hgranted, hplaced⟩ := Arena.allocate_granted hq pref
    rw [h] at hrun
    cases hrun
    exact ⟨hgranted, hplaced⟩

/-- Twelve bytes are two words. With one word in use they fit below a ceiling of 24 bytes, in a new
segment, and not below one of 23. -/
theorem allocation_decided_unaligned :
    let a (ceiling : Nat) : Arena :=
      ⟨#[⟨⟨#[1, 2, 3, 4, 5, 6, 7, 8]⟩, 16⟩], 8, .ofOptions [.ceiling ceiling]⟩
    (∃ b, Arena.allocate 7 12 (a 24) = .ok (1, 0) b ∧ b.contents 1 = List.replicate 16 0 ∧
      b.capacity? 1 = some 32 ∧ b.allocated = 24) ∧
    Arena.allocate 7 12 (a 23) = .error (.exhausted 24 23) (a 23) ∧
    Arena.allocate 0 0x80000001 (a 23) = .error (.oversized 0x80000008) (a 23) ∧
    Arena.allocate 0 0xfffffff9 (a 23) = .error (.oversized 0xfffffff9) (a 23) := by
  intro a
  have hoversized (n : Nat) := (allocation_decided (a 23) 0 n).2.1
  have hexhausted := (allocation_decided (a 23) 7 12).2.2.1
  refine ⟨⟨_, rfl, ?_⟩, ?_, ?_, ?_⟩
  · obtain ⟨hgranted, hplaced⟩ := (allocation_decided (a 24) 7 12).2.2.2.2.2 1 0 _ rfl
    refine ⟨hgranted.contents 1, ?_, hgranted.total⟩
    cases hplaced with
    | opened _ _ _ hcap => exact hcap
  · exact (hexhausted 24 23 (a 23)).mpr ⟨by decide, by decide, rfl, rfl, rfl⟩
  · exact (hoversized 0x80000001 _ _).mpr ⟨by decide, by decide, rfl⟩
  · exact (hoversized 0xfffffff9 _ _).mpr ⟨by decide, by decide, rfl⟩

end SegmentedMessage
