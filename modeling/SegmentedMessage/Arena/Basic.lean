namespace SegmentedMessage

def defaultCapacity : Nat :=
  1024

def largestSegment : Nat :=
  0x80000000

inductive ArenaOption where
  | firstCapacity (bytes : Nat)
  | ceiling (bytes : Nat)
  deriving DecidableEq, Repr

structure Limits where
  firstCapacity : Nat := defaultCapacity
  ceiling : Nat := 0xffffffffffffffff
  deriving DecidableEq, Repr, Inhabited

def Limits.apply (l : Limits) : ArenaOption → Limits
  | .firstCapacity n => { l with firstCapacity := n }
  | .ceiling n => { l with ceiling := n }

def Limits.rounded (l : Limits) : Limits :=
  { l with firstCapacity := min (max (l.firstCapacity / 8 * 8) 8) largestSegment }

def Limits.ofOptions (opts : List ArenaOption) : Limits :=
  (opts.foldl apply {}).rounded

inductive ArenaFailure where
  | oversized (bytes : Nat)
  | exhausted (need limit : Nat)
  | misaligned (seg len : Nat)
  deriving DecidableEq, Repr

def ArenaFailure.message : ArenaFailure → String
  | oversized n => s!"allocation too large: {n} bytes"
  | exhausted need limit => s!"arena full: need {need} bytes, limit {limit}"
  | misaligned seg len => s!"segment {seg} length {len} is not word aligned or too large"

structure Segment where
  bytes : ByteArray
  capacity : Nat
  deriving Inhabited

structure Arena where
  segments : Array Segment
  allocated : Nat
  limits : Limits
  deriving Inhabited

namespace Arena

def empty (limits : Limits) : Arena :=
  ⟨#[], 0, limits⟩

def accepts (b : ByteArray) : Bool :=
  b.size % 8 == 0 && decide (b.size ≤ largestSegment)

def firstRefused : Nat → List ByteArray → Option (Nat × Nat)
  | _, [] => none
  | i, b :: bs => if accepts b then firstRefused (i + 1) bs else some (i, b.size)

def totalSize : List ByteArray → Nat
  | [] => 0
  | b :: bs => b.size + totalSize bs

/-- Given buffers become full segments: what is allocated later goes to new ones. -/
def ofBuffers (bufs : List ByteArray) (limits : Limits) : Except ArenaFailure Arena :=
  match firstRefused 0 bufs with
  | some (i, n) => .error (.misaligned i n)
  | none => .ok ⟨(bufs.map fun b => ⟨b, b.size⟩).toArray, totalSize bufs, limits⟩

theorem firstRefused_eq_none {i : Nat} {bufs : List ByteArray} :
    firstRefused i bufs = none ↔ ∀ b ∈ bufs, accepts b = true := by
  induction bufs generalizing i with
  | nil => simp [firstRefused]
  | cons b bs ih =>
      by_cases hb : accepts b = true
      · simp [firstRefused, hb, ih]
      · simp [firstRefused, hb]

def buffers (a : Arena) : List ByteArray :=
  a.segments.toList.map Segment.bytes

theorem buffers_ofBuffers {bufs : List ByteArray} {limits : Limits} {a : Arena}
    (h : ofBuffers bufs limits = .ok a) : a.buffers = bufs := by
  simp only [ofBuffers] at h
  split at h
  · cases h
  · cases h
    simp only [buffers, List.map_map]
    exact List.map_id bufs

def count (a : Arena) : Nat :=
  a.segments.size

def length? (a : Arena) (id : Nat) : Option Nat :=
  a.segments[id]?.map fun s => s.bytes.size

def bytes? (a : Arena) (id : Nat) : Option ByteArray :=
  a.segments[id]?.map Segment.bytes

def covers (a : Arena) (id addr len : Nat) : Bool :=
  match a.length? id with
  | some n => decide (addr + len ≤ n)
  | none => false

theorem covers_iff {a : Arena} {id addr len : Nat} :
    a.covers id addr len = true ↔ ∃ n, a.length? id = some n ∧ addr + len ≤ n := by
  simp only [covers]
  cases a.length? id <;> simp

def summary (a : Arena) : String :=
  s!"Arena \x7b segs: {a.count}, total: {a.allocated} \x7d"

end Arena

end SegmentedMessage
