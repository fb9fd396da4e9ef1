import SegmentedMessage.Arena.Basic
import SegmentedMessage.Bytes.Buffer
import SegmentedMessage.Layout.Word

namespace SegmentedMessage.Arena

open Layout

def extend (a : Arena) (id n : Nat) : Arena :=
  { a with
    segments := a.segments.modify id fun s => { s with bytes := Buffer.pushZeros n s.bytes }
    allocated := a.allocated + n }

def room? (a : Arena) (id n : Nat) : Option Nat :=
  if a.limits.ceiling < a.allocated + n then none
  else match a.segments[id]? with
    | some s => if s.bytes.size + n ≤ s.capacity then some s.bytes.size else none
    | none => none

def allocateIn (id n : Nat) : EStateM ArenaFailure Arena (Option Nat) := fun a =>
  match roundUp? n with
  | none => .ok none a
  | some p =>
    match a.room? id p with
    | none => .ok none a
    | some addr => .ok (some addr) (a.extend id p)

def request (a : Arena) (n : Nat) : Except ArenaFailure Nat :=
  match roundUp? n with
  | none => .error (.oversized n)
  | some p =>
    if largestSegment < p then .error (.oversized p)
    else if a.limits.ceiling < a.allocated + p then
      .error (.exhausted (a.allocated + p) a.limits.ceiling)
    else .ok p

def nextCapacity (a : Arena) (n : Nat) : Nat :=
  let grown := match a.segments.back? with
    | some s => 2 * s.capacity
    | none => a.limits.firstCapacity
  min (max grown n) largestSegment

def openSegment (a : Arena) (capacity : Nat) : Arena :=
  { a with segments := a.segments.push ⟨ByteArray.empty, capacity⟩ }

def allocate (pref n : Nat) : EStateM ArenaFailure Arena (Nat × Nat) := fun a =>
  match a.request n with
  | .error e => .error e a
  | .ok p =>
    match a.room? pref p with
    | some addr => .ok (pref, addr) (a.extend pref p)
    | none =>
      let last := a.count - 1
      match a.room? last p with
      | some addr => .ok (last, addr) (a.extend last p)
      | none =>
        let id := a.count
        let a := a.openSegment (a.nextCapacity p)
        match a.room? id p with
        | some addr => .ok (id, addr) (a.extend id p)
        | none => .error (.oversized p) a

theorem le_nextCapacity (a : Arena) {n : Nat} (h : n ≤ largestSegment) :
    n ≤ a.nextCapacity n := by
  simp only [nextCapacity]; omega

theorem nextCapacity_le (a : Arena) (n : Nat) : a.nextCapacity n ≤ largestSegment := by
  simp only [nextCapacity]; omega

theorem room?_openSegment {a : Arena} {n capacity : Nat} (hn : n ≤ capacity)
    (ht : a.allocated + n ≤ a.limits.ceiling) :
    (a.openSegment capacity).room? a.count n = some 0 := by
  simp [room?, openSegment, count, Nat.not_lt.mpr ht, hn]

theorem request_eq_ok {a : Arena} {n p : Nat} :
    a.request n = .ok p ↔
      roundUp? n = some p ∧ p ≤ largestSegment ∧ a.allocated + p ≤ a.limits.ceiling := by
  simp only [request]
  cases hp : roundUp? n with
  | none => simp
  | some q =>
      simp only [Option.some.injEq]
      split
      · constructor
        · intro h; cases h
        · rintro ⟨rfl, h, _⟩; omega
      · split
        · constructor
          · intro h; cases h
          · rintro ⟨rfl, _, h⟩; omega
        · simp only [Except.ok.injEq]
          constructor
          · rintro rfl; exact ⟨rfl, by omega, by omega⟩
          · exact fun h => h.1

theorem allocate_error {a b : Arena} {pref n : Nat} {e : ArenaFailure}
    (h : allocate pref n a = .error e b) : a.request n = .error e ∧ b = a := by
  simp only [allocate] at h
  cases hr : a.request n with
  | error e' =>
      rw [hr] at h
      cases h
      exact ⟨rfl, rfl⟩
  | ok p =>
      obtain ⟨_, hmax, htotal⟩ := request_eq_ok.mp hr
      simp only [hr] at h
      split at h
      · cases h
      · split at h
        · cases h
        · rw [room?_openSegment (a.le_nextCapacity hmax) htotal] at h
          cases h

end SegmentedMessage.Arena
