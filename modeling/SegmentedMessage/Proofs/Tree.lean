import SegmentedMessage.Proofs.Region

/-!
Value trees. The tree of a pointer tells what can be read through it, but not where it lies. It is
finite, so a pointer whose slots do not all decode, or that leads back to itself, has none. The
regions of a pointer are the places that its tree is read from.
-/

namespace SegmentedMessage

inductive Tree where
  | null
  | capability (index : UInt32)
  | struct (shape : StructShape) (data : List UInt8) (slots : List Tree)
  | plain (elem : ElementKind) (len : Nat) (content : List UInt8)
  | pointers (len : Nat) (slots : List Tree)
  | composite (shape : StructShape) (len : Nat) (members : List Tree)
  deriving Inhabited

structure Region where
  start : Location
  size : Nat
  deriving DecidableEq, Repr

def Region.Has (r : Region) (l : Location) : Prop :=
  r.start.Extent r.size l

def Region.Apart (r q : Region) : Prop :=
  ∀ l, r.Has l → ¬ q.Has l

section Gather

variable {α β : Type}

def gather (f : Nat → Option α) : Nat → Nat → Option (List α)
  | _, 0 => some []
  | j, n + 1 => do
    let x ← f j
    let xs ← gather f (j + 1) n
    return x :: xs

def spread (f : Nat → List β) : Nat → Nat → List β
  | _, 0 => []
  | j, n + 1 => f j ++ spread f (j + 1) n

theorem gather_succ_eq_some {f : Nat → Option α} {j n : Nat} {ys : List α} :
    gather f j (n + 1) = some ys ↔
      ∃ x xs, f j = some x ∧ gather f (j + 1) n = some xs ∧ ys = x :: xs := by
  rw [gather]
  cases f j with
  | none => simp
  | some x =>
      cases gather f (j + 1) n with
      | none => simp
      | some xs => simp [eq_comm]

theorem gather_mono {f g : Nat → Option α} (h : ∀ i x, f i = some x → g i = some x) {j n : Nat}
    {xs : List α} (hf : gather f j n = some xs) : gather g j n = some xs := by
  induction n generalizing j xs with
  | zero => exact hf
  | succ n ih =>
      obtain ⟨x, ys, hx, hys, rfl⟩ := gather_succ_eq_some.mp hf
      exact gather_succ_eq_some.mpr ⟨x, ys, h j x hx, ih hys, rfl⟩

theorem gather_congr {f g : Nat → Option α} {j n : Nat} (h : ∀ i, j ≤ i → i < j + n → f i = g i) :
    gather f j n = gather g j n := by
  induction n generalizing j with
  | zero => rfl
  | succ n ih =>
      rw [gather, gather, h j (Nat.le_refl j) (by omega), ih fun i hl hu => h i (by omega) (by omega)]

theorem spread_congr {f g : Nat → List β} {j n : Nat} (h : ∀ i, j ≤ i → i < j + n → f i = g i) :
    spread f j n = spread g j n := by
  induction n generalizing j with
  | zero => rfl
  | succ n ih =>
      rw [spread, spread, h j (Nat.le_refl j) (by omega), ih fun i hl hu => h i (by omega) (by omega)]

end Gather

namespace Store

section Layers

variable (s : Store) (deeper : Pointer → Option Tree) (beyond : Pointer → List Region)

def slotTree : Except Abort Pointer → Option Tree
  | .ok p => deeper p
  | .error _ => none

def structTree (v : StructView) : Option Tree :=
  match v with
  | .absent => some .null
  | .backed loc shape _ =>
    (gather (fun j => slotTree deeper (v.pointerAt j s)) 0 shape.slots.toNat).map
      (.struct shape (s.range loc shape.data))

def listTree (v : ListView) : Option Tree :=
  match v with
  | .absent => some .null
  | .backed _ len .composite shape =>
    (gather (fun i => structTree s deeper (v.member i)) 0 len).map (.composite shape len)
  | .backed _ len .pointer _ =>
    (gather (fun i => slotTree deeper (v.pointerAt i s)) 0 len).map (.pointers len)
  | .backed loc len elem _ => some (.plain elem len (s.range loc (elem.bytesFor len)))

def treeWith : Pointer → Option Tree
  | .null => some .null
  | .capability i => some (.capability i)
  | .struct v => structTree s deeper v
  | .list v => listTree s deeper v

def slotRegions : Except Abort Pointer → List Region
  | .ok p => beyond p
  | .error _ => []

def structRegions (v : StructView) : List Region :=
  match v with
  | .absent => []
  | .backed loc shape _ =>
    ⟨loc, shape.bytes⟩ :: spread (fun j => slotRegions beyond (v.pointerAt j s)) 0 shape.slots.toNat

def listRegions (v : ListView) : List Region :=
  match v with
  | .absent => []
  | .backed loc len .composite _ =>
    ⟨{ loc with address := loc.address - 8 }, 8⟩ ::
      spread (fun i => structRegions s beyond (v.member i)) 0 len
  | .backed loc len .pointer _ =>
    ⟨loc, ElementKind.pointer.bytesFor len⟩ ::
      spread (fun i => slotRegions beyond (v.pointerAt i s)) 0 len
  | .backed loc len elem _ => [⟨loc, elem.bytesFor len⟩]

def regionsWith : Pointer → List Region
  | .struct v => structRegions s beyond v
  | .list v => listRegions s beyond v
  | _ => []

section Plain

variable {elem : ElementKind} (hcomp : elem ≠ .composite) (hptr : elem ≠ .pointer)

include hcomp hptr

theorem listTree_plain (loc : Location) (len : Nat) (shape : StructShape) :
    s.listTree deeper (.backed loc len elem shape)
      = some (.plain elem len (s.range loc (elem.bytesFor len))) := by
  cases elem with
  | composite => exact absurd rfl hcomp
  | pointer => exact absurd rfl hptr
  | _ => rfl

theorem listRegions_plain (loc : Location) (len : Nat) (shape : StructShape) :
    s.listRegions beyond (.backed loc len elem shape) = [⟨loc, elem.bytesFor len⟩] := by
  cases elem with
  | composite => exact absurd rfl hcomp
  | pointer => exact absurd rfl hptr
  | _ => rfl

end Plain

end Layers

/-- The tree of a pointer, if it is not higher than the number of levels. -/
def tree? (s : Store) : Nat → Pointer → Option Tree
  | 0, _ => none
  | k + 1, p => s.treeWith (s.tree? k) p

def regions (s : Store) : Nat → Pointer → List Region
  | 0, _ => []
  | k + 1, p => s.regionsWith (s.regions k) p

variable {s : Store} {f g : Pointer → Option Tree}

theorem slotTree_mono (h : ∀ p T, f p = some T → g p = some T) {r : Except Abort Pointer} {T : Tree}
    (hT : slotTree f r = some T) : slotTree g r = some T := by
  cases r with
  | ok p => exact h p T hT
  | error e => cases hT

theorem structTree_mono (h : ∀ p T, f p = some T → g p = some T) {v : StructView} {T : Tree}
    (hT : s.structTree f v = some T) : s.structTree g v = some T := by
  cases v with
  | absent => exact hT
  | backed loc shape member =>
      obtain ⟨Ts, hTs, rfl⟩ := Option.map_eq_some_iff.mp hT
      exact Option.map_eq_some_iff.mpr
        ⟨Ts, gather_mono (fun _ _ hx => slotTree_mono h hx) hTs, rfl⟩

theorem listTree_mono (h : ∀ p T, f p = some T → g p = some T) {v : ListView} {T : Tree}
    (hT : s.listTree f v = some T) : s.listTree g v = some T := by
  cases v with
  | absent => exact hT
  | backed loc len elem shape =>
      cases elem with
      | composite =>
          obtain ⟨Ts, hTs, rfl⟩ := Option.map_eq_some_iff.mp hT
          exact Option.map_eq_some_iff.mpr
            ⟨Ts, gather_mono (fun _ _ hx => structTree_mono h hx) hTs, rfl⟩
      | pointer =>
          obtain ⟨Ts, hTs, rfl⟩ := Option.map_eq_some_iff.mp hT
          exact Option.map_eq_some_iff.mpr
            ⟨Ts, gather_mono (fun _ _ hx => slotTree_mono h hx) hTs, rfl⟩
      | _ => exact hT

theorem treeWith_mono (h : ∀ p T, f p = some T → g p = some T) {p : Pointer} {T : Tree}
    (hT : s.treeWith f p = some T) : s.treeWith g p = some T := by
  cases p with
  | null => exact hT
  | capability i => exact hT
  | struct v => exact structTree_mono h hT
  | list v => exact listTree_mono h hT

theorem tree?_succ {k : Nat} {p : Pointer} {T : Tree} (h : s.tree? k p = some T) :
    s.tree? (k + 1) p = some T := by
  induction k generalizing p T with
  | zero => cases h
  | succ k ih => exact treeWith_mono (fun _ _ hT => ih hT) h

theorem tree?_mono {j k : Nat} (hjk : j ≤ k) {p : Pointer} {T : Tree} (h : s.tree? j p = some T) :
    s.tree? k p = some T := by
  induction hjk with
  | refl => exact h
  | step _ ih => exact tree?_succ ih

theorem tree?_unique {j k : Nat} {p : Pointer} {T U : Tree} (hT : s.tree? j p = some T)
    (hU : s.tree? k p = some U) : T = U := by
  have h := tree?_mono (Nat.le_max_left j k) hT
  rw [tree?_mono (Nat.le_max_right j k) hU] at h
  exact (Option.some.inj h).symm

end Store

end SegmentedMessage
