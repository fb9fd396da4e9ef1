import SegmentedMessage.Proofs.Tree

/-!
What a copy costs. An object costs its words, and at least one; a tree costs its objects. The height
of a tree is how many pointers follow each other in it. `price?` finds the cost of a pointer in a
store, and finds none where a slot does not decode or lies deeper than the given levels.
-/

namespace SegmentedMessage

namespace Tree

def isNull : Tree → Bool
  | null => true
  | _ => false

mutual

def cost : Tree → Nat
  | struct shape _ slots => if shape.isEmpty then 0 else max (shape.bytes / 8) 1 + costs slots
  | plain elem len _ => max (elem.bytesFor len / 8) 1
  | pointers len slots => max len 1 + costs slots
  | composite _ _ members => 1 + memberCosts members
  | _ => 0

def costs : List Tree → Nat
  | [] => 0
  | T :: Ts => cost T + costs Ts

def memberCost : Tree → Nat
  | struct shape _ slots => max (shape.bytes / 8) 1 + costs slots
  | _ => 0

def memberCosts : List Tree → Nat
  | [] => 0
  | T :: Ts => memberCost T + memberCosts Ts

end

mutual

def height : Tree → Nat
  | struct _ _ slots => rise slots
  | pointers _ slots => rise slots
  | composite _ _ members => highest members
  | _ => 0

/-- One more than the highest of the slots that are not null. -/
def rise : List Tree → Nat
  | [] => 0
  | T :: Ts => max (if isNull T then 0 else height T + 1) (rise Ts)

def highest : List Tree → Nat
  | [] => 0
  | T :: Ts => max (height T) (highest Ts)

end

def Within (k : Nat) (T : Tree) : Prop :=
  T.isNull = false → T.height + 1 ≤ k

def sumOf (f : Tree → Nat) : List Tree → Nat
  | [] => 0
  | T :: Ts => f T + sumOf f Ts

theorem costs_eq (Ts : List Tree) : costs Ts = sumOf cost Ts := by
  induction Ts with
  | nil => rfl
  | cons T Ts ih => rw [costs, ih, sumOf]

theorem memberCosts_eq (Ts : List Tree) : memberCosts Ts = sumOf memberCost Ts := by
  induction Ts with
  | nil => rfl
  | cons T Ts ih => rw [memberCosts, ih, sumOf]

theorem rise_le {Ts : List Tree} {k : Nat} :
    rise Ts ≤ k ↔ ∀ T ∈ Ts, T.Within k := by
  induction Ts with
  | nil => simp [rise]
  | cons T Ts ih =>
      rw [rise, Nat.max_le, ih, List.forall_mem_cons, Within]
      cases T.isNull <;> simp

theorem highest_le {Ts : List Tree} {k : Nat} : highest Ts ≤ k ↔ ∀ T ∈ Ts, T.height ≤ k := by
  induction Ts with
  | nil => simp [highest]
  | cons T Ts ih => rw [highest, Nat.max_le, ih, List.forall_mem_cons]

end Tree

section Tally

def both (p q : Option Nat) : Option Nat :=
  p.bind fun a => q.map (a + ·)

theorem both_eq_some {p q : Option Nat} {n : Nat} :
    both p q = some n ↔ ∃ a b, p = some a ∧ q = some b ∧ n = a + b := by
  cases p with
  | none => simp [both]
  | some a =>
      cases q with
      | none => simp [both]
      | some b => simp [both, eq_comm]

theorem some_both_eq_some {q : Option Nat} {a n : Nat} :
    both (some a) q = some n ↔ ∃ b, q = some b ∧ n = a + b := by
  cases q with
  | none => simp [both]
  | some b => simp [both, eq_comm]

theorem both_zero (p : Option Nat) : both p (some 0) = p := by
  cases p with
  | none => rfl
  | some a => rfl

theorem zero_both (q : Option Nat) : both (some 0) q = q := by
  cases q with
  | none => rfl
  | some b => exact congrArg some (Nat.zero_add b)

def tally (f : Nat → Option Nat) : Nat → Nat → Option Nat
  | _, 0 => some 0
  | j, n + 1 => both (f j) (tally f (j + 1) n)

variable {f : Nat → Option Nat} {g : Nat → Option Tree} {cost : Tree → Nat} {P : Tree → Prop}
  {j n c : Nat} {Ts : List Tree}

theorem gather_of_tally (h : ∀ i a, f i = some a → ∃ T, g i = some T ∧ cost T = a ∧ P T)
    (hf : tally f j n = some c) :
    ∃ Ts, gather g j n = some Ts ∧ Tree.sumOf cost Ts = c ∧ ∀ T ∈ Ts, P T := by
  induction n generalizing j c with
  | zero =>
      cases hf
      exact ⟨[], rfl, rfl, fun T hT => nomatch hT⟩
  | succ n ih =>
      obtain ⟨a, b, ha, hb, rfl⟩ := both_eq_some.mp hf
      obtain ⟨T, hT, rfl, hPT⟩ := h j a ha
      obtain ⟨Ts, hTs, rfl, hPTs⟩ := ih hb
      exact ⟨T :: Ts, gather_succ_eq_some.mpr ⟨T, Ts, hT, hTs, rfl⟩, rfl,
        List.forall_mem_cons.mpr ⟨hPT, hPTs⟩⟩

theorem tally_of_gather (h : ∀ i T, g i = some T → P T → f i = some (cost T))
    (hg : gather g j n = some Ts) (hP : ∀ T ∈ Ts, P T) :
    tally f j n = some (Tree.sumOf cost Ts) := by
  induction n generalizing j Ts with
  | zero =>
      cases hg
      rfl
  | succ n ih =>
      obtain ⟨T, Us, hT, hUs, rfl⟩ := gather_succ_eq_some.mp hg
      obtain ⟨hPT, hPUs⟩ := List.forall_mem_cons.mp hP
      exact both_eq_some.mpr ⟨_, _, h j T hT hPT, ih hUs hPUs, rfl⟩

end Tally

namespace Store

section Layers

variable (s : Store) (deeper : Pointer → Option Nat)

def slotPrice : Except Abort Pointer → Option Nat
  | .ok p => if p.isBacked then deeper p else some 0
  | .error _ => none

def slotsPrice (v : StructView) : Option Nat :=
  tally (fun j => slotPrice deeper (v.pointerAt j s)) 0 v.shape.slots.toNat

def memberPrice (v : StructView) : Option Nat :=
  match v with
  | .absent => some 0
  | .backed _ shape _ => both (some (max (shape.bytes / 8) 1)) (slotsPrice s deeper v)

def structPrice (v : StructView) : Option Nat :=
  if v.shape.isEmpty then some 0 else memberPrice s deeper v

def listPrice (v : ListView) : Option Nat :=
  match v with
  | .absent => some 0
  | .backed _ len .composite _ =>
    both (some 1) (tally (fun i => memberPrice s deeper (v.member i)) 0 len)
  | .backed _ len .pointer _ =>
    both (some (max len 1)) (tally (fun i => slotPrice deeper (v.pointerAt i s)) 0 len)
  | .backed _ len elem _ => some (max (elem.bytesFor len / 8) 1)

def priceWith : Pointer → Option Nat
  | .struct v => structPrice s deeper v
  | .list v => listPrice s deeper v
  | _ => some 0

theorem listPrice_plain {elem : ElementKind} (hcomp : elem ≠ .composite) (hptr : elem ≠ .pointer)
    (loc : Location) (len : Nat) (shape : StructShape) :
    s.listPrice deeper (.backed loc len elem shape) = some (max (elem.bytesFor len / 8) 1) := by
  cases elem with
  | composite => exact absurd rfl hcomp
  | pointer => exact absurd rfl hptr
  | _ => rfl

end Layers

/-- The cost of a pointer whose tree is lower than the number of levels. -/
def price? (s : Store) : Nat → Pointer → Option Nat
  | 0, _ => none
  | k + 1, p => s.priceWith (s.price? k) p

theorem treeWith_isNull {s : Store} {f : Pointer → Option Tree} {p : Pointer} {T : Tree}
    (h : s.treeWith f p = some T) : T.isNull = !p.isBacked := by
  match p, h with
  | .null, h => cases h; rfl
  | .capability _, h => cases h; rfl
  | .struct .absent, h => cases h; rfl
  | .struct (.backed _ _ _), h =>
    obtain ⟨_, _, rfl⟩ := Option.map_eq_some_iff.mp h
    rfl
  | .list .absent, h => cases h; rfl
  | .list (.backed _ _ elem _), h =>
    cases elem with
    | composite =>
      obtain ⟨_, _, rfl⟩ := Option.map_eq_some_iff.mp h
      rfl
    | pointer =>
      obtain ⟨_, _, rfl⟩ := Option.map_eq_some_iff.mp h
      rfl
    | _ => cases h; rfl

theorem tree?_isNull {s : Store} {j : Nat} {p : Pointer} {T : Tree} (h : s.tree? j p = some T) :
    T.isNull = !p.isBacked := by
  cases j with
  | zero => cases h
  | succ j => exact treeWith_isNull h

theorem isBacked_of_null {s : Store} {j : Nat} {p : Pointer} (h : s.tree? j p = some .null) :
    p.isBacked = false := by
  simpa only [Tree.isNull, Bool.true_eq, Bool.not_eq_true'] using tree?_isNull h

theorem tree?_null {s : Store} {j : Nat} {T : Tree} (h : s.tree? j .null = some T) : T = .null := by
  cases j with
  | zero => cases h
  | succ j =>
    rw [tree?, treeWith] at h
    exact (Option.some.inj h).symm

theorem treeWith_absent {s : Store} {f : Pointer → Option Tree} {p : Pointer}
    (h : p.isBacked = false) : s.treeWith f p = some .null := by
  match p, h with
  | .null, _ => rfl
  | .struct .absent, _ => rfl
  | .list .absent, _ => rfl

section Priced

variable {s : Store} {f : Pointer → Option Tree} {deeper : Pointer → Option Nat} {k n : Nat}
  (hslot : ∀ r a, slotPrice deeper r = some a →
    ∃ T, slotTree f r = some T ∧ T.cost = a ∧ T.Within k)
include hslot

theorem memberPrice_tree {v : StructView} (h : s.memberPrice deeper v = some n) :
    ∃ T, s.structTree f v = some T ∧ T.memberCost = n ∧ T.height ≤ k := by
  cases v with
  | absent =>
      cases h
      exact ⟨.null, rfl, rfl, Nat.zero_le _⟩
  | backed loc shape member =>
      obtain ⟨b, hb, rfl⟩ := some_both_eq_some.mp h
      obtain ⟨Ts, hTs, rfl, hP⟩ := gather_of_tally (fun i a => hslot _ a) hb
      refine ⟨.struct shape (s.range loc shape.data) Ts,
        Option.map_eq_some_iff.mpr ⟨Ts, hTs, rfl⟩, ?_, Tree.rise_le.mpr hP⟩
      rw [Tree.memberCost, Tree.costs_eq]

theorem structPrice_tree {v : StructView} (h : s.structPrice deeper v = some n) :
    ∃ T, s.structTree f v = some T ∧ T.cost = n ∧ T.height ≤ k := by
  unfold structPrice at h
  split at h
  · rename_i hempty
    cases h
    cases v with
    | absent => exact ⟨.null, rfl, rfl, Nat.zero_le _⟩
    | backed loc shape member =>
        obtain rfl := (StructShape.isEmpty_iff shape).mp hempty
        exact ⟨.struct .empty _ [], rfl, rfl, Nat.zero_le _⟩
  · rename_i hne
    obtain ⟨T, hT, rfl, hk⟩ := memberPrice_tree hslot h
    refine ⟨T, hT, ?_, hk⟩
    cases v with
    | absent => exact absurd rfl hne
    | backed loc shape member =>
        obtain ⟨Ts, _, rfl⟩ := Option.map_eq_some_iff.mp hT
        have hne : ¬ shape.isEmpty = true := hne
        rw [Tree.cost, if_neg hne, Tree.memberCost]

theorem listPrice_tree {v : ListView} (h : s.listPrice deeper v = some n) :
    ∃ T, s.listTree f v = some T ∧ T.cost = n ∧ T.height ≤ k := by
  cases v with
  | absent =>
      cases h
      exact ⟨.null, rfl, rfl, Nat.zero_le _⟩
  | backed loc len elem shape =>
      by_cases hcomp : elem = .composite
      · subst hcomp
        obtain ⟨b, hb, rfl⟩ := some_both_eq_some.mp h
        obtain ⟨Ts, hTs, rfl, hP⟩ := gather_of_tally (fun i a => memberPrice_tree hslot) hb
        refine ⟨.composite shape len Ts, Option.map_eq_some_iff.mpr ⟨Ts, hTs, rfl⟩, ?_,
          Tree.highest_le.mpr hP⟩
        rw [Tree.cost, Tree.memberCosts_eq]
      · by_cases hptr : elem = .pointer
        · subst hptr
          obtain ⟨b, hb, rfl⟩ := some_both_eq_some.mp h
          obtain ⟨Ts, hTs, rfl, hP⟩ := gather_of_tally (fun i a => hslot _ a) hb
          refine ⟨.pointers len Ts, Option.map_eq_some_iff.mpr ⟨Ts, hTs, rfl⟩, ?_,
            Tree.rise_le.mpr hP⟩
          rw [Tree.cost, Tree.costs_eq]
        · rw [listPrice_plain s deeper hcomp hptr] at h
          cases h
          exact ⟨_, listTree_plain s f hcomp hptr loc len shape, rfl, Nat.zero_le _⟩

theorem priceWith_tree {p : Pointer} (h : s.priceWith deeper p = some n) :
    ∃ T, s.treeWith f p = some T ∧ T.cost = n ∧ T.height ≤ k := by
  cases p with
  | null =>
      cases h
      exact ⟨.null, rfl, rfl, Nat.zero_le _⟩
  | capability i =>
      cases h
      exact ⟨.capability i, rfl, rfl, Nat.zero_le _⟩
  | struct v => exact structPrice_tree hslot h
  | list v => exact listPrice_tree hslot h

end Priced

section Costed

variable {s : Store} {f : Pointer → Option Tree} {deeper : Pointer → Option Nat} {k : Nat}
  (hslot : ∀ r T, slotTree f r = some T → T.Within k → slotPrice deeper r = some T.cost)
include hslot

theorem memberPrice_cost {v : StructView} {T : Tree} (hT : s.structTree f v = some T)
    (hk : T.height ≤ k) : s.memberPrice deeper v = some T.memberCost := by
  cases v with
  | absent =>
      cases hT
      rfl
  | backed loc shape member =>
      obtain ⟨Ts, hTs, rfl⟩ := Option.map_eq_some_iff.mp hT
      rw [Tree.memberCost, Tree.costs_eq]
      exact some_both_eq_some.mpr
        ⟨_, tally_of_gather (fun i T => hslot _ T) hTs (Tree.rise_le.mp hk), rfl⟩

theorem structPrice_cost {v : StructView} {T : Tree} (hT : s.structTree f v = some T)
    (hk : T.height ≤ k) : s.structPrice deeper v = some T.cost := by
  have hmember := memberPrice_cost hslot hT hk
  cases v with
  | absent =>
      cases hT
      rfl
  | backed loc shape member =>
      obtain ⟨Ts, _, rfl⟩ := Option.map_eq_some_iff.mp hT
      rw [Tree.memberCost] at hmember
      rw [structPrice, Tree.cost, hmember, StructView.shape]
      split <;> rfl

theorem listPrice_cost {v : ListView} {T : Tree} (hT : s.listTree f v = some T)
    (hk : T.height ≤ k) : s.listPrice deeper v = some T.cost := by
  cases v with
  | absent =>
      cases hT
      rfl
  | backed loc len elem shape =>
      by_cases hcomp : elem = .composite
      · subst hcomp
        obtain ⟨Ts, hTs, rfl⟩ := Option.map_eq_some_iff.mp hT
        rw [Tree.cost, Tree.memberCosts_eq]
        exact some_both_eq_some.mpr
          ⟨_, tally_of_gather (fun i T => memberPrice_cost hslot) hTs (Tree.highest_le.mp hk), rfl⟩
      · by_cases hptr : elem = .pointer
        · subst hptr
          obtain ⟨Ts, hTs, rfl⟩ := Option.map_eq_some_iff.mp hT
          rw [Tree.cost, Tree.costs_eq]
          exact some_both_eq_some.mpr
            ⟨_, tally_of_gather (fun i T => hslot _ T) hTs (Tree.rise_le.mp hk), rfl⟩
        · rw [listTree_plain s f hcomp hptr] at hT
          cases hT
          exact listPrice_plain s deeper hcomp hptr loc len shape

theorem priceWith_cost {p : Pointer} {T : Tree} (hT : s.treeWith f p = some T)
    (hk : T.height ≤ k) : s.priceWith deeper p = some T.cost := by
  cases p with
  | null =>
      cases hT
      rfl
  | capability i =>
      cases hT
      rfl
  | struct v => exact structPrice_cost hslot hT hk
  | list v => exact listPrice_cost hslot hT hk

end Costed

theorem tree_of_price {s : Store} {k n : Nat} {p : Pointer} (h : s.price? k p = some n) :
    ∃ T, s.tree? (k + 1) p = some T ∧ T.cost = n ∧ T.height + 1 ≤ k := by
  induction k generalizing p n with
  | zero => cases h
  | succ k ih =>
      have hslot (r : Except Abort Pointer) (a : Nat) (ha : slotPrice (s.price? k) r = some a) :
          ∃ T, slotTree (s.tree? (k + 1)) r = some T ∧ T.cost = a ∧ T.Within k := by
        cases r with
        | error e => cases ha
        | ok q =>
            simp only [slotPrice] at ha
            split at ha
            · obtain ⟨T, hT, hcost, hk⟩ := ih ha
              exact ⟨T, hT, hcost, fun _ => hk⟩
            · rename_i hb
              cases ha
              exact ⟨.null, treeWith_absent (by simpa using hb), rfl, by rintro ⟨⟩⟩
      obtain ⟨T, hT, hcost, hk⟩ := priceWith_tree hslot h
      exact ⟨T, hT, hcost, Nat.succ_le_succ hk⟩

theorem price_of_tree {s : Store} {j k : Nat} {p : Pointer} {T : Tree} (hT : s.tree? j p = some T)
    (hk : T.height + 1 ≤ k) : s.price? k p = some T.cost := by
  induction k generalizing j p T with
  | zero => exact absurd hk (Nat.not_succ_le_zero _)
  | succ k ih =>
      cases j with
      | zero => cases hT
      | succ j =>
          have hslot (r : Except Abort Pointer) (U : Tree) (hU : slotTree (s.tree? j) r = some U)
              (hw : U.Within k) : slotPrice (s.price? k) r = some U.cost := by
            cases r with
            | error e => cases hU
            | ok q =>
                have hnull := tree?_isNull hU
                simp only [slotPrice]
                cases hb : q.isBacked with
                | true => exact ih hU (hw (by rw [hnull, hb]; rfl))
                | false =>
                    cases U with
                    | null => rfl
                    | _ => rw [hb] at hnull; cases hnull
          exact priceWith_cost hslot hT (Nat.le_of_succ_le_succ hk)

theorem price?_eq_some {s : Store} {k n : Nat} {p : Pointer} :
    s.price? (k + 1) p = some n ↔ ∃ j T, s.tree? j p = some T ∧ T.height ≤ k ∧ T.cost = n := by
  constructor
  · intro h
    obtain ⟨T, hT, hcost, hk⟩ := tree_of_price h
    exact ⟨k + 2, T, hT, Nat.le_of_succ_le_succ hk, hcost⟩
  · rintro ⟨j, T, hT, hk, rfl⟩
    exact price_of_tree hT (Nat.succ_le_succ hk)

end Store

end SegmentedMessage
