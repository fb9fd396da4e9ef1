import SegmentedMessage.Arena.Basic
import SegmentedMessage.Bytes.Buffer
import SegmentedMessage.Fault
import SegmentedMessage.Layout.PointerWord

namespace SegmentedMessage.Arena

def overwrite (a : Arena) (id addr : Nat) (src : ByteArray) : Arena :=
  { a with segments := a.segments.modify id fun s =>
      { s with bytes := Buffer.overwrite s.bytes addr src } }

def paste (id addr : Nat) (src : ByteArray) : EStateM Fault Arena Unit := fun a =>
  if a.covers id addr src.size then .ok () (a.overwrite id addr src) else .error .rawAccess a

def slice (a : Arena) (id addr n : Nat) : Except Fault ByteArray :=
  match a.segments[id]? with
  | some s => if addr + n ≤ s.bytes.size then .ok (Buffer.slice s.bytes addr n)
      else .error .rawAccess
  | none => .error .rawAccess

def read (a : Arena) (id addr w : Nat) : Except Fault Nat :=
  match a.segments[id]? with
  | some s => if addr + w ≤ s.bytes.size then .ok (Buffer.getLE s.bytes addr w)
      else .error .rawAccess
  | none => .error .rawAccess

def write (id addr w v : Nat) : EStateM Fault Arena Unit :=
  paste id addr (Buffer.ofLE w v)

/-- A tail too short for a word reads as the null word. -/
def readWord (a : Arena) (id addr : Nat) : Except Fault PointerWord :=
  match a.segments[id]? with
  | some s =>
    if s.bytes.size < addr then .error .rawAccess
    else if addr + 8 ≤ s.bytes.size then .ok (.ofNat (Buffer.getLE s.bytes addr 8))
    else .ok .null
  | none => .error .rawAccess

def writeWord (id addr : Nat) (w : PointerWord) : EStateM Fault Arena Unit :=
  write id addr 8 w.toNat

/-- The range is checked before any zero is made, so that a refused request costs nothing. -/
def clear (id addr n : Nat) : EStateM Fault Arena Unit := fun a =>
  if n = 0 then .ok () a
  else if a.covers id addr n then paste id addr (Buffer.zeros n) a
  else .error .rawAccess a

def pasteFrom (id addr : Nat) (source : Arena) (srcId srcAddr n : Nat) :
    EStateM Fault Arena Unit := fun a =>
  if n = 0 then .ok () a
  else match source.slice srcId srcAddr n with
    | .ok src => paste id addr src a
    | .error e => .error e a

def receive (dst : Segment) (addr : Nat) (src : Segment) (srcAddr n : Nat) : Option Segment :=
  if addr + n ≤ dst.bytes.size ∧ srcAddr + n ≤ src.bytes.size then
    some { dst with bytes := Buffer.overwrite dst.bytes addr (Buffer.slice src.bytes srcAddr n) }
  else none

def copyFrom (a source : Arena) (id addr srcId srcAddr n : Nat) : Option Arena := do
  let dst ← a.segments[id]?
  let src ← source.segments[srcId]?
  let moved ← receive dst addr src srcAddr n
  return { a with segments := a.segments.setIfInBounds id moved }

def copyWithin (a : Arena) (id addr srcAddr n : Nat) : Option Arena := do
  let segment ← a.segments[id]?
  let moved ← receive segment addr segment srcAddr n
  return { a with segments := a.segments.setIfInBounds id moved }

/-- Two segments of one row are reached by cutting the row before the later one. -/
def copyAcross (a : Arena) (id addr srcId srcAddr n : Nat) : Option Arena :=
  let low := a.segments.extract 0 (max id srcId)
  let high := a.segments.extract (max id srcId) a.segments.size
  if id < srcId then do
    let dst ← low[id]?
    let src ← high[0]?
    let moved ← receive dst addr src srcAddr n
    return { a with segments := low.setIfInBounds id moved ++ high }
  else do
    let dst ← high[0]?
    let src ← low[srcId]?
    let moved ← receive dst addr src srcAddr n
    return { a with segments := low ++ high.setIfInBounds 0 moved }

def copy (id addr : Nat) (other : Option Arena) (srcId srcAddr n : Nat) :
    EStateM Fault Arena Unit := fun a =>
  if n = 0 then .ok () a
  else
    let copied := match other with
      | some source => a.copyFrom source id addr srcId srcAddr n
      | none =>
        if id = srcId then a.copyWithin id addr srcAddr n
        else a.copyAcross id addr srcId srcAddr n
    match copied with
    | some b => .ok () b
    | none => .error .rawAccess a

theorem paste_ok {a b : Arena} {id addr : Nat} {src : ByteArray} {u : Unit} :
    paste id addr src a = .ok u b ↔
      a.covers id addr src.size = true ∧ b = a.overwrite id addr src := by
  simp only [paste]
  split
  · simp [*, eq_comm]
  · simp [*]

theorem paste_error {a b : Arena} {id addr : Nat} {src : ByteArray} {e : Fault} :
    paste id addr src a = .error e b ↔
      a.covers id addr src.size = false ∧ e = .rawAccess ∧ b = a := by
  simp only [paste]
  split
  · simp [*]
  · simp [*, eq_comm]

theorem clear_zero (id addr : Nat) : clear id addr 0 = pure () := rfl

theorem clear_of_pos {n : Nat} (h : 0 < n) (id addr : Nat) :
    clear id addr n = paste id addr (Buffer.zeros n) := by
  funext a
  have hn : n ≠ 0 := by omega
  by_cases hc : a.covers id addr n = true
  · simp only [clear, if_neg hn, if_pos hc]
  · simp only [clear, if_neg hn, if_neg hc, paste, Buffer.size_zeros]

section Copies

variable {a source : Arena} {row : Array Segment} {id addr srcId srcAddr n k : Nat}

theorem extract_low (h : id < k) : (row.extract 0 k)[id]? = row[id]? := by
  rw [Array.getElem?_extract, Nat.zero_add]
  split
  · rfl
  · exact (Array.getElem?_eq_none (by omega)).symm

theorem extract_high (row : Array Segment) (k : Nat) :
    (row.extract k row.size)[0]? = row[k]? := by
  rw [Array.getElem?_extract, Nat.add_zero]
  split
  · rfl
  · exact (Array.getElem?_eq_none (by omega)).symm

theorem size_low (h : k ≤ row.size) : (row.extract 0 k).size = k := by
  rw [Array.size_extract, Nat.min_eq_left h, Nat.sub_zero]

theorem cut_row (h : k ≤ row.size) : row.extract 0 k ++ row.extract k row.size = row := by
  rw [Array.extract_append_extract, Nat.zero_min, Nat.max_eq_right h, Array.extract_size]

theorem set_low (h : id < k) (hk : k ≤ row.size) (x : Segment) :
    (row.extract 0 k).setIfInBounds id x ++ row.extract k row.size = row.setIfInBounds id x := by
  rw [← Array.setIfInBounds_append_left (by rwa [size_low hk]), cut_row hk]

theorem set_high (hk : k ≤ row.size) (x : Segment) :
    row.extract 0 k ++ (row.extract k row.size).setIfInBounds 0 x = row.setIfInBounds k x := by
  have hset : (row.extract 0 k ++ row.extract k row.size).setIfInBounds k x = _ :=
    Array.setIfInBounds_append_right (Nat.le_of_eq (size_low hk))
  rw [size_low hk, Nat.sub_self, cut_row hk] at hset
  exact hset.symm

theorem copyWithin_eq : a.copyWithin id addr srcAddr n = a.copyFrom a id addr id srcAddr n := by
  unfold copyWithin copyFrom
  cases a.segments[id]? <;> rfl

theorem copyAcross_eq (h : id ≠ srcId) :
    a.copyAcross id addr srcId srcAddr n = a.copyFrom a id addr srcId srcAddr n := by
  unfold copyAcross copyFrom
  by_cases hlt : id < srcId
  · simp only [if_pos hlt, Nat.max_eq_right (Nat.le_of_lt hlt), extract_low hlt, extract_high]
    cases hsrc : a.segments[srcId]? with
    | none => rfl
    | some src =>
        have hsize := Nat.le_of_lt (Array.getElem?_eq_some_iff.mp hsrc).1
        simp only [set_low hlt hsize]
  · have hgt : srcId < id := by omega
    simp only [if_neg hlt, Nat.max_eq_left (Nat.le_of_lt hgt), extract_low hgt, extract_high]
    cases hdst : a.segments[id]? with
    | none => rfl
    | some dst =>
        have hsize := Nat.le_of_lt (Array.getElem?_eq_some_iff.mp hdst).1
        simp only [set_high hsize]

theorem overwrite_of_some {x : Segment} (h : a.segments[id]? = some x) (src : ByteArray) :
    a.overwrite id addr src = { a with
      segments := a.segments.setIfInBounds id
        { x with bytes := Buffer.overwrite x.bytes addr src } } := by
  unfold overwrite
  congr 1
  apply Array.ext_getElem?
  intro i
  rw [Array.getElem?_modify, Array.getElem?_setIfInBounds]
  split
  · rename_i hi
    subst hi
    rw [h, if_pos (Array.getElem?_eq_some_iff.mp h).1]
    rfl
  · rfl

theorem covers_of_some {x : Segment} (h : a.segments[id]? = some x) :
    a.covers id addr n = decide (addr + n ≤ x.bytes.size) := by
  rw [covers, length?, h]
  rfl

theorem covers_of_none (h : a.segments[id]? = none) : a.covers id addr n = false := by
  rw [covers, length?, h]
  rfl

theorem pasteFrom_eq (hn : n ≠ 0) : pasteFrom id addr source srcId srcAddr n a =
    match a.copyFrom source id addr srcId srcAddr n with
    | some b => .ok () b
    | none => .error .rawAccess a := by
  unfold pasteFrom copyFrom slice
  rw [if_neg hn]
  cases hsrc : source.segments[srcId]? with
  | none => cases a.segments[id]? <;> rfl
  | some src =>
      by_cases hs : srcAddr + n ≤ src.bytes.size
      · simp only [if_pos hs, paste, Buffer.size_slice hs]
        cases hdst : a.segments[id]? with
        | none =>
            rw [covers_of_none hdst]
            rfl
        | some dst =>
            rw [covers_of_some hdst, overwrite_of_some hdst]
            by_cases hd : addr + n ≤ dst.bytes.size <;> simp [receive, hd, hs]
      · cases a.segments[id]? <;> simp [receive, hs]

theorem copy_eq (other : Option Arena) : copy id addr other srcId srcAddr n a =
    pasteFrom id addr (other.getD a) srcId srcAddr n a := by
  by_cases hn : n = 0
  · simp only [copy, pasteFrom, if_pos hn]
  · simp only [copy, pasteFrom_eq hn, if_neg hn]
    cases other with
    | some source => rfl
    | none =>
        by_cases hid : id = srcId
        · subst hid
          simp only [if_true, copyWithin_eq, Option.getD_none]
        · simp only [if_neg hid, copyAcross_eq hid, Option.getD_none]

end Copies

@[simp] theorem count_overwrite (a : Arena) (id addr : Nat) (src : ByteArray) :
    (a.overwrite id addr src).count = a.count := by
  simp [overwrite, count]

theorem segments_overwrite (a : Arena) (id addr : Nat) (src : ByteArray) (i : Nat) :
    (a.overwrite id addr src).segments[i]? =
      if id = i then
        a.segments[i]?.map fun s => { s with bytes := Buffer.overwrite s.bytes addr src }
      else a.segments[i]? := by
  simp [overwrite, Array.getElem?_modify]

theorem length?_overwrite {a : Arena} {id addr : Nat} {src : ByteArray}
    (h : a.covers id addr src.size = true) (i : Nat) :
    (a.overwrite id addr src).length? i = a.length? i := by
  obtain ⟨n, hn, hle⟩ := covers_iff.mp h
  simp only [length?, segments_overwrite] at hn ⊢
  by_cases hi : id = i
  · subst hi
    obtain ⟨s, hs, rfl⟩ := Option.map_eq_some_iff.mp hn
    simp [hs, Buffer.size_overwrite hle]
  · simp [hi]

end SegmentedMessage.Arena
