import SegmentedMessage.Bytes.LittleEndian

namespace SegmentedMessage.Buffer

def bytes (b : ByteArray) : List UInt8 :=
  b.data.toList

@[simp] theorem length_bytes (b : ByteArray) : (bytes b).length = b.size := rfl

theorem ext_bytes {a b : ByteArray} (h : bytes a = bytes b) : a = b := by
  cases a; cases b
  simpa [bytes, Array.toList_inj] using h

def ofBytes (bs : List UInt8) : ByteArray :=
  ⟨bs.toArray⟩

@[simp] theorem bytes_ofBytes (bs : List UInt8) : bytes (ofBytes bs) = bs := by
  simp [bytes, ofBytes]

@[simp] theorem size_ofBytes (bs : List UInt8) : (ofBytes bs).size = bs.length := by
  rw [← length_bytes, bytes_ofBytes]

def pushZeros : Nat → ByteArray → ByteArray
  | 0, b => b
  | n + 1, b => pushZeros n (b.push 0)

theorem bytes_pushZeros (n : Nat) (b : ByteArray) :
    bytes (pushZeros n b) = bytes b ++ List.replicate n 0 := by
  induction n generalizing b with
  | zero => simp [pushZeros]
  | succ n ih =>
      rw [pushZeros, ih]
      simp [bytes, List.replicate_succ]

@[simp] theorem size_pushZeros (n : Nat) (b : ByteArray) : (pushZeros n b).size = b.size + n := by
  simp [← length_bytes, bytes_pushZeros]

def zeros (n : Nat) : ByteArray :=
  pushZeros n (ByteArray.emptyWithCapacity n)

@[simp] theorem bytes_zeros (n : Nat) : bytes (zeros n) = List.replicate n 0 := by
  rw [zeros, bytes_pushZeros]
  rfl

@[simp] theorem size_zeros (n : Nat) : (zeros n).size = n := by
  rw [← length_bytes, bytes_zeros, List.length_replicate]

def slice (b : ByteArray) (start n : Nat) : ByteArray :=
  b.extract start (start + n)

theorem bytes_slice (b : ByteArray) (start n : Nat) :
    bytes (slice b start n) = ((bytes b).drop start).take n := by
  simp [bytes, slice, ByteArray.data_extract, Array.toList_extract, List.extract_eq_take_drop]

theorem size_slice {b : ByteArray} {start n : Nat} (h : start + n ≤ b.size) :
    (slice b start n).size = n := by
  rw [← length_bytes, bytes_slice, List.length_take, List.length_drop, length_bytes]
  omega

def overwrite (b : ByteArray) (start : Nat) (src : ByteArray) : ByteArray :=
  src.copySlice 0 b start src.size

theorem bytes_overwrite (b src : ByteArray) (start : Nat) :
    bytes (overwrite b start src) =
      (bytes b).take start ++ bytes src ++ (bytes b).drop (start + src.size) := by
  have hmin : min src.size src.data.size = src.size := Nat.min_self _
  simp only [bytes, overwrite, ByteArray.copySlice, Array.toList_append, Array.toList_extract,
    List.extract_eq_take_drop, List.drop_zero, Nat.zero_add, Nat.sub_zero]
  have hsrc : src.data.toList.take src.size = src.data.toList := List.take_length
  have hrest : (b.data.toList.drop (start + src.size)).take (b.data.size - (start + src.size)) =
      b.data.toList.drop (start + src.size) :=
    List.take_of_length_le (by simp)
  rw [hmin, hsrc, hrest]

theorem size_overwrite {b src : ByteArray} {start : Nat} (h : start + src.size ≤ b.size) :
    (overwrite b start src).size = b.size := by
  simp only [← length_bytes, bytes_overwrite]
  simp; omega

theorem slice_overwrite_self {b src : ByteArray} {start : Nat} (h : start + src.size ≤ b.size) :
    slice (overwrite b start src) start src.size = src := by
  apply ext_bytes
  have hlen : ((bytes b).take start).length = start := by simp; omega
  rw [bytes_slice, bytes_overwrite, List.append_assoc, List.drop_append_of_le_length (by omega),
    List.drop_of_length_le (by omega), List.nil_append, List.take_append_of_le_length (by simp)]
  exact List.take_of_length_le (by simp)

def getLE (b : ByteArray) (start : Nat) : Nat → Nat
  | 0 => 0
  | w + 1 => (b[start]?.getD 0).toNat + 256 * getLE b (start + 1) w

theorem getLE_eq_decode {b : ByteArray} {start w : Nat} (h : start + w ≤ b.size) :
    getLE b start w = LittleEndian.decode (bytes (slice b start w)) := by
  induction w generalizing start with
  | zero => simp [bytes_slice, getLE, LittleEndian.decode]
  | succ w ih =>
      have hs : start < (bytes b).length := by simp; omega
      have hd : (bytes b).drop start = (bytes b)[start] :: (bytes b).drop (start + 1) := by simp
      have hg : b[start]?.getD 0 = (bytes b)[start] := by
        simp only [length_bytes] at hs
        rw [getElem?_pos b start hs]; rfl
      rw [bytes_slice, hd, List.take_succ_cons, LittleEndian.decode, getLE, hg,
        ih (by omega), bytes_slice]

def pushLE (b : ByteArray) : Nat → Nat → ByteArray
  | 0, _ => b
  | w + 1, v => pushLE (b.push (UInt8.ofNat (v % 256))) w (v / 256)

theorem bytes_pushLE (b : ByteArray) (w v : Nat) :
    bytes (pushLE b w v) = bytes b ++ LittleEndian.encode w v := by
  induction w generalizing b v with
  | zero => simp [pushLE, LittleEndian.encode]
  | succ w ih =>
      rw [pushLE, ih]
      simp [bytes, LittleEndian.encode]

def ofLE (w v : Nat) : ByteArray :=
  pushLE (ByteArray.emptyWithCapacity w) w v

@[simp] theorem bytes_ofLE (w v : Nat) : bytes (ofLE w v) = LittleEndian.encode w v := by
  rw [ofLE, bytes_pushLE]
  rfl

@[simp] theorem size_ofLE (w v : Nat) : (ofLE w v).size = w := by
  rw [← length_bytes, bytes_ofLE, LittleEndian.length_encode]

def putLE (b : ByteArray) (start w v : Nat) : ByteArray :=
  overwrite b start (ofLE w v)

theorem size_putLE {b : ByteArray} {start w v : Nat} (h : start + w ≤ b.size) :
    (putLE b start w v).size = b.size :=
  size_overwrite (by simpa using h)

theorem getLE_putLE {b : ByteArray} {start w v : Nat} (h : start + w ≤ b.size) :
    getLE (putLE b start w v) start w = v % LittleEndian.span w := by
  have hself : slice (putLE b start w v) start w = ofLE w v := by
    have hsrc : start + (ofLE w v).size ≤ b.size := by simpa using h
    simpa [putLE] using slice_overwrite_self hsrc
  rw [getLE_eq_decode (by rw [size_putLE h]; exact h), hself, bytes_ofLE,
    LittleEndian.decode_encode]

end SegmentedMessage.Buffer
