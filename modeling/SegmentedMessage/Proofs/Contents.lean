import SegmentedMessage.Proofs.Outcome

namespace SegmentedMessage

def window (xs : List UInt8) (k n : Nat) : List UInt8 :=
  (xs.drop k).take n

def splice (xs : List UInt8) (k : Nat) (src : List UInt8) : List UInt8 :=
  xs.take k ++ src ++ xs.drop (k + src.length)

theorem getElem?_window (xs : List UInt8) (k n i : Nat) :
    (window xs k n)[i]? = if i < n then xs[k + i]? else none := by
  simp only [window, List.getElem?_take, List.getElem?_drop]

theorem length_window {xs : List UInt8} {k n : Nat} (h : k + n ≤ xs.length) :
    (window xs k n).length = n := by
  simp only [window, List.length_take, List.length_drop]
  omega

theorem window_congr {xs ys : List UInt8} {k n : Nat}
    (h : ∀ i, k ≤ i → i < k + n → xs[i]? = ys[i]?) : window xs k n = window ys k n := by
  apply List.ext_getElem?
  intro i
  rw [getElem?_window, getElem?_window]
  split
  · exact h (k + i) (by omega) (by omega)
  · rfl

theorem length_splice {xs src : List UInt8} {k : Nat} (h : k + src.length ≤ xs.length) :
    (splice xs k src).length = xs.length := by
  simp only [splice, List.length_append, List.length_take, List.length_drop]
  omega

theorem getElem?_splice {xs src : List UInt8} {k : Nat} (h : k + src.length ≤ xs.length)
    (i : Nat) :
    (splice xs k src)[i]? = if k ≤ i ∧ i < k + src.length then src[i - k]? else xs[i]? := by
  have hk : (xs.take k).length = k := by
    rw [List.length_take]
    omega
  rw [splice, List.append_assoc, List.getElem?_append, hk]
  by_cases hlow : i < k
  · rw [if_pos hlow, if_neg (by omega), List.getElem?_take, if_pos hlow]
  · rw [if_neg hlow, List.getElem?_append]
    by_cases hin : i < k + src.length
    · rw [if_pos (by omega), if_pos ⟨by omega, hin⟩]
    · rw [if_neg (by omega), if_neg (by omega), List.getElem?_drop]
      congr 1
      omega

theorem window_splice_self {xs src : List UInt8} {k : Nat} (h : k + src.length ≤ xs.length) :
    window (splice xs k src) k src.length = src := by
  apply List.ext_getElem?
  intro i
  rw [getElem?_window, getElem?_splice h]
  split
  · rw [if_pos (by omega)]
    congr 1
    omega
  · rw [List.getElem?_eq_none (by omega)]

theorem window_splice {xs src : List UInt8} {k n i : Nat} (hi : i + src.length ≤ n)
    (h : k + n ≤ xs.length) :
    window (splice xs (k + i) src) k n = splice (window xs k n) i src := by
  have hin : i + src.length ≤ (window xs k n).length := by
    rwa [length_window h]
  apply List.ext_getElem?
  intro j
  rw [getElem?_window, getElem?_splice (by omega), getElem?_splice hin, getElem?_window]
  by_cases hj : i ≤ j ∧ j < i + src.length
  · rw [if_pos (by omega), if_pos (by omega), if_pos hj]
    congr 1
    omega
  · rw [if_neg hj]
    split
    · rw [if_neg (by omega)]
    · rfl

theorem window_window {xs : List UInt8} {k n j i : Nat} (h : j + i ≤ n) :
    window (window xs k n) j i = window xs (k + j) i := by
  apply List.ext_getElem?
  intro a
  simp only [getElem?_window]
  split
  · rw [if_pos (by omega), Nat.add_assoc]
  · rfl

namespace Arena

def contents (a : Arena) (i : Nat) : List UInt8 :=
  match a.segments[i]? with
  | some x => Buffer.bytes x.bytes
  | none => []

theorem contents_of_some {a : Arena} {i : Nat} {x : Segment} (h : a.segments[i]? = some x) :
    a.contents i = Buffer.bytes x.bytes := by
  rw [contents, h]

theorem contents_of_none {a : Arena} {i : Nat} (h : a.segments[i]? = none) :
    a.contents i = [] := by
  rw [contents, h]

theorem exists_segment {a : Arena} {i : Nat} (h : i < a.count) :
    ∃ x, a.segments[i]? = some x :=
  ⟨a.segments[i], Array.getElem?_eq_getElem h⟩

theorem lt_count {a : Arena} {i : Nat} {x : Segment} (h : a.segments[i]? = some x) :
    i < a.count :=
  (Array.getElem?_eq_some_iff.mp h).1

theorem contents_of_count_le {a : Arena} {i : Nat} (h : a.count ≤ i) : a.contents i = [] :=
  contents_of_none (Array.getElem?_eq_none h)

theorem length?_eq_some {a : Arena} {i n : Nat} :
    a.length? i = some n ↔ i < a.count ∧ n = (a.contents i).length := by
  constructor
  · intro h
    obtain ⟨x, hx, rfl⟩ := Option.map_eq_some_iff.mp h
    exact ⟨lt_count hx, by rw [contents_of_some hx, Buffer.length_bytes]⟩
  · rintro ⟨hi, rfl⟩
    obtain ⟨x, hx⟩ := exists_segment hi
    rw [length?, hx, contents_of_some hx]
    rfl

theorem covers_iff_contents {a : Arena} {i k n : Nat} :
    a.covers i k n = true ↔ i < a.count ∧ k + n ≤ (a.contents i).length := by
  rw [covers_iff]
  constructor
  · rintro ⟨len, hlen, hle⟩
    obtain ⟨hi, rfl⟩ := length?_eq_some.mp hlen
    exact ⟨hi, hle⟩
  · rintro ⟨hi, hle⟩
    exact ⟨_, length?_eq_some.mpr ⟨hi, rfl⟩, hle⟩

theorem contents_overwrite {a : Arena} {id k : Nat} {src : ByteArray}
    (h : a.covers id k src.size = true) (i : Nat) :
    (a.overwrite id k src).contents i =
      if i = id then splice (a.contents i) k (Buffer.bytes src) else a.contents i := by
  obtain ⟨hid, _⟩ := covers_iff_contents.mp h
  rw [contents, segments_overwrite]
  by_cases hi : i = id
  · subst hi
    obtain ⟨x, hx⟩ := exists_segment hid
    rw [if_pos rfl, if_pos rfl, hx, contents_of_some hx]
    exact Buffer.bytes_overwrite x.bytes src k
  · rw [if_neg (Ne.symm hi), if_neg hi, contents]

theorem slice_eq {a : Arena} {i k n : Nat} (h : a.covers i k n = true) :
    a.slice i k n = .ok (Buffer.ofBytes (window (a.contents i) k n)) := by
  obtain ⟨hi, hle⟩ := covers_iff_contents.mp h
  obtain ⟨x, hx⟩ := exists_segment hi
  rw [contents_of_some hx, Buffer.length_bytes] at hle
  rw [slice, hx, contents_of_some hx]
  simp only [if_pos hle, Except.ok.injEq]
  apply Buffer.ext_bytes
  rw [Buffer.bytes_slice, Buffer.bytes_ofBytes, window]

theorem slice_error {a : Arena} {i k n : Nat} (h : a.covers i k n = false) :
    a.slice i k n = .error .rawAccess := by
  cases hx : a.segments[i]? with
  | none => rw [slice, hx]
  | some x =>
      have hlt : ¬ k + n ≤ x.bytes.size := by
        intro hle
        have hc : a.covers i k n = true := by
          rw [covers_iff_contents, contents_of_some hx, Buffer.length_bytes]
          exact ⟨lt_count hx, hle⟩
        rw [hc] at h
        cases h
      rw [slice, hx]
      simp only [if_neg hlt]

theorem read_eq {a : Arena} {i k n : Nat} (h : a.covers i k n = true) :
    a.read i k n = .ok (LittleEndian.decode (window (a.contents i) k n)) := by
  obtain ⟨hi, hle⟩ := covers_iff_contents.mp h
  obtain ⟨x, hx⟩ := exists_segment hi
  rw [contents_of_some hx, Buffer.length_bytes] at hle
  rw [read, hx, contents_of_some hx]
  simp only [if_pos hle, Except.ok.injEq]
  rw [Buffer.getLE_eq_decode hle, Buffer.bytes_slice, window]

theorem readWord_eq {a : Arena} {i k : Nat} (h : a.covers i k 8 = true) :
    a.readWord i k = .ok (.ofNat (LittleEndian.decode (window (a.contents i) k 8))) := by
  obtain ⟨hi, hle⟩ := covers_iff_contents.mp h
  obtain ⟨x, hx⟩ := exists_segment hi
  rw [contents_of_some hx, Buffer.length_bytes] at hle
  rw [readWord, hx, contents_of_some hx]
  simp only [if_neg (show ¬ x.bytes.size < k by omega), if_pos hle, Except.ok.injEq]
  rw [Buffer.getLE_eq_decode hle, Buffer.bytes_slice, window]

@[simp] theorem count_extend (a : Arena) (id n : Nat) : (a.extend id n).count = a.count := by
  simp [extend, count]

@[simp] theorem count_openSegment (a : Arena) (cap : Nat) :
    (a.openSegment cap).count = a.count + 1 := by
  simp [openSegment, count]

theorem segments_extend (a : Arena) (id n i : Nat) :
    (a.extend id n).segments[i]? =
      if id = i then a.segments[i]?.map fun s => { s with bytes := Buffer.pushZeros n s.bytes }
      else a.segments[i]? := by
  simp [extend, Array.getElem?_modify]

theorem segments_openSegment (a : Arena) (cap i : Nat) :
    (a.openSegment cap).segments[i]? =
      if i = a.count then some ⟨ByteArray.empty, cap⟩ else a.segments[i]? :=
  Array.getElem?_push

theorem contents_extend {a : Arena} {id : Nat} (h : id < a.count) (n i : Nat) :
    (a.extend id n).contents i =
      if i = id then a.contents i ++ List.replicate n 0 else a.contents i := by
  rw [contents, segments_extend]
  by_cases hi : i = id
  · subst hi
    obtain ⟨x, hx⟩ := exists_segment h
    rw [if_pos rfl, if_pos rfl, hx, contents_of_some hx]
    exact Buffer.bytes_pushZeros n x.bytes
  · rw [if_neg (Ne.symm hi), if_neg hi, contents]

theorem contents_openSegment (a : Arena) (cap i : Nat) :
    (a.openSegment cap).contents i = a.contents i := by
  rw [contents, segments_openSegment]
  by_cases hi : i = a.count
  · rw [if_pos hi, contents_of_count_le (Nat.le_of_eq hi.symm)]
    rfl
  · rw [if_neg hi, contents]

theorem room?_eq_some {a : Arena} {id n k : Nat} (h : a.room? id n = some k) :
    id < a.count ∧ k = (a.contents id).length ∧
      ∃ x, a.segments[id]? = some x ∧ x.bytes.size + n ≤ x.capacity := by
  simp only [room?] at h
  split at h
  · cases h
  · split at h
    · rename_i x hx
      split at h
      · rename_i hfits
        cases h
        exact ⟨lt_count hx, by rw [contents_of_some hx, Buffer.length_bytes], x, hx, hfits⟩
      · cases h
    · cases h

theorem room?_within {a : Arena} {id n k : Nat} (h : a.room? id n = some k) :
    a.allocated + n ≤ a.limits.ceiling := by
  simp only [room?] at h
  split at h
  · cases h
  · rename_i hover
    exact Nat.le_of_not_lt hover

theorem allocate_grants {a b : Arena} {pref n id k : Nat}
    (h : allocate pref n a = .ok (id, k) b) :
    ∃ c, (c = a ∨ c = a.openSegment (a.nextCapacity (Layout.roundUp n))) ∧
      c.room? id (Layout.roundUp n) = some k ∧ b = c.extend id (Layout.roundUp n) := by
  simp only [allocate] at h
  cases hr : a.request n with
  | error e =>
      rw [hr] at h
      cases h
  | ok p =>
      obtain ⟨hp, hmax, _⟩ := request_eq_ok.mp hr
      obtain ⟨_, rfl⟩ := Layout.roundUp?_eq_some.mp hp
      simp only [hr] at h
      split at h
      · rename_i k' hroom
        cases h
        exact ⟨a, .inl rfl, hroom, rfl⟩
      · split at h
        · rename_i k' hroom
          cases h
          exact ⟨a, .inl rfl, hroom, rfl⟩
        · split at h
          · rename_i k' hroom
            cases h
            exact ⟨_, .inr rfl, hroom, rfl⟩
          · cases h

theorem allocate_ok {a b : Arena} {pref n id k : Nat} (h : allocate pref n a = .ok (id, k) b) :
    ∃ c, (c = a ∨ ∃ cap, cap ≤ largestSegment ∧ c = a.openSegment cap) ∧
      c.room? id (Layout.roundUp n) = some k ∧ b = c.extend id (Layout.roundUp n) := by
  obtain ⟨c, hc, hroom, hb⟩ := allocate_grants h
  exact ⟨c, hc.imp_right fun h => ⟨_, a.nextCapacity_le _, h⟩, hroom, hb⟩

theorem allocateIn_ok {a b : Arena} {id n : Nat} {r : Option Nat}
    (h : allocateIn id n a = .ok r b) :
    (r = none ∧ b = a) ∨
      ∃ k, r = some k ∧ a.room? id (Layout.roundUp n) = some k ∧
        b = a.extend id (Layout.roundUp n) := by
  simp only [allocateIn] at h
  split at h
  · cases h
    exact .inl ⟨rfl, rfl⟩
  · rename_i p hp
    obtain ⟨_, rfl⟩ := Layout.roundUp?_eq_some.mp hp
    split at h
    · cases h
      exact .inl ⟨rfl, rfl⟩
    · rename_i k hroom
      cases h
      exact .inr ⟨k, rfl, hroom, rfl⟩

theorem allocateIn_error {a b : Arena} {id n : Nat} {e : ArenaFailure} :
    allocateIn id n a ≠ .error e b := by
  simp only [allocateIn]
  split
  · exact fun h => nomatch h
  · split
    · exact fun h => nomatch h
    · exact fun h => nomatch h

end Arena

namespace Store

def contents (s : Store) (r : SegmentRef) : List UInt8 :=
  (s.arena r).contents r.index

def count (s : Store) (m : Nat) : Nat :=
  (s.message m).arena.count

def range (s : Store) (l : Location) (n : Nat) : List UInt8 :=
  window (s.contents l.segment) l.address n

def wordAt (s : Store) (l : Location) : PointerWord :=
  .ofNat (LittleEndian.decode (s.range l 8))

def Used (s : Store) (l : Location) : Prop :=
  l.address < (s.contents l.segment).length

theorem covers_iff {s : Store} {l : Location} {n : Nat} :
    s.covers l n = true ↔
      l.segment.index < s.count l.segment.message ∧
        l.address + n ≤ (s.contents l.segment).length :=
  Arena.covers_iff_contents

theorem covers_mono {s : Store} {l k : Location} {n j : Nat} (h : s.covers l n = true)
    (hk : k.segment = l.segment) (hj : k.address + j ≤ l.address + n) :
    s.covers k j = true := by
  rw [covers_iff] at h ⊢
  rw [hk]
  exact ⟨h.1, Nat.le_trans hj h.2⟩

theorem covers_take {s : Store} {l : Location} {n j : Nat} (h : s.covers l n = true)
    (hj : j ≤ n) : s.covers l j = true :=
  covers_mono h rfl (Nat.add_le_add_left hj _)

theorem covers_within {s : Store} {l : Location} {i n k j : Nat}
    (h : s.covers (l.shift i) n = true) (hj : k + j ≤ i + n) :
    s.covers (l.shift k) j = true := by
  refine covers_mono h rfl ?_
  simp only [Location.shift_address]
  omega

theorem covers_shift {s : Store} {l : Location} {n i j : Nat} (h : s.covers l n = true)
    (hj : i + j ≤ n) : s.covers (l.shift i) j = true := by
  refine covers_mono h rfl ?_
  simp only [Location.shift_address]
  omega

theorem readWord_eq {s : Store} {l : Location} (h : s.covers l 8 = true) :
    s.readWord l = .ok (s.wordAt l) := by
  rw [readWord, Arena.readWord_eq h]
  rfl

theorem read_eq {s : Store} {l : Location} {n : Nat} (h : s.covers l n = true) :
    s.read l n = .ok (LittleEndian.decode (s.range l n)) := by
  rw [read, Arena.read_eq h]
  rfl

theorem slice_eq {s : Store} {l : Location} {n : Nat} (h : s.covers l n = true) :
    s.slice l n = .ok (Buffer.ofBytes (s.range l n)) := by
  rw [slice, Arena.slice_eq h]
  rfl

theorem length_range {s : Store} {l : Location} {n : Nat} (h : s.covers l n = true) :
    (s.range l n).length = n :=
  length_window (covers_iff.mp h).2

theorem message_withArena_ne {s : Store} {m k : Nat} (a : Arena) (h : k ≠ m) :
    (s.withArena m a).message k = s.message k :=
  message_setMessage_ne _ (Ne.symm h)

theorem message_withArena_self {s : Store} {m : Nat} (a : Arena) (h : m < s.messages.size) :
    (s.withArena m a).message m = { s.message m with arena := a } :=
  message_setMessage_self _ h

theorem withArena_of_size_le {s : Store} {m : Nat} (a : Arena) (h : s.messages.size ≤ m) :
    s.withArena m a = s := by
  simp [withArena, setMessage, Array.setIfInBounds_eq_of_size_le h]

theorem withArena_self (s : Store) (m : Nat) : s.withArena m (s.message m).arena = s := by
  by_cases h : m < s.messages.size
  · have hm : s.message m = s.messages[m] := by
      simp [message, h]
    have hset : s.messages.setIfInBounds m (s.message m) = s.messages := by
      rw [hm, Array.setIfInBounds, dif_pos h, Array.set_getElem_self]
    exact congrArg Store.mk hset
  · exact withArena_of_size_le _ (Nat.le_of_not_lt h)

theorem size_withArena (s : Store) (m : Nat) (a : Arena) :
    (s.withArena m a).messages.size = s.messages.size :=
  size_setMessage s m _

theorem message_of_size_le {s : Store} {m : Nat} (h : s.messages.size ≤ m) :
    s.message m = default := by
  simp [message, Array.getElem?_eq_none h]

theorem lt_size_of_covers {s : Store} {l : Location} {n : Nat} (h : s.covers l n = true) :
    l.segment.message < s.messages.size := by
  apply Nat.lt_of_not_le
  intro hle
  have hc : s.count l.segment.message = 0 := by
    rw [count, message_of_size_le hle]
    rfl
  have hi := (covers_iff.mp h).1
  omega

end Store

end SegmentedMessage
