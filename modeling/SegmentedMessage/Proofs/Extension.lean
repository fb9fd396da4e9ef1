import SegmentedMessage.Proofs.Contents

/-!
What every operation leaves alone. `s.Extends m free t` says that `t` came from `s` by changes to
message `m` in which segments only grow and no used byte changes outside `free`.
-/

namespace SegmentedMessage

def Segment.Valid (x : Segment) : Prop :=
  x.bytes.size % 8 = 0 ∧ x.bytes.size ≤ x.capacity ∧ x.capacity ≤ largestSegment

namespace Arena

def Valid (a : Arena) : Prop :=
  ∀ (i : Nat) (x : Segment), a.segments[i]? = some x → x.Valid

structure Extends (free : Nat → Nat → Prop) (a b : Arena) : Prop where
  limits : b.limits = a.limits
  count : a.count ≤ b.count
  length : ∀ i, (a.contents i).length ≤ (b.contents i).length
  kept : ∀ i k, k < (a.contents i).length → ¬ free i k →
    (b.contents i)[k]? = (a.contents i)[k]?
  valid : a.Valid → b.Valid

theorem Valid.contents {a : Arena} (h : a.Valid) (i : Nat) :
    (a.contents i).length % 8 = 0 ∧ (a.contents i).length ≤ largestSegment := by
  cases hx : a.segments[i]? with
  | none =>
      rw [contents_of_none hx]
      exact ⟨rfl, Nat.zero_le _⟩
  | some x =>
      obtain ⟨hmod, hcap, hmax⟩ := h i x hx
      rw [contents_of_some hx, Buffer.length_bytes]
      exact ⟨hmod, Nat.le_trans hcap hmax⟩

variable {free : Nat → Nat → Prop} {a b c : Arena}

theorem Extends.refl (free : Nat → Nat → Prop) (a : Arena) : Extends free a a :=
  ⟨rfl, Nat.le_refl _, fun _ => Nat.le_refl _, fun _ _ _ _ => rfl, id⟩

theorem Extends.trans (h : Extends free a b) (h' : Extends free b c) : Extends free a c where
  limits := h'.limits.trans h.limits
  count := Nat.le_trans h.count h'.count
  length i := Nat.le_trans (h.length i) (h'.length i)
  kept i k hk hf := by
    rw [h'.kept i k (Nat.lt_of_lt_of_le hk (h.length i)) hf, h.kept i k hk hf]
  valid hv := h'.valid (h.valid hv)

theorem Extends.weaken {more : Nat → Nat → Prop} (h : Extends free a b)
    (hf : ∀ i k, k < (a.contents i).length → free i k → more i k) : Extends more a b where
  limits := h.limits
  count := h.count
  length := h.length
  kept i k hk hm := h.kept i k hk fun hfree => hm (hf i k hk hfree)
  valid := h.valid

theorem extends_overwrite {id k : Nat} {src : ByteArray} (h : a.covers id k src.size = true) :
    Extends (fun i j => i = id ∧ k ≤ j ∧ j < k + src.size) a (a.overwrite id k src) := by
  obtain ⟨hid, hle⟩ := covers_iff_contents.mp h
  have hsrc : k + (Buffer.bytes src).length ≤ (a.contents id).length := by
    rwa [Buffer.length_bytes]
  refine ⟨rfl, Nat.le_of_eq (count_overwrite a id k src).symm, ?_, ?_, ?_⟩
  · intro i
    rw [contents_overwrite h]
    split
    · rename_i hi
      subst hi
      exact Nat.le_of_eq (length_splice hsrc).symm
    · exact Nat.le_refl _
  · intro i j _ hfree
    rw [contents_overwrite h]
    split
    · rename_i hi
      subst hi
      rw [getElem?_splice hsrc, if_neg]
      rw [Buffer.length_bytes]
      exact fun hin => hfree ⟨rfl, hin⟩
    · rfl
  · intro hv i x hx
    rw [segments_overwrite] at hx
    split at hx
    · rename_i hi
      subst hi
      obtain ⟨y, hy, rfl⟩ := Option.map_eq_some_iff.mp hx
      have hsize : (Buffer.overwrite y.bytes k src).size = y.bytes.size := by
        apply Buffer.size_overwrite
        rwa [contents_of_some hy, Buffer.length_bytes] at hle
      have hvy := hv id y hy
      simpa only [Segment.Valid, hsize] using hvy
    · exact hv i x hx

theorem extends_extend {id n k : Nat} (h : a.room? id (Layout.roundUp n) = some k) :
    Extends (fun _ _ => False) a (a.extend id (Layout.roundUp n)) := by
  obtain ⟨hid, _, x, hx, hfits⟩ := room?_eq_some h
  refine ⟨rfl, Nat.le_of_eq (count_extend a id _).symm, ?_, ?_, ?_⟩
  · intro i
    rw [contents_extend hid]
    split
    · rw [List.length_append]
      omega
    · exact Nat.le_refl _
  · intro i j hj _
    rw [contents_extend hid]
    split
    · rw [List.getElem?_append_left hj]
    · rfl
  · intro hv i y hy
    rw [segments_extend] at hy
    split at hy
    · rename_i hi
      subst hi
      rw [hx] at hy
      cases hy
      obtain ⟨hmod, _, hmax⟩ := hv id x hx
      have hround := Layout.roundUp_mod n
      simp only [Segment.Valid, Buffer.size_pushZeros]
      exact ⟨by omega, hfits, hmax⟩
    · exact hv i y hy

theorem extends_openSegment {cap : Nat} (h : cap ≤ largestSegment) :
    Extends (fun _ _ => False) a (a.openSegment cap) := by
  refine ⟨rfl, ?_, ?_, ?_, ?_⟩
  · rw [count_openSegment]
    omega
  · intro i
    exact Nat.le_of_eq (congrArg List.length (contents_openSegment a cap i).symm)
  · intro i j _ _
    rw [contents_openSegment]
  · intro hv i x hx
    rw [segments_openSegment] at hx
    split at hx
    · cases hx
      exact ⟨rfl, Nat.zero_le _, h⟩
    · exact hv i x hx

end Arena

/-- `l.Extent n k` says that `k` is one of the `n` bytes from `l` on. -/
def Location.Extent (l : Location) (n : Nat) (k : Location) : Prop :=
  k.segment = l.segment ∧ l.address ≤ k.address ∧ k.address < l.address + n

def untouched (_ : Location) : Prop :=
  False

namespace Store

def Valid (s : Store) : Prop :=
  ∀ m, (s.message m).arena.Valid

def Grows (m : Nat) (free : Location → Prop) (s t : Store) : Prop :=
  (s.message m).arena.Extends (fun i k => free ⟨⟨m, i⟩, k⟩) (t.message m).arena

structure Retains (s t : Store) : Prop where
  size : s.messages.size ≤ t.messages.size
  covers : ∀ {l n}, s.covers l n = true → t.covers l n = true
  valid : s.Valid → t.Valid

theorem Retains.refl (s : Store) : s.Retains s :=
  ⟨Nat.le_refl _, id, id⟩

theorem Retains.trans {s t u : Store} (h : s.Retains t) (h' : t.Retains u) : s.Retains u :=
  ⟨Nat.le_trans h.size h'.size, fun hc => h'.covers (h.covers hc), fun hv => h'.valid (h.valid hv)⟩

structure Extends (m : Nat) (free : Location → Prop) (s t : Store) : Prop where
  size : t.messages.size = s.messages.size
  others : ∀ k, k ≠ m → t.message k = s.message k
  settings : t.message m = { s.message m with arena := (t.message m).arena }
  arena : (s.message m).arena.Extends (fun i k => free ⟨⟨m, i⟩, k⟩) (t.message m).arena

variable {m : Nat} {free : Location → Prop} {s t u : Store}

namespace Extends

theorem refl (m : Nat) (free : Location → Prop) (s : Store) : s.Extends m free s :=
  ⟨rfl, fun _ _ => rfl, rfl, .refl _ _⟩

theorem trans (h : s.Extends m free t) (h' : t.Extends m free u) : s.Extends m free u where
  size := h'.size.trans h.size
  others k hk := (h'.others k hk).trans (h.others k hk)
  settings := by
    rw [h'.settings, h.settings]
  arena := h.arena.trans h'.arena

theorem weaken {more : Location → Prop} (h : s.Extends m free t)
    (hf : ∀ l, l.segment.message = m → s.Used l → free l → more l) : s.Extends m more t where
  size := h.size
  others := h.others
  settings := h.settings
  arena := h.arena.weaken fun i k hk hfree => hf ⟨⟨m, i⟩, k⟩ rfl hk hfree

theorem of_untouched (h : s.Extends m untouched t) : s.Extends m free t :=
  h.weaken fun _ _ _ hf => False.elim hf

theorem message_eq (h : s.Extends m free t) {k : Nat} (hk : k ≠ m) : t.message k = s.message k :=
  h.others k hk

theorem contents_eq (h : s.Extends m free t) {r : SegmentRef} (hr : r.message ≠ m) :
    t.contents r = s.contents r := by
  rw [contents, Store.arena, h.others _ hr]
  rfl

theorem count_le (h : s.Extends m free t) (k : Nat) : s.count k ≤ t.count k := by
  by_cases hk : k = m
  · subst hk
    exact h.arena.count
  · exact Nat.le_of_eq (congrArg (fun x => x.arena.count) (h.others k hk).symm)

theorem length_le (h : s.Extends m free t) (r : SegmentRef) :
    (s.contents r).length ≤ (t.contents r).length := by
  by_cases hr : r.message = m
  · obtain ⟨k, i⟩ := r
    subst hr
    exact h.arena.length i
  · exact Nat.le_of_eq (congrArg List.length (h.contents_eq hr).symm)

theorem getElem?_eq (h : s.Extends m free t) {l : Location} (hl : s.Used l) (hf : ¬ free l) :
    (t.contents l.segment)[l.address]? = (s.contents l.segment)[l.address]? := by
  by_cases hr : l.segment.message = m
  · obtain ⟨⟨k, i⟩, a⟩ := l
    subst hr
    exact h.arena.kept i a hl hf
  · rw [h.contents_eq hr]

theorem valid (h : s.Extends m free t) (hv : s.Valid) : t.Valid := by
  intro k
  by_cases hk : k = m
  · subst hk
    exact h.arena.valid (hv k)
  · rw [h.others k hk]
    exact hv k

theorem used (h : s.Extends m free t) {l : Location} (hl : s.Used l) : t.Used l :=
  Nat.lt_of_lt_of_le hl (h.length_le l.segment)

theorem covers (h : s.Extends m free t) {l : Location} {n : Nat} (hc : s.covers l n = true) :
    t.covers l n = true := by
  rw [covers_iff] at hc ⊢
  exact ⟨Nat.lt_of_lt_of_le hc.1 (h.count_le _), Nat.le_trans hc.2 (h.length_le _)⟩

theorem retains (h : s.Extends m free t) : s.Retains t :=
  ⟨Nat.le_of_eq h.size.symm, h.covers, h.valid⟩

theorem range_eq (h : s.Extends m free t) {l : Location} {n : Nat}
    (hc : l.address + n ≤ (s.contents l.segment).length)
    (hf : ∀ k, l.Extent n k → ¬ free k) : t.range l n = s.range l n := by
  apply window_congr
  intro i hi hin
  have hused : s.Used ⟨l.segment, i⟩ := Nat.lt_of_lt_of_le hin hc
  exact h.getElem?_eq hused (hf _ ⟨rfl, hi, hin⟩)

theorem wordAt_eq (h : s.Extends m free t) {l : Location} (hc : s.covers l 8 = true)
    (hf : ∀ k, l.Extent 8 k → ¬ free k) : t.wordAt l = s.wordAt l := by
  rw [wordAt, wordAt, h.range_eq (covers_iff.mp hc).2 hf]

theorem of_fresh (h : s.Extends m free t) (hf : ∀ l, l.segment.message = m → free l → ¬ s.Used l) :
    s.Extends m untouched t :=
  h.weaken fun l hm hu hfree => hf l hm hfree hu

end Extends

namespace Grows

theorem refl (m : Nat) (free : Location → Prop) (s : Store) : s.Grows m free s :=
  Arena.Extends.refl _ _

theorem trans (h : s.Grows m free t) (h' : t.Grows m free u) : s.Grows m free u :=
  Arena.Extends.trans h h'

theorem weaken {more : Location → Prop} (h : s.Grows m free t)
    (hf : ∀ l, l.segment.message = m → s.Used l → free l → more l) : s.Grows m more t :=
  Arena.Extends.weaken h fun i k hk hfree => hf ⟨⟨m, i⟩, k⟩ rfl hk hfree

theorem count_le (h : s.Grows m free t) : s.count m ≤ t.count m :=
  h.count

theorem length_le (h : s.Grows m free t) {r : SegmentRef} (hr : r.message = m) :
    (s.contents r).length ≤ (t.contents r).length := by
  subst hr
  exact h.length r.index

theorem used (h : s.Grows m free t) {l : Location} (hm : l.segment.message = m)
    (hl : s.Used l) : t.Used l :=
  Nat.lt_of_lt_of_le hl (h.length_le hm)

theorem covers (h : s.Grows m free t) {l : Location} (hm : l.segment.message = m) {n : Nat}
    (hc : s.covers l n = true) : t.covers l n = true := by
  rw [covers_iff, hm] at hc ⊢
  exact ⟨Nat.lt_of_lt_of_le hc.1 h.count_le, Nat.le_trans hc.2 (h.length_le hm)⟩

theorem range_eq (h : s.Grows m free t) {l : Location} (hm : l.segment.message = m) {n : Nat}
    (hc : l.address + n ≤ (s.contents l.segment).length)
    (hf : ∀ k, l.Extent n k → ¬ free k) : t.range l n = s.range l n := by
  obtain ⟨⟨i, j⟩, a⟩ := l
  subst hm
  apply window_congr
  intro k hk hkn
  exact h.kept j k (Nat.lt_of_lt_of_le hkn hc) (hf _ ⟨rfl, hk, hkn⟩)

theorem wordAt_eq (h : s.Grows m free t) {l : Location} (hm : l.segment.message = m)
    (hc : s.covers l 8 = true) (hf : ∀ k, l.Extent 8 k → ¬ free k) : t.wordAt l = s.wordAt l := by
  rw [wordAt, wordAt, h.range_eq hm (covers_iff.mp hc).2 hf]

end Grows

theorem Extends.grows (h : s.Extends m free t) : s.Grows m free t :=
  h.arena

theorem Valid.length_mod (hv : s.Valid) (r : SegmentRef) : (s.contents r).length % 8 = 0 :=
  ((hv r.message).contents r.index).1

theorem Valid.length_le (hv : s.Valid) (r : SegmentRef) :
    (s.contents r).length ≤ largestSegment :=
  ((hv r.message).contents r.index).2

theorem Valid.covers_le (hv : s.Valid) {l : Location} {n : Nat} (hc : s.covers l n = true) :
    l.address + n ≤ largestSegment :=
  Nat.le_trans (covers_iff.mp hc).2 (hv.length_le l.segment)

theorem covers_fits (hv : s.Valid) {l : Location} {n : Nat} (hc : s.covers l n = true) :
    n ≤ largestSegment :=
  Nat.le_trans (Nat.le_add_left n _) (hv.covers_le hc)

theorem extends_withArena {a : Arena}
    (h : (s.message m).arena.Extends (fun i k => free ⟨⟨m, i⟩, k⟩) a) :
    s.Extends m free (s.withArena m a) := by
  by_cases hm : m < s.messages.size
  · refine ⟨size_withArena s m a, fun k hk => message_withArena_ne a hk, ?_, ?_⟩
    · rw [message_withArena_self a hm]
    · rw [message_withArena_self a hm]
      exact h
  · rw [withArena_of_size_le a (Nat.le_of_not_lt hm)]
    exact .refl m free s

theorem contents_withArena {a : Arena} (hm : m < s.messages.size) (r : SegmentRef) :
    (s.withArena m a).contents r = if r.message = m then a.contents r.index else s.contents r := by
  split
  · rename_i hr
    rw [contents, arena, hr, message_withArena_self a hm]
  · rename_i hr
    rw [contents, arena, message_withArena_ne a hr]
    rfl

theorem SegmentRef.eq_iff {q r : SegmentRef} :
    q = r ↔ q.message = r.message ∧ q.index = r.index := by
  cases q
  cases r
  simp

theorem contents_withArena_eq {a : Arena} {i : Nat} (f : List UInt8 → List UInt8)
    (hm : m < s.messages.size)
    (h : ∀ j, a.contents j =
      if j = i then f ((s.message m).arena.contents j) else (s.message m).arena.contents j)
    (r : SegmentRef) :
    (s.withArena m a).contents r = if r = ⟨m, i⟩ then f (s.contents r) else s.contents r := by
  obtain ⟨k, j⟩ := r
  rw [contents_withArena hm]
  by_cases hk : k = m
  · subst hk
    simp only [SegmentRef.eq_iff, if_true, true_and]
    exact h j
  · simp only [SegmentRef.eq_iff, hk, false_and, if_false]

theorem count_withArena {a : Arena} (hm : m < s.messages.size) (k : Nat) :
    (s.withArena m a).count k = if k = m then a.count else s.count k := by
  split
  · rename_i hk
    subst hk
    rw [count, message_withArena_self a hm]
  · rename_i hk
    rw [count, message_withArena_ne a hk]
    rfl

structure Pasted (l : Location) (src : List UInt8) (s t : Store) : Prop where
  covered : src ≠ [] → s.covers l src.length = true
  contents : ∀ r, t.contents r =
    if r = l.segment then splice (s.contents r) l.address src else s.contents r
  count : ∀ k, t.count k = s.count k
  extends_ : s.Extends l.segment.message (l.Extent src.length) t

theorem splice_nil (xs : List UInt8) (k : Nat) : splice xs k [] = xs := by
  rw [splice, List.append_nil, List.length_nil, Nat.add_zero, List.take_append_drop]

theorem Pasted.refl (l : Location) (s : Store) : Pasted l [] s s where
  covered h := absurd rfl h
  contents r := by
    rw [splice_nil, ite_self]
  count _ := rfl
  extends_ := .refl _ _ s

theorem outcome_paste (l : Location) (src : ByteArray) (s : Store) :
    Outcome (paste l src) s (fun _ t => Pasted l (Buffer.bytes src) s t ∧ s.covers l src.size = true)
      (fun e t => t = s ∧ e = .fault .rawAccess ∧ s.covers l src.size = false) := by
  apply outcome_onArena
  rw [Outcome.iff_results]
  constructor
  · intro _ b hb
    obtain ⟨hc, rfl⟩ := Arena.paste_ok.mp hb
    have hm : l.segment.message < s.messages.size := lt_size_of_covers (l := l) hc
    have hlen : (Buffer.bytes src).length = src.size := rfl
    refine ⟨⟨fun _ => hc, ?_, ?_, ?_⟩, hc⟩
    · intro r
      rw [contents_withArena_eq (splice · l.address (Buffer.bytes src)) hm
        fun i => Arena.contents_overwrite hc i]
    · intro k
      rw [count_withArena hm]
      split
      · rename_i hk
        subst hk
        exact Arena.count_overwrite _ _ _ _
      · rfl
    · apply extends_withArena
      refine (Arena.extends_overwrite hc).weaken ?_
      rintro i k _ ⟨rfl, hlo, hhi⟩
      exact ⟨rfl, hlo, hhi⟩
  · intro e b hb
    obtain ⟨hc, rfl, rfl⟩ := Arena.paste_error.mp hb
    exact ⟨withArena_self s _, rfl, hc⟩

theorem outcome_write (l : Location) (w v : Nat) (s : Store) :
    Outcome (write l w v) s
      (fun _ t => Pasted l (LittleEndian.encode w v) s t ∧ s.covers l w = true)
      (fun e t => t = s ∧ e = .fault .rawAccess ∧ s.covers l w = false) := by
  have h := outcome_paste l (Buffer.ofLE w v) s
  rw [Buffer.bytes_ofLE, Buffer.size_ofLE] at h
  exact h

theorem outcome_writeWord (l : Location) (w : PointerWord) (s : Store) :
    Outcome (writeWord l w) s
      (fun _ t => Pasted l (LittleEndian.encode 8 w.toNat) s t ∧ s.covers l 8 = true)
      (fun e t => t = s ∧ e = .fault .rawAccess ∧ s.covers l 8 = false) :=
  outcome_write l 8 w.toNat s

theorem outcome_clear (l : Location) (n : Nat) (s : Store) :
    Outcome (clear l n) s
      (fun _ t => Pasted l (List.replicate n 0) s t)
      (fun e t => t = s ∧ (e = .fault .overflow ∧ 0x100000000 ≤ l.address ∨
        e = .fault .rawAccess ∧ 0 < n ∧ s.covers l n = false)) := by
  unfold clear
  split
  · by_cases hn : n = 0
    · subst hn
      rw [Arena.clear_zero]
      apply outcome_onArena
      apply Outcome.pure
      rw [withArena_self]
      exact .refl l s
    · have hpos : 0 < n := Nat.pos_of_ne_zero hn
      rw [Arena.clear_of_pos hpos]
      have h := outcome_paste l (Buffer.zeros n) s
      rw [Buffer.bytes_zeros, Buffer.size_zeros] at h
      refine h.mono (fun _ t ht => ht.1) ?_
      rintro e t ⟨rfl, rfl, hc⟩
      exact ⟨rfl, .inr ⟨rfl, hpos, hc⟩⟩
  · rename_i hl
    exact Outcome.throw ⟨rfl, .inl ⟨rfl, Nat.le_of_not_lt hl⟩⟩

theorem arena_of_source (s : Store) (dst src : Location) :
    (if src.segment.message = dst.segment.message then none
      else some (s.arena src.segment)).getD (s.arena dst.segment) = s.arena src.segment := by
  split
  · rename_i h
    rw [Option.getD_none, arena, arena, h]
  · rfl

theorem copyBytes_eq (dst src : Location) (n : Nat) : copyBytes dst src n =
    if n = 0 then pure () else query (slice · src n) >>= paste dst := by
  funext s
  have hself := withArena_self s dst.segment.message
  unfold copyBytes
  simp only [onArena_run, Arena.copy_eq]
  rw [← arena, arena_of_source]
  by_cases hn : n = 0
  · simp only [Arena.pasteFrom, if_pos hn]
    exact congrArg (EStateM.Result.ok ()) hself
  · simp only [Arena.pasteFrom, if_neg hn, Bind.bind, EStateM.bind, query, slice]
    cases (s.arena src.segment).slice src.segment.index src.address n with
    | error e => exact congrArg (EStateM.Result.error (Abort.fault e)) hself
    | ok bytes =>
        exact (onArena_run dst.segment.message .fault
          (Arena.paste dst.segment.index dst.address bytes) s).symm

theorem outcome_copyBytes (dst src : Location) (n : Nat) (s : Store) :
    Outcome (copyBytes dst src n) s
      (fun _ t => Pasted dst (if n = 0 then [] else s.range src n) s t)
      (fun e t => t = s ∧ 0 < n ∧ e = .fault .rawAccess ∧
        (s.covers src n = false ∨ s.covers dst n = false)) := by
  rw [copyBytes_eq]
  split
  · exact Outcome.pure (.refl dst s)
  · rename_i hn
    have hpos : 0 < n := Nat.pos_of_ne_zero hn
    cases hc : s.covers src n with
    | false =>
        have herr : s.slice src n = .error (.fault .rawAccess) := by
          rw [slice, Arena.slice_error hc]
          rfl
        refine Outcome.bind (P := fun _ _ => False) ?_ (fun _ _ hf => hf.elim)
        apply outcome_query
        · intro a ha
          rw [herr] at ha
          cases ha
        · intro e he
          rw [herr] at he
          cases he
          exact ⟨rfl, hpos, rfl, .inl rfl⟩
    | true =>
        refine Outcome.bind (P := fun b t => b = Buffer.ofBytes (s.range src n) ∧ t = s) ?_ ?_
        · apply outcome_query
          · intro a ha
            rw [slice_eq hc] at ha
            cases ha
            exact ⟨rfl, rfl⟩
          · intro e he
            rw [slice_eq hc] at he
            cases he
        · rintro b t ⟨rfl, rfl⟩
          have h := outcome_paste dst (Buffer.ofBytes (t.range src n)) t
          rw [Buffer.bytes_ofBytes, Buffer.size_ofBytes, length_range hc] at h
          refine h.mono (fun _ u hu => hu.1) ?_
          rintro e u ⟨rfl, rfl, hd⟩
          exact ⟨rfl, hpos, rfl, .inr hd⟩

structure Allocated (r : SegmentRef) (n : Nat) (s : Store) (l : Location) (t : Store) : Prop where
  message : l.segment.message = r.message
  address : l.address = (s.contents l.segment).length
  extends_ : s.Extends r.message untouched t
  contents : r.message < s.messages.size → ∀ q, t.contents q =
    if q = l.segment then s.contents q ++ List.replicate (Layout.roundUp n) 0 else s.contents q
  index : r.message < s.messages.size → l.segment.index < t.count r.message

theorem allocated_extend {a b : Arena} {i n k : Nat}
    (ha : (s.message m).arena.Extends (fun _ _ => False) a)
    (hc : ∀ j, a.contents j = (s.message m).arena.contents j)
    (hr : a.room? i (Layout.roundUp n) = some k) (hb : b = a.extend i (Layout.roundUp n)) (j : Nat) :
    Allocated ⟨m, j⟩ n s ⟨⟨m, i⟩, k⟩ (s.withArena m b) := by
  obtain ⟨hi, hk, _⟩ := Arena.room?_eq_some hr
  subst hb
  refine ⟨rfl, ?_, ?_, ?_, ?_⟩
  · exact hk.trans (congrArg List.length (hc i))
  · exact extends_withArena (ha.trans (Arena.extends_extend hr))
  · intro hm q
    apply contents_withArena_eq (· ++ List.replicate (Layout.roundUp n) 0) hm
    intro j
    rw [Arena.contents_extend hi, hc]
  · intro hm
    rw [count_withArena hm, if_pos rfl, Arena.count_extend]
    exact hi

theorem outcome_allocate (r : SegmentRef) (n : Nat) (s : Store) :
    Outcome (allocate r n) s (fun l t => Allocated r n s l t)
      (fun e t => t = s ∧ ∃ f, e = .failure f) := by
  apply outcome_whenOpen
  · intro _
    exact ⟨rfl, _, rfl⟩
  · intro _
    refine Outcome.bind (P := fun p t => Allocated r n s ⟨⟨r.message, p.1⟩, p.2⟩ t) ?_ ?_
    · apply outcome_onArena
      rw [Outcome.iff_results]
      constructor
      · rintro ⟨i, k⟩ b hb
        obtain ⟨c, hc, hroom, hext⟩ := Arena.allocate_ok hb
        rcases hc with rfl | ⟨cap, hcap, rfl⟩
        · exact allocated_extend (.refl _ _) (fun _ => rfl) hroom hext r.index
        · exact allocated_extend (Arena.extends_openSegment hcap)
            (fun j => Arena.contents_openSegment _ cap j) hroom hext r.index
      · intro e b hb
        obtain ⟨_, rfl⟩ := Arena.allocate_error hb
        exact ⟨withArena_self s _, _, rfl⟩
    · rintro ⟨i, k⟩ t ht
      exact Outcome.pure ht

theorem outcome_allocateHere (r : SegmentRef) (n : Nat) (s : Store) :
    Outcome (allocateHere r n) s
      (fun l? t => (l? = none ∧ t = s) ∨ ∃ l, l? = some l ∧ l.segment = r ∧ Allocated r n s l t)
      (fun e t => t = s ∧ ∃ f, e = .failure f) := by
  apply outcome_whenOpen
  · intro _
    exact ⟨rfl, _, rfl⟩
  · intro _
    refine Outcome.bind (P := fun k? t => (k? = none ∧ t = s) ∨
      ∃ k, k? = some k ∧ Allocated r n s ⟨r, k⟩ t) ?_ ?_
    · apply outcome_onArena
      rw [Outcome.iff_results]
      constructor
      · intro k? b hb
        rcases Arena.allocateIn_ok hb with ⟨rfl, rfl⟩ | ⟨k, rfl, hroom, hext⟩
        · exact .inl ⟨rfl, withArena_self s _⟩
        · exact .inr ⟨k, rfl, allocated_extend (.refl _ _) (fun _ => rfl) hroom hext r.index⟩
      · intro e b hb
        exact absurd hb Arena.allocateIn_error
    · rintro k? t (⟨rfl, rfl⟩ | ⟨k, rfl, ht⟩)
      · exact Outcome.pure (.inl ⟨rfl, rfl⟩)
      · exact Outcome.pure (.inr ⟨_, rfl, rfl, ht⟩)

end Store

end SegmentedMessage
