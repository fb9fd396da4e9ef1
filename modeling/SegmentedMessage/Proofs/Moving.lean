import SegmentedMessage.Proofs.Extension

namespace SegmentedMessage

/-- How a copy of `n` bytes ends: a copy of none changes nothing, one between covered places gives
a state with `P`, and any other is refused with `e` where it started. -/
def CopyEnds {ε σ : Type} (n : Nat) (covered : Bool) (P : σ → Prop) (e : ε) (s : σ)
    (r : EStateM.Result ε σ Unit) : Prop :=
  (n = 0 ∧ r = .ok () s) ∨ (0 < n ∧ covered = true ∧ ∃ t, r = .ok () t ∧ P t) ∨
    (0 < n ∧ covered = false ∧ r = .error e s)

namespace Arena

variable {a source : Arena} {id addr srcId srcAddr n : Nat}

/-- Of `a` only the `n` bytes from `addr` on in segment `id` changed: in `b` they are those that
`source` had from `srcAddr` on. -/
structure Moved (source : Arena) (srcId srcAddr n id addr : Nat) (a b : Arena) : Prop where
  copied : ∀ k, k < n → (b.contents id)[addr + k]? = (source.contents srcId)[srcAddr + k]?
  others : ∀ i j, ¬ (i = id ∧ addr ≤ j ∧ j < addr + n) → (b.contents i)[j]? = (a.contents i)[j]?
  lengths : ∀ i, b.length? i = a.length? i
  capacities : ∀ i : Nat, b.segments[i]?.map Segment.capacity = a.segments[i]?.map Segment.capacity
  allocated : b.allocated = a.allocated
  limits : b.limits = a.limits

theorem moved_overwrite {src : ByteArray} (hd : a.covers id addr src.size = true)
    (hsrc : Buffer.bytes src = window (source.contents srcId) srcAddr src.size) :
    Moved source srcId srcAddr src.size id addr a (a.overwrite id addr src) := by
  have hfits : addr + (Buffer.bytes src).length ≤ (a.contents id).length :=
    (covers_iff_contents.mp hd).2
  refine ⟨?_, ?_, length?_overwrite hd, ?_, rfl, rfl⟩
  · intro k hk
    have hin : addr ≤ addr + k ∧ addr + k < addr + (Buffer.bytes src).length :=
      ⟨Nat.le_add_right addr k, Nat.add_lt_add_left hk addr⟩
    rw [contents_overwrite hd, if_pos rfl, getElem?_splice hfits, if_pos hin,
      Nat.add_sub_cancel_left, hsrc, getElem?_window, if_pos hk]
  · intro i j hout
    rw [contents_overwrite hd]
    split
    · rename_i hi
      subst hi
      exact (getElem?_splice hfits j).trans (if_neg fun hin => hout ⟨rfl, hin⟩)
    · rfl
  · intro i
    rw [segments_overwrite]
    split
    · rw [Option.map_map]
      rfl
    · rfl

theorem exists_slice (h : source.covers srcId srcAddr n = true) :
    ∃ src, source.slice srcId srcAddr n = .ok src ∧
      Buffer.bytes src = window (source.contents srcId) srcAddr src.size ∧ src.size = n := by
  have hsize : (Buffer.ofBytes (window (source.contents srcId) srcAddr n)).size = n := by
    rw [Buffer.size_ofBytes, length_window (covers_iff_contents.mp h).2]
  exact ⟨_, slice_eq h, by rw [Buffer.bytes_ofBytes, hsize], hsize⟩

theorem copy_ends (a : Arena) (other : Option Arena) (id addr srcId srcAddr n : Nat) :
    CopyEnds n (a.covers id addr n && (other.getD a).covers srcId srcAddr n)
      (Moved (other.getD a) srcId srcAddr n id addr a) .rawAccess a
      (copy id addr other srcId srcAddr n a) := by
  rw [copy_eq]
  rcases Nat.eq_zero_or_pos n with hn | hn
  · exact .inl ⟨hn, by simp only [pasteFrom, if_pos hn]⟩
  refine .inr ?_
  simp only [pasteFrom, if_neg (Nat.ne_of_gt hn)]
  cases hs : (other.getD a).covers srcId srcAddr n with
  | false =>
      rw [slice_error hs, Bool.and_false]
      exact .inr ⟨hn, rfl, rfl⟩
  | true =>
      obtain ⟨src, hslice, hsrc, rfl⟩ := exists_slice hs
      rw [Bool.and_true, hslice]
      simp only [paste]
      cases hd : a.covers id addr src.size with
      | false => exact .inr ⟨hn, rfl, rfl⟩
      | true => exact .inl ⟨hn, rfl, _, rfl, moved_overwrite hd hsrc⟩

end Arena

open Arena Store in
/-- A copy of bytes is a move, on each of the ways it can take through one arena or two. The second
half is the same of two messages side by side, where the source could change as well. -/
theorem copy_moves_bytes :
    (∀ (a : Arena) (other : Option Arena) (id addr srcId srcAddr n : Nat),
      CopyEnds n (a.covers id addr n && (other.getD a).covers srcId srcAddr n)
        (Moved (other.getD a) srcId srcAddr n id addr a) .rawAccess a
        (copy id addr other srcId srcAddr n a)) ∧
    ∀ (s : Store) (dst src : Location) (n : Nat),
      CopyEnds n (s.covers dst n && s.covers src n)
        (fun t =>
          Moved (s.arena src.segment) src.segment.index src.address n dst.segment.index dst.address
            (s.arena dst.segment) (t.arena dst.segment) ∧
          t.messages.size = s.messages.size ∧
          ∀ m, m ≠ dst.segment.message → t.message m = s.message m)
        (.fault .rawAccess) s (copyBytes dst src n s) := by
  refine ⟨copy_ends, ?_⟩
  intro s dst src n
  have hself := withArena_self s dst.segment.message
  have hends := copy_ends (s.arena dst.segment)
    (if src.segment.message = dst.segment.message then none else some (s.arena src.segment))
    dst.segment.index dst.address src.segment.index src.address n
  rw [arena_of_source] at hends
  unfold copyBytes
  simp only [onArena_run]
  rcases hends with ⟨hn, hcopy⟩ | ⟨hn, hc, b, hcopy, hmoved⟩ | ⟨hn, hc, hcopy⟩
  · rw [← arena, hcopy]
    exact .inl ⟨hn, congrArg (EStateM.Result.ok ()) hself⟩
  · rw [← arena, hcopy]
    have hm : dst.segment.message < s.messages.size :=
      lt_size_of_covers (l := dst) (Bool.and_eq_true_iff.mp hc).1
    have harena : (s.withArena dst.segment.message b).arena dst.segment = b :=
      congrArg Message.arena (message_withArena_self b hm)
    refine .inr (.inl ⟨hn, hc, s.withArena dst.segment.message b, rfl, ?_, ?_, ?_⟩)
    · rwa [harena]
    · exact size_withArena s dst.segment.message b
    · intro m hne
      exact message_withArena_ne b hne
  · rw [← arena, hcopy]
    exact .inr (.inr ⟨hn, hc, congrArg (EStateM.Result.error (Abort.fault .rawAccess)) hself⟩)

example : Outcome.endsIn (Arena.copy 0 1 none 0 0 3) ⟨#[⟨⟨#[1, 2, 3, 4]⟩, 8⟩], 4, {}⟩
    (fun b => b.buffers.map Buffer.bytes == [[1, 1, 2, 3]]) = true := by decide

end SegmentedMessage
