import SegmentedMessage.Copy.Deep
import SegmentedMessage.Proofs.Region

namespace SegmentedMessage

open Store

namespace Store

def total (s : Store) (m : Nat) : Nat :=
  (s.message m).arena.allocated

theorem total_withArena (s : Store) (k m : Nat) (a : Arena) :
    (s.withArena k a).total m = s.total m ∨
      k = m ∧ (s.withArena k a).total m = a.allocated := by
  by_cases hk : m = k
  · subst hk
    by_cases hm : m < s.messages.size
    · exact .inr ⟨rfl, by rw [total, message_withArena_self a hm]⟩
    · exact .inl (by rw [withArena_of_size_le a (Nat.le_of_not_lt hm)])
  · exact .inl (by rw [total, message_withArena_ne a hk, total])

theorem total_withArena_eq {s : Store} {k : Nat} {a : Arena}
    (h : a.allocated = (s.message k).arena.allocated) (m : Nat) :
    (s.withArena k a).total m = s.total m := by
  rcases s.total_withArena k m a with ht | ⟨rfl, ht⟩
  · exact ht
  · rw [ht, h, total]

theorem total_withArena_le {s : Store} {k n : Nat} {a : Arena}
    (h : a.allocated = (s.message k).arena.allocated + n) (m : Nat) :
    (s.withArena k a).total m ≤ s.total m + n := by
  rcases s.total_withArena k m a with ht | ⟨rfl, ht⟩
  · omega
  · exact Nat.le_of_eq (ht.trans h)

end Store

section Steady

variable {α β : Type}

/-- However the run ends, no message has handed out more bytes than before. -/
def Steady (act : StoreM α) : Prop :=
  ∀ s, Outcome act s (fun _ t => ∀ m, t.total m = s.total m) fun _ t => ∀ m, t.total m = s.total m

namespace Steady

theorem pure (a : α) : Steady (Pure.pure a : StoreM α) :=
  fun _ => Outcome.pure fun _ => rfl

theorem throw (e : Abort) : Steady (MonadExcept.throw e : StoreM α) :=
  fun _ => Outcome.throw fun _ => rfl

theorem bind {act : StoreM α} {f : α → StoreM β} (h : Steady act) (hf : ∀ a, Steady (f a)) :
    Steady (act >>= f) := by
  intro s
  refine Outcome.bind (h s) fun a t ht => ?_
  exact (hf a t).mono (fun _ _ hu m => (hu m).trans (ht m)) fun _ _ hu m => (hu m).trans (ht m)

theorem within {act : StoreM α} {s t : Store} {n : Nat} (h : Steady act)
    (ht : ∀ m, t.total m ≤ s.total m + n) :
    Outcome act t (fun _ u => ∀ m, u.total m ≤ s.total m + n)
      fun _ u => ∀ m, u.total m ≤ s.total m + n := by
  refine (h t).mono (fun _ u hu m => ?_) fun _ u hu m => ?_
  · rw [hu m]
    exact ht m
  · rw [hu m]
    exact ht m

theorem query (f : Store → Except Abort α) : Steady (Store.query f) :=
  fun _ => outcome_query (fun _ _ _ => rfl) fun _ _ _ => rfl

theorem paste (l : Location) (src : ByteArray) : Steady (Store.paste l src) := by
  intro s
  apply outcome_onArena
  rw [Outcome.iff_results]
  constructor
  · rintro _ b hb
    obtain ⟨_, rfl⟩ := Arena.paste_ok.mp hb
    exact total_withArena_eq rfl
  · intro e b hb
    obtain ⟨_, _, rfl⟩ := Arena.paste_error.mp hb
    exact total_withArena_eq rfl

theorem writeWord (l : Location) (w : PointerWord) : Steady (Store.writeWord l w) :=
  paste l _

theorem clear (l : Location) (n : Nat) : Steady (Store.clear l n) := by
  unfold Store.clear
  split
  · rcases Nat.eq_zero_or_pos n with rfl | hn
    · intro s
      rw [Arena.clear_zero]
      exact outcome_onArena (Outcome.pure (total_withArena_eq rfl))
    · rw [Arena.clear_of_pos hn]
      exact paste l _
  · exact throw _

theorem copyBytes (dst src : Location) (n : Nat) : Steady (Store.copyBytes dst src n) := by
  rw [Store.copyBytes_eq]
  split
  · exact pure ()
  · exact (query _).bind fun _ => paste dst _

theorem pastePrefix (dst : Location) (src : Option Location) (n : Nat) :
    Steady (Copy.pastePrefix dst src n) := by
  cases src with
  | none => exact pure ()
  | some loc => exact copyBytes dst loc n

theorem fillData (dst : Location) (space : Nat) (src : StructView) :
    Steady (Copy.fillData dst space src) :=
  (pastePrefix dst src.loc? _).bind fun _ => clear _ _

theorem fillContent (dst src : ListView) : Steady (Copy.fillContent dst src) := by
  cases dst with
  | absent => exact pure ()
  | backed loc len elem shape => exact pastePrefix loc src.loc? _

end Steady

end Steady

theorem Arena.allocated_of_allocate {a b : Arena} {pref n : Nat} {p : Nat × Nat}
    (h : allocate pref n a = .ok p b) : b.allocated = a.allocated + Layout.roundUp n := by
  obtain ⟨c, hc, _, rfl⟩ := allocate_ok h
  rcases hc with rfl | ⟨cap, _, rfl⟩
  · rfl
  · rfl

namespace Store

/-- The message can give no more: it is sealed, or its ceiling would be passed. -/
inductive Refused (s : Store) (m : Nat) : Abort → Prop where
  | isSealed (h : (s.message m).isSealed = true) : Refused s m (.failure .isSealed)
  | exhausted {need limit : Nat} (h : limit < need) :
      Refused s m (.failure (.arena (.exhausted need limit)))

theorem refused_of_request {s : Store} {m n : Nat} {f : ArenaFailure} (hn : n ≤ largestSegment)
    (h : (s.message m).arena.request n = .error f) : s.Refused m (.failure (.arena f)) := by
  have hround : Layout.roundUp n ≤ largestSegment := by
    simp only [Layout.roundUp, largestSegment] at hn ⊢
    omega
  have hfits : Layout.roundUp? n = some (Layout.roundUp n) :=
    Layout.roundUp?_eq_some.mpr ⟨by rw [largestSegment] at hn; omega, rfl⟩
  simp only [Arena.request, hfits, if_neg (Nat.not_lt.mpr hround)] at h
  split at h
  · rename_i hover
    cases h
    exact .exhausted hover
  · cases h

theorem allocate_total (r : SegmentRef) (n : Nat) (s : Store) :
    Outcome (allocate r n) s (fun _ t => ∀ m, t.total m ≤ s.total m + Layout.roundUp n)
      fun e t => t = s ∧ (n ≤ largestSegment → s.Refused r.message e) := by
  apply outcome_whenOpen
  · exact fun h => ⟨rfl, fun _ => .isSealed h⟩
  · intro _
    refine Outcome.bind (P := fun _ t => ∀ m, t.total m ≤ s.total m + Layout.roundUp n) ?_
      fun _ _ ht => Outcome.pure ht
    apply outcome_onArena
    rw [Outcome.iff_results]
    constructor
    · exact fun p b hb => total_withArena_le (Arena.allocated_of_allocate hb)
    · intro e b hb
      obtain ⟨hr, rfl⟩ := Arena.allocate_error hb
      exact ⟨withArena_self s _, fun hn => refused_of_request hn hr⟩

theorem allocateHere_total (r : SegmentRef) (n : Nat) (s : Store) :
    Outcome (allocateHere r n) s
      (fun l? t => (l? = none → t = s) ∧ ∀ m, t.total m ≤ s.total m + Layout.roundUp n)
      fun e t => t = s ∧ s.Refused r.message e := by
  apply outcome_whenOpen
  · exact fun h => ⟨rfl, .isSealed h⟩
  · intro _
    refine Outcome.bind (P := fun k? t => (k? = none → t = s) ∧
      ∀ m, t.total m ≤ s.total m + Layout.roundUp n) ?_ ?_
    · apply outcome_onArena
      rw [Outcome.iff_results]
      constructor
      · intro k? b hb
        rcases Arena.allocateIn_ok hb with ⟨rfl, rfl⟩ | ⟨k, rfl, _, rfl⟩
        · rw [withArena_self]
          exact ⟨fun _ => rfl, fun _ => Nat.le_add_right _ _⟩
        · exact ⟨by rintro ⟨⟩, total_withArena_le rfl⟩
      · exact fun e b hb => absurd hb Arena.allocateIn_error
    · rintro (_ | k) t ⟨hnone, ht⟩
      · exact Outcome.pure ⟨fun _ => hnone rfl, ht⟩
      · exact Outcome.pure ⟨by rintro ⟨⟩, ht⟩

section Links

variable {slot target pad : Location} {w : PointerWord} {s t : Store}

theorem linkNear_steady (slot target : Location) (w : PointerWord) :
    Steady (linkNear slot target w) :=
  .writeWord slot _

theorem linkSingle_steady (slot pad target : Location) (w : PointerWord) :
    Steady (linkSingle slot pad target w) :=
  (linkNear_steady pad target w).bind fun _ => .writeWord slot _

theorem linkDouble_total (slot target : Location) (w : PointerWord) (s : Store) :
    Outcome (linkDouble slot target w) s (fun _ t => ∀ m, t.total m ≤ s.total m + 16)
      fun _ t => ∀ m, t.total m ≤ s.total m + 16 := by
  refine Outcome.bind_of (allocate_total slot.segment 16 s) ?_ fun pad t ht => ?_
  · rintro _ t ⟨rfl, _⟩ m
    exact Nat.le_add_right _ _
  · refine Steady.within (.bind (.writeWord pad _) fun _ => ?_) ht
    exact .bind (.writeWord (pad.shift 8) _) fun _ => .writeWord slot _

theorem link_total (slot target : Location) (w : PointerWord) (s : Store) :
    Outcome (link slot target w) s (fun _ t => ∀ m, t.total m ≤ s.total m + 16)
      fun _ t => ∀ m, t.total m ≤ s.total m + 16 := by
  unfold link
  split
  · exact (linkNear_steady slot target w).within fun m => Nat.le_add_right _ _
  · refine Outcome.bind_of (allocateHere_total target.segment 8 s) ?_ ?_
    · rintro _ t ⟨rfl, _⟩ m
      exact Nat.le_add_right _ _
    · rintro (_ | pad) t ⟨hnone, ht⟩
      · rw [hnone rfl]
        exact linkDouble_total slot target w s
      · exact (linkSingle_steady slot pad target w).within fun m =>
          Nat.le_trans (ht m) (Nat.add_le_add_left (by decide) _)

theorem linkList_total (slot : Location) (v : ListView) (s : Store) :
    Outcome (linkList slot v) s (fun _ t => ∀ m, t.total m ≤ s.total m + 16)
      fun _ t => ∀ m, t.total m ≤ s.total m + 16 := by
  unfold linkList
  split
  · split
    · exact link_total slot _ _ s
    · exact Outcome.throw fun m => Nat.le_add_right _ _
  · exact (Steady.writeWord slot .null).within fun m => Nat.le_add_right _ _

theorem writeWord_succeeds {l : Location} (hc : s.covers l 8 = true) (w : PointerWord) :
    Outcome (writeWord l w) s (fun _ t => s.Retains t) fun _ _ => False := by
  refine (outcome_writeWord l w s).mono (fun _ _ ht => ht.1.extends_.retains) ?_
  rintro _ _ ⟨_, _, hn⟩
  rw [hc] at hn
  cases hn

theorem linkSingle_succeeds (target : Location) (w : PointerWord) (hp : s.covers pad 8 = true)
    (hs : s.covers slot 8 = true) :
    Outcome (linkSingle slot pad target w) s (fun _ _ => True) fun _ _ => False := by
  refine Outcome.bind (writeWord_succeeds hp _) fun _ t ht => ?_
  exact (writeWord_succeeds (ht.covers hs) _).mono (fun _ _ _ => trivial) fun _ _ h => h

theorem linkDouble_refused (target : Location) (w : PointerWord) (hs : s.covers slot 8 = true) :
    Outcome (linkDouble slot target w) s (fun _ _ => True)
      fun e t => t = s ∧ s.Refused slot.segment.message e := by
  have hpad := (outcome_allocate slot.segment 16 s).and (allocate_total slot.segment 16 s)
  refine Outcome.bind_of hpad (fun _ _ he => ⟨he.1.1, he.2.2 (by decide)⟩) ?_
  rintro pad t ⟨ht, _⟩
  have hcov := ht.covers (lt_size_of_covers hs)
  have hfirst : t.covers pad 8 = true := covers_take hcov (by omega)
  have hsecond : t.covers (pad.shift 8) 8 = true := covers_shift hcov (Nat.le_refl 16)
  have hslot := ht.extends_.covers hs
  refine Outcome.bind_of (writeWord_succeeds hfirst _) (fun _ _ h => h.elim) fun _ u hu => ?_
  refine Outcome.bind_of (writeWord_succeeds (hu.covers hsecond) _) (fun _ _ h => h.elim)
    fun _ v hv => ?_
  exact (writeWord_succeeds (hv.covers (hu.covers hslot)) _).mono (fun _ _ _ => trivial)
    fun _ _ h => h.elim

theorem link_refused {target : Location} (w : PointerWord) (hs : s.covers slot 8 = true)
    (hm : target.segment.message = slot.segment.message) :
    Outcome (link slot target w) s (fun _ _ => True)
      fun e t => t = s ∧ s.Refused slot.segment.message e := by
  unfold link
  split
  · exact (writeWord_succeeds hs _).mono (fun _ _ _ => trivial) fun _ _ h => h.elim
  · have hpad := (outcome_allocateHere target.segment 8 s).and
      (allocateHere_total target.segment 8 s)
    rw [hm] at hpad
    refine Outcome.bind_of hpad (fun _ _ he => he.2) ?_
    rintro pad? t ⟨⟨rfl, rfl⟩ | ⟨pad, rfl, _, ht⟩, _⟩
    · exact linkDouble_refused target w hs
    · have hsize : target.segment.message < s.messages.size := by
        rw [hm]
        exact lt_size_of_covers hs
      exact (linkSingle_succeeds target w (ht.covers hsize) (ht.extends_.covers hs)).mono
        (fun _ _ h => h) fun _ _ h => h.elim

end Links

end Store

theorem ListView.allocate_total (r : SegmentRef) (elem : ElementKind) (len : Nat) (s : Store) :
    Outcome (ListView.allocate r elem len) s
      (fun _ t => ∀ m, t.total m ≤ s.total m + elem.bytesFor len)
      fun e t => t = s ∧ (elem ≠ .composite → len ≤ longestList →
        elem.bytesFor len ≤ largestSegment → s.Refused r.message e) := by
  unfold ListView.allocate
  split
  · rename_i hcomp
    exact Outcome.throw ⟨rfl, fun hne => absurd hcomp hne⟩
  · split
    · rename_i hlong
      refine Outcome.throw ⟨rfl, fun _ hlen hsize => ?_⟩
      rw [largestSegment] at hsize
      omega
    · have h := Store.allocate_total r (elem.bytesFor len) s
      rw [Layout.roundUp_of_aligned (elem.bytesFor_mod len)] at h
      exact Outcome.map (h.mono (fun _ _ ht => ht) fun _ _ he => ⟨he.1, fun _ _ => he.2⟩)
        fun _ _ ht => ht

theorem ListView.allocateComposite_total {shape : StructShape} (hr : shape.Regular) (r : SegmentRef)
    (len : Nat) (s : Store) :
    Outcome (ListView.allocateComposite r shape len) s
      (fun _ t => ∀ m, t.total m ≤ s.total m + (8 + len * shape.bytes))
      fun e t => (∀ m, t.total m ≤ s.total m + (8 + len * shape.bytes)) ∧
        (r.message < s.messages.size → len ≤ longestList → 8 + len * shape.bytes ≤ largestSegment →
          s.Refused r.message e) := by
  have hbytes := hr.composite_bytes len
  have hround : Layout.roundUp (8 + len * shape.bytes) = 8 + len * shape.bytes := by
    rw [← hbytes]
    exact Layout.roundUp_of_aligned (Nat.mul_mod_left _ _)
  unfold ListView.allocateComposite
  rw [hr.roundUp_eq]
  split
  · rename_i henc
    rw [(StructShape.isEncodable_iff shape).mpr hr.2] at henc
    cases henc
  · split
    · rename_i hfits
      refine Outcome.throw ⟨fun m => Nat.le_add_right _ _, fun _ hlen hsize => ?_⟩
      simp only [compositeFits, Bool.not_eq_true', decide_eq_false_iff_not] at hfits
      simp only [largestSegment, longestList] at hfits hsize hlen
      omega
    · unfold ListView.allocateTagged
      rw [hbytes]
      have halloc := (Store.outcome_allocate r (8 + len * shape.bytes) s).and
        (Store.allocate_total r (8 + len * shape.bytes) s)
      rw [hround] at halloc
      refine Outcome.bind_of halloc ?_ ?_
      · rintro _ t ⟨_, rfl, he⟩
        exact ⟨fun m => Nat.le_add_right _ _, fun _ _ => he⟩
      · rintro tag t ⟨ht, htotal⟩
        have hwrite := (outcome_writeWord tag (.ofTag len shape) t).and
          ((Steady.writeWord tag (.ofTag len shape)).within htotal)
        refine Outcome.bind_of hwrite ?_ fun _ u hu => Outcome.pure hu.2
        rintro e u ⟨⟨_, _, hn⟩, hu⟩
        refine ⟨hu, fun hm => ?_⟩
        rw [covers_take (ht.covers hm) (by omega)] at hn
        cases hn

theorem outcome_spend_exact (words : Nat) (st : CopyState) :
    Outcome (spend words) st
      (fun _ t => t.store = st.store ∧ st.budget = t.budget + max words 1)
      fun e t => t.store = st.store ∧ e = .failure .overBudget ∧ st.budget < max words 1 := by
  unfold Outcome spend
  by_cases h : max words 1 ≤ st.budget
  · simp only [if_pos h]
    exact ⟨trivial, by omega⟩
  · simp only [if_neg h]
    exact ⟨trivial, trivial, by omega⟩

end SegmentedMessage
