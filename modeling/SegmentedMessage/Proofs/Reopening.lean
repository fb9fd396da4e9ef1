import SegmentedMessage.Proofs.Growth
import SegmentedMessage.Proofs.Lasting
import SegmentedMessage.Proofs.Ledger
import SegmentedMessage.Proofs.Replica

namespace SegmentedMessage

open Store

namespace Arena

def Descends : Arena → Arena → Prop :=
  Relation.ReflTransGen fun a b => ∃ g, a.Step g b

variable {a₀ a b : Arena}

theorem Descends.of_step {g : Option Grant} (h : a.Step g b) : a.Descends b :=
  .single ⟨g, h⟩

theorem Kept.descends (h : Kept a₀ a) (hb : a.Descends b) : Kept a₀ b := by
  induction hb with
  | refl => exact h
  | tail _ hstep ih =>
      obtain ⟨g, hg⟩ := hstep
      exact ih.step hg

theorem bytes?_eq_getElem? (a : Arena) (i : Nat) : a.bytes? i = a.buffers[i]? := by
  rw [bytes?, buffers, List.getElem?_map, Array.getElem?_toList]

theorem mem_buffers {bs : ByteArray} (h : bs ∈ a.buffers) :
    ∃ (i : Nat) (x : Segment), a.segments[i]? = some x ∧ x.bytes = bs := by
  obtain ⟨x, hx, rfl⟩ := List.mem_map.mp h
  obtain ⟨i, hi⟩ := List.getElem?_of_mem hx
  exact ⟨i, x, (Array.getElem?_toList ..).symm.trans hi, rfl⟩

theorem Valid.reopens (h : a.Valid) (limits : Limits) :
    ∃ b, ofBuffers a.buffers limits = .ok b ∧ b.buffers = a.buffers := by
  have haccepts : firstRefused 0 a.buffers = none := by
    refine firstRefused_eq_none.mpr fun bs hbs => ?_
    obtain ⟨i, x, hx, rfl⟩ := mem_buffers hbs
    obtain ⟨hmod, hcap, hmax⟩ := h i x hx
    simp only [accepts, Bool.and_eq_true, beq_iff_eq, decide_eq_true_eq]
    exact ⟨hmod, Nat.le_trans hcap hmax⟩
  have hopens : ∃ b, ofBuffers a.buffers limits = .ok b := by
    simp only [ofBuffers, haccepts]
    exact ⟨_, rfl⟩
  obtain ⟨b, hb⟩ := hopens
  exact ⟨b, hb, buffers_ofBuffers hb⟩

theorem length_buffers (a : Arena) : a.buffers.length = a.count := by
  rw [buffers, List.length_map, Array.length_toList, count]

end Arena

theorem Message.Opened.valid {m : Message} (h : m.Opened) : m.arena.Valid := by
  cases h with
  | created h => exact create_valid h
  | ofBuffers h => exact ofBuffers_valid h

theorem Message.Opened.count_pos {m : Message} (h : m.Opened) : 0 < m.arena.count := by
  cases h with
  | created h =>
      simp only [create] at h
      split at h
      · rename_i p arena ha
        cases h
        obtain ⟨c, _, hroom, rfl⟩ := Arena.allocate_ok ha
        have hid := (Arena.room?_eq_some hroom).1
        exact Nat.lt_of_le_of_lt (Nat.zero_le _) (lt_of_lt_of_eq hid (Arena.count_extend ..).symm)
      · cases h
  | @ofBuffers bufs opts h =>
      have hbuffers := buffers_ofBuffers h
      simp only [Message.ofBuffers] at h
      split at h
      · cases h
      · rename_i hne
        rw [← Arena.length_buffers, ← buffers, hbuffers]
        exact List.length_pos_iff.mpr fun hnil => hne (List.isEmpty_iff.mpr hnil)

namespace Store

variable {s t : Store} {m k : Nat}

section Founded

structure Founded (s : Store) : Prop where
  valid : s.Valid
  count : ∀ m, m < s.messages.size → 0 < s.count m

theorem Founded.extended {free : Location → Prop} (h : s.Founded) (he : s.Extends m free t) :
    t.Founded where
  valid := he.valid h.valid
  count k hk := by
    rw [he.size] at hk
    exact Nat.lt_of_lt_of_le (h.count k hk) (he.count_le k)

theorem Founded.sealed (h : s.Founded) (k : Nat) :
    (s.setMessage k { s.message k with isSealed := true }).Founded := by
  have harena (j : Nat) : ((s.setMessage k { s.message k with isSealed := true }).message j).arena
      = (s.message j).arena := by
    by_cases hk : k = j
    · subst hk
      rcases Nat.lt_or_ge k s.messages.size with hlt | hle
      · rw [message_setMessage_self _ hlt]
      · rw [message_of_size_le hle, message_of_size_le (by rwa [size_setMessage])]
    · rw [message_setMessage_ne _ hk]
  refine ⟨fun j => ?_, fun j hj => ?_⟩
  · rw [harena]
    exact h.valid j
  · rw [size_setMessage] at hj
    rw [Store.count, harena]
    exact h.count j hj

theorem Founded.pushed {x : Message} (h : s.Founded) (hx : x.Opened) : (s.push x).Founded := by
  refine ⟨fun j => ?_, fun j hj => ?_⟩
  · rw [message_push]
    split
    · exact hx.valid
    · exact h.valid j
  · rw [push, Array.size_push] at hj
    rw [Store.count, message_push]
    split
    · exact hx.count_pos
    · exact h.count j (by omega)

theorem founded_lasting : Lasting fun s t => s.Founded → t.Founded where
  refl _ h := h
  trans h h' hs := h' (h hs)
  paste l src s := by
    refine (outcome_paste l src s).mono (fun _ _ ht hs => hs.extended ht.1.extends_) ?_
    rintro _ t ⟨rfl, _⟩ hs
    exact hs
  allocate r n s := (allocate_extends r n s).mono (fun _ _ ht hs => hs.extended ht)
    fun _ _ ht hs => hs.extended ht
  allocateHere r n s := (allocateHere_extends r n s).mono (fun _ _ ht hs => hs.extended ht)
    fun _ _ ht hs => hs.extended ht
  sealed s k hs := hs.sealed k
  push s x hx hs := hs.pushed hx

theorem Founded.empty : Store.empty.Founded where
  valid k := by
    rw [message_of_size_le (Nat.zero_le k)]
    intro i x hx
    cases hx
  count k hk := nomatch hk

end Founded

section Descends

def Descends (m : Nat) (s t : Store) : Prop :=
  m < s.messages.size →
    m < t.messages.size ∧ (s.message m).arena.Descends (t.message m).arena

theorem Descends.of_arena (hsize : s.messages.size ≤ t.messages.size)
    (h : m < s.messages.size → (s.message m).arena.Descends (t.message m).arena) :
    Descends m s t :=
  fun hm => ⟨Nat.lt_of_lt_of_le hm hsize, h hm⟩

theorem descends_withArena {a : Arena} (h : (s.message k).arena.Descends a) :
    Descends m s (s.withArena k a) := by
  refine .of_arena (Nat.le_of_eq (size_withArena s k a).symm) fun hm => ?_
  by_cases hk : m = k
  · subst hk
    rw [message_withArena_self a hm]
    exact h
  · rw [message_withArena_ne a hk]
    exact .refl

theorem onArena_descends {ε α : Type} {abort : ε → Abort} {act : EStateM ε Arena α}
    (h : ∀ a, Outcome act a (fun _ b => a.Descends b) fun _ b => a.Descends b) :
    Respects id (Descends m) (onArena k abort act) :=
  fun s => outcome_onArena ((h (s.message k).arena).mono (fun _ _ hb => descends_withArena hb)
    fun _ _ hb => descends_withArena hb)

theorem allocate_steps (pref n : Nat) (a : Arena) :
    Outcome (Arena.allocate pref n) a (fun _ b => a.Descends b) fun _ b => a.Descends b := by
  have hstep := Arena.step_run (.allocate pref n) a
  rw [Outcome.iff_results]
  constructor
  · rintro ⟨id, addr⟩ b hb
    simp only [ArenaCall.run, hb] at hstep
    exact .of_step hstep
  · intro e b hb
    simp only [ArenaCall.run, hb] at hstep
    exact .of_step hstep

theorem allocateIn_steps (id n : Nat) (a : Arena) :
    Outcome (Arena.allocateIn id n) a (fun _ b => a.Descends b) fun _ b => a.Descends b := by
  have hstep := Arena.step_run (.allocateIn id n) a
  rw [Outcome.iff_results]
  constructor
  · intro addr? b hb
    cases addr? with
    | none =>
        simp only [ArenaCall.run, hb] at hstep
        exact .of_step hstep
    | some addr =>
        simp only [ArenaCall.run, hb] at hstep
        exact .of_step hstep
  · intro e b hb
    exact absurd hb Arena.allocateIn_error

theorem paste_steps (id addr : Nat) (src : ByteArray) (a : Arena) :
    Outcome (Arena.paste id addr src) a (fun _ b => a.Descends b) fun _ b => a.Descends b := by
  have hstep := Arena.step_paste id addr src a
  rw [Outcome.iff_results]
  constructor
  · intro _ b hb
    rw [hb] at hstep
    exact .of_step hstep
  · intro e b hb
    rw [hb] at hstep
    exact .of_step hstep

theorem whenOpen_descends {α : Type} {act : StoreM α} (h : Respects id (Descends m) act) :
    Respects id (Descends m) (whenOpen k act) :=
  fun s => outcome_whenOpen (fun _ => .of_arena (Nat.le_refl _) fun _ => .refl) fun _ => h s

theorem descends_lasting (m : Nat) : Lasting (Descends m) where
  refl _ := .of_arena (Nat.le_refl _) fun _ => .refl
  trans h h' hm := by
    obtain ⟨hmt, ht⟩ := h hm
    obtain ⟨hmu, hu⟩ := h' hmt
    exact ⟨hmu, ht.trans hu⟩
  paste l src := onArena_descends (paste_steps _ _ src)
  allocate r n := whenOpen_descends fun s =>
    (onArena_descends (allocate_steps r.index n) s).bind fun _ _ ht => Outcome.pure ht
  allocateHere r n := whenOpen_descends fun s =>
    (onArena_descends (allocateIn_steps r.index n) s).bind fun _ _ ht => Outcome.pure ht
  sealed s k := by
    refine .of_arena (Nat.le_of_eq (size_setMessage ..).symm) fun hm => ?_
    by_cases hk : k = m
    · subst hk
      rw [message_setMessage_self _ hm]
      exact .refl
    · rw [message_setMessage_ne _ hk]
      exact .refl
  push s x _ := by
    refine .of_arena ?_ fun hm => ?_
    · rw [push, Array.size_push]
      exact Nat.le_succ _
    · rw [message_push, if_neg (Nat.ne_of_lt hm)]
      exact .refl

end Descends

end Store

theorem Arena.Kept.length?_eq {a₀ a : Arena} (h : a₀.Kept a) {i : Nat} (hi : i < a₀.count) :
    a.length? i = a₀.length? i := by
  have hgiven : a₀.length? i = some (a₀.contents i).length := length?_eq_some.mpr ⟨hi, rfl⟩
  rw [hgiven, (h.given i _ hgiven).1]

theorem Arena.Kept.length_contents {a₀ a : Arena} (h : a₀.Kept a) {i : Nat} (hi : i < a₀.count) :
    (a.contents i).length = (a₀.contents i).length := by
  have hlen : a.length? i = some (a₀.contents i).length :=
    (h.length?_eq hi).trans (length?_eq_some.mpr ⟨hi, rfl⟩)
  exact (length?_eq_some.mp hlen).2.symm

namespace Store

variable {a₀ : Arena} {s t : Store} {k : Nat}

theorem le_index_of_fresh (hs : a₀.Kept (s.message k).arena) (ht : a₀.Kept (t.message k).arena)
    {l : Location} (hl : l.segment.message = k) (hfresh : ¬ s.Used l) (hused : t.Used l) :
    a₀.count ≤ l.segment.index := by
  subst hl
  refine Nat.le_of_not_lt fun hlt => hfresh ?_
  have hlen := (ht.length_contents hlt).trans (hs.length_contents hlt).symm
  exact lt_of_lt_of_eq hused hlen

theorem Allocated.le_index {r : SegmentRef} {n : Nat} {l : Location} (h : Allocated r n s l t)
    (hs : a₀.Kept (s.message r.message).arena) (ht : a₀.Kept (t.message r.message).arena)
    (hm : r.message < s.messages.size) (hn : 0 < n) : a₀.count ≤ l.segment.index := by
  refine le_index_of_fresh hs ht h.message (Nat.not_lt.mpr h.fresh) ?_
  exact used_of_extent (h.covers hm) ⟨rfl, Nat.le_refl _, Nat.lt_add_of_pos_right hn⟩

theorem kept_after {α : Type} {act : StoreM α} (hact : Respects id (Descends k) act)
    (hs : a₀.Kept (s.message k).arena) (hk : k < s.messages.size) :
    Outcome act s (fun _ t => a₀.Kept (t.message k).arena) fun _ t => a₀.Kept (t.message k).arena :=
  (hact s).mono (fun _ _ ht => hs.descends (ht hk).2) fun _ _ ht => hs.descends (ht hk).2

theorem allocate_le_index {r : SegmentRef} (hs : a₀.Kept (s.message r.message).arena)
    (hm : r.message < s.messages.size) {n : Nat} (hn : 0 < n) :
    Outcome (allocate r n) s (fun l _ => a₀.count ≤ l.segment.index) fun _ _ => True := by
  have hkept := kept_after ((descends_lasting r.message).allocate r n) hs hm
  refine ((outcome_allocate r n s).and hkept).mono ?_ fun _ _ _ => trivial
  rintro l t ⟨h, ht⟩
  exact h.le_index hs ht hm hn

theorem allocateHere_le_index {r : SegmentRef} (hs : a₀.Kept (s.message r.message).arena)
    (hm : r.message < s.messages.size) {n : Nat} (hn : 0 < n) :
    Outcome (allocateHere r n) s (fun l? _ => ∀ l, l? = some l → a₀.count ≤ l.segment.index)
      fun _ _ => True := by
  have hkept := kept_after ((descends_lasting r.message).allocateHere r n) hs hm
  refine ((outcome_allocateHere r n s).and hkept).mono ?_ fun _ _ _ => trivial
  rintro l? t ⟨⟨rfl, _⟩ | ⟨l, rfl, _, h⟩, ht⟩ l' hl'
  · cases hl'
  · cases hl'
    exact h.le_index hs ht hm hn

end Store

/-- An object of message `m`, unless it is empty, lies in segment `n` or after it. -/
def Pointer.LiesFrom (m n : Nat) (p : Pointer) : Prop :=
  ∀ l, p.loc? = some l → l.segment.message = m → 0 < p.words → n ≤ l.segment.index

section Created

variable {a₀ : Arena} {s : Store} {k : Nat}

theorem StructView.allocate_liesFrom (hs : a₀.Kept (s.message k).arena)
    (hk : k < s.messages.size) (r : SegmentRef) (shape : StructShape) :
    Outcome (StructView.allocate r shape) s (fun v _ => (Pointer.struct v).LiesFrom k a₀.count)
      fun _ _ => True := by
  have hkept := kept_after ((descends_lasting k).allocateStruct r shape) hs hk
  refine ((StructView.outcome_allocate r shape s).and hkept).mono ?_ fun _ _ _ => trivial
  rintro v t ⟨⟨l, rfl, _, h⟩, ht⟩ l' hl' hm hwords
  cases hl'
  obtain rfl := h.message.symm.trans hm
  simp only [Pointer.words, StructView.shape] at hwords
  exact h.le_index hs ht hk (by omega)

theorem ListView.allocate_liesFrom (hs : a₀.Kept (s.message k).arena)
    (hk : k < s.messages.size) (r : SegmentRef) (elem : ElementKind) (len : Nat) :
    Outcome (ListView.allocate r elem len) s (fun v _ => (Pointer.list v).LiesFrom k a₀.count)
      fun _ _ => True := by
  have hkept := kept_after ((descends_lasting k).allocateList r elem len) hs hk
  refine ((ListView.outcome_allocate r elem len s).and hkept).mono ?_ fun _ _ _ => trivial
  rintro v t ⟨⟨l, rfl, hne, _, h⟩, ht⟩ l' hl' hm hwords
  cases hl'
  obtain rfl := h.message.symm.trans hm
  have hplain : (ListView.backed l len elem .empty).contentSize = elem.bytesFor len :=
    contentSize_plain hne
  have hsize : (Pointer.list (.backed l len elem .empty)).words = elem.bytesFor len / 8 := by
    rw [← hplain]
    cases elem with
    | composite => exact absurd rfl hne
    | _ => rfl
  exact h.le_index hs ht hk (by omega)

theorem ListView.allocateComposite_liesFrom (hs : a₀.Kept (s.message k).arena)
    (hk : k < s.messages.size) (r : SegmentRef) (shape : StructShape) (len : Nat) :
    Outcome (ListView.allocateComposite r shape len) s
      (fun v _ => (Pointer.list v).LiesFrom k a₀.count) fun _ _ => True := by
  have hkept := kept_after ((descends_lasting k).allocateComposite r shape len) hs hk
  refine ((ListView.outcome_allocateComposite r shape len s).and hkept).mono ?_ fun _ _ _ => trivial
  rintro v t ⟨⟨tag, u, rfl, _, _, h⟩, ht⟩ l' hl' hm _
  cases hl'
  have hr : tag.segment.message = r.message := h.allocated.message
  obtain rfl := hr.symm.trans hm
  refine le_index_of_fresh (l := tag) hs ht hr (Nat.not_lt.mpr h.allocated.fresh) ?_
  apply h.pasted.extends_.used
  exact used_of_extent (h.allocated.covers hk) ⟨rfl, Nat.le_refl _, by omega⟩

theorem Creation.run_liesFrom (hs : a₀.Kept (s.message k).arena) (hk : k < s.messages.size)
    (c : Creation) :
    Outcome c.run s (fun p _ => p.LiesFrom k a₀.count) fun _ _ => True := by
  have hnull : Pointer.null.LiesFrom k a₀.count := fun l hl => nomatch hl
  cases c with
  | message opts => exact (Outcome.any _ s).bind fun _ _ _ => Outcome.pure hnull
  | opened bufs opts => exact (Outcome.any _ s).bind fun _ _ _ => Outcome.pure hnull
  | bytes r n => exact (Outcome.any _ s).bind fun _ _ _ => Outcome.pure hnull
  | bytesHere r n => exact (Outcome.any _ s).bind fun _ _ _ => Outcome.pure hnull
  | struct r shape => exact (StructView.allocate_liesFrom hs hk r shape).fmap
  | root r shape =>
      refine Outcome.fmap ((StructView.allocate_liesFrom hs hk r shape).bind fun v t hv => ?_)
      exact (Outcome.any _ t).bind fun _ _ _ => Outcome.pure hv
  | list r elem len => exact (ListView.allocate_liesFrom hs hk r elem len).fmap
  | composite r shape len => exact (ListView.allocateComposite_liesFrom hs hk r shape len).fmap

end Created

theorem Store.Founded.reopens {s : Store} (h : s.Founded) {m : Nat} (hm : m < s.messages.size)
    (opts : List MessageOption) :
    ∃ x, openMessage (s.message m).buffers opts s = .ok s.messages.size (s.push x) ∧
      x.arena.buffers = (s.message m).arena.buffers ∧ x.arena.Kept x.arena := by
  obtain ⟨b, hb, hbuffers⟩ := (h.valid m).reopens (MessageSettings.ofOptions opts).limits
  have hne : (s.message m).arena.buffers.isEmpty = false := by
    have hcount := h.count m hm
    rw [Store.count, ← Arena.length_buffers] at hcount
    cases hnil : (s.message m).arena.buffers with
    | nil =>
        rw [hnil] at hcount
        cases hcount
    | cons bs rest => rfl
  have hopen : Message.ofBuffers (s.message m).buffers opts =
      .ok (Message.ofArena (.ofOptions opts) b) := by
    simp only [Message.ofBuffers, Message.buffers, hne, hb]
    rfl
  refine ⟨.ofArena (.ofOptions opts) b, ?_, hbuffers, (Arena.Made.ofBuffers hb).kept⟩
  rw [openMessage, hopen]
  rfl

/-- A message can be closed and opened again after any run of calls. All that is read of it stays the
same, at the same places. Its segments stay as long as they are from then on, whatever is called, and
no new object or landing pad gets room in them. -/
theorem reopening_loses_nothing {rule : Session → Call → Prop} {σ : Session}
    (hσ : Session.Reaches rule Session.empty σ) {m : Nat} (hm : m < σ.store.messages.size)
    (opts : List MessageOption) :
    ∃ k t, openMessage (σ.store.message m).buffers opts σ.store = .ok k t ∧
      (∀ q : Query, q.About m → (q.movedTo k).answer t = Pointer.movedTo k <$> q.answer σ.store) ∧
      (∀ r : Reading, r.About m → (r.movedTo k).answer t = r.answer σ.store) ∧
      ∀ {rule' : Session → Call → Prop} {views : List Pointer} {ρ : Session},
        Session.Reaches rule' ⟨t, views⟩ ρ →
          (∀ i < σ.store.count m, (ρ.store.message k).arena.length? i =
            (σ.store.message m).arena.length? i) ∧
          (∀ l, l.segment.message = k → ¬ t.Used l → ρ.store.Used l →
            σ.store.count m ≤ l.segment.index) ∧
          (∀ r n l u, r.message = k → 0 < n → (allocate r n ρ.store = .ok l u ∨
            allocateHere r n ρ.store = .ok (some l) u) → σ.store.count m ≤ l.segment.index) ∧
          ∀ (c : Creation) p u, c.run ρ.store = .ok p u → p.LiesFrom k (σ.store.count m) := by
  have hfounded := founded_lasting.reaches hσ Founded.empty
  obtain ⟨x, hopen, hbuffers, hkept⟩ := hfounded.reopens hm opts
  have hmessage : (σ.store.push x).message σ.store.messages.size = x := by
    rw [message_push, if_pos rfl]
  have hbytes (i : Nat) : x.arena.bytes? i = (σ.store.message m).arena.bytes? i := by
    rw [Arena.bytes?_eq_getElem?, Arena.bytes?_eq_getElem?, hbuffers]
  have hreplica : Replica m σ.store.messages.size σ.store (σ.store.push x) := by
    intro i
    rw [hmessage, hbytes]
  refine ⟨_, _, hopen, fun q hq => q.answer_moved hreplica hq,
    fun r hr => r.answer_moved hreplica hr, fun {rule' views ρ} hρ => ?_⟩
  have hlt : σ.store.messages.size < (σ.store.push x).messages.size := by
    rw [push, Array.size_push]
    exact Nat.lt_succ_self _
  obtain ⟨hk, hdescends⟩ := (descends_lasting σ.store.messages.size).reaches hρ hlt
  rw [hmessage] at hdescends
  have hρkept := hkept.descends hdescends
  have hstart : x.arena.Kept ((σ.store.push x).message σ.store.messages.size).arena := by
    rw [hmessage]
    exact hkept
  have hcount : σ.store.count m = x.arena.count := (Arena.count_of_bytes hbytes).symm
  rw [hcount]
  refine ⟨fun i hi => ?_, fun l hl hfresh hused => le_index_of_fresh hstart hρkept hl hfresh hused,
    ?_, fun c p u hrun => (c.run_liesFrom hρkept hk).of_ok hrun⟩
  · rw [hρkept.length?_eq hi, Arena.length?_eq_map, Arena.length?_eq_map, hbytes]
  · intro r n l u hr hn hrun
    rw [← hr] at hρkept hk
    rcases hrun with hrun | hrun
    · exact (allocate_le_index hρkept hk hn).of_ok hrun
    · exact (allocateHere_le_index hρkept hk hn).of_ok hrun l rfl

/-- A message with a root struct is written to, sealed and reopened. Its root is what it was, and what
is allocated then comes after its one segment. -/
theorem reopening_loses_nothing_sealed :
    let ρ := ((Session.empty.after (.creation (.message []))).after
      (.creation (.root ⟨0, 0⟩ ⟨8, 1⟩))).after (.edit (.write ⟨⟨0, 0⟩, 8⟩ 4 77))
    let σ := ρ.after (.edit (.sealMessage 0))
    (σ.store.root 0).toOption = some (.struct (.backed ⟨⟨0, 0⟩, 8⟩ ⟨8, 1⟩ false)) ∧
      ∃ k t, openMessage (σ.store.message 0).buffers [] σ.store = .ok k t ∧
        t.root k = Pointer.movedTo k <$> σ.store.root 0 ∧
        ∀ l u, allocate ⟨k, 0⟩ 8 t = .ok l u → 1 ≤ l.segment.index := by
  intro ρ σ
  have hwritten : Session.Reaches (fun _ _ => True) Session.empty ρ :=
    .tail (.tail (.single ⟨.creation (.message []), trivial, rfl⟩)
      ⟨.creation (.root ⟨0, 0⟩ ⟨8, 1⟩), trivial, rfl⟩)
      ⟨.edit (.write ⟨⟨0, 0⟩, 8⟩ 4 77), trivial, rfl⟩
  have hσ : Session.Reaches (fun _ _ => True) Session.empty σ :=
    hwritten.tail ⟨.edit (.sealMessage 0), trivial, rfl⟩
  have hm : 0 < σ.store.messages.size := by decide +kernel
  obtain ⟨k, t, hopen, hquery, _, hlater⟩ := reopening_loses_nothing hσ hm []
  obtain ⟨_, _, hnew, _⟩ := @hlater (fun _ _ => True) [] _ .refl
  refine ⟨by decide +kernel, k, t, hopen, hquery (.root 0) rfl, fun l u hrun => ?_⟩
  have hcount : σ.store.count 0 = 1 := by decide +kernel
  have hle := hnew ⟨k, 0⟩ 8 l u rfl (by decide) (.inl hrun)
  rwa [hcount] at hle

end SegmentedMessage
