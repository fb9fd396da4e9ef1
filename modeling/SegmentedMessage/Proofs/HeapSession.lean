import SegmentedMessage.Proofs.HeapCall

namespace SegmentedMessage

open Store Heap

theorem Store.Retains.numbered {s t : Store} {m : Nat} (h : s.Retains t) (ht : t.Numbered m) :
    s.Numbered m := by
  refine Nat.le_trans (Nat.le_of_not_lt fun hlt => ?_) ht
  have hs : s.covers ⟨⟨m, t.count m⟩, 0⟩ 0 = true := covers_iff.mpr ⟨hlt, Nat.zero_le _⟩
  exact absurd (covers_iff.mp (h.covers hs)).1 (Nat.lt_irrefl _)

theorem Pointer.Inside.message_lt {p : Pointer} {s : Store} (h : p.Inside s) {l : Location}
    (hl : p.loc? = some l) : l.segment.message < s.messages.size := by
  cases p with
  | struct v => exact lt_size_of_covers (StructView.Inside.data h hl)
  | list v => exact lt_size_of_covers (ListView.Inside.content h hl)
  | _ => cases hl

namespace Session

def Types (m : Nat) (σ : Session) (c : Call) : Prop :=
  σ.Allows c ∧ c.raw? ≠ some m

theorem Reaches.allowed {m : Nat} {σ τ : Session} (h : Reaches (Types m) σ τ) :
    Reaches Allows σ τ := by
  refine Relation.ReflTransGen.mono ?_ _ _ h
  rintro _ _ ⟨c, hc, hτ⟩
  exact ⟨c, hc.1, hτ⟩

end Session

namespace Heap

open Session

variable {H : Heap} {m : Nat} {σ τ : Session}

structure Houses (H : Heap) (m : Nat) (σ : Session) : Prop where
  wellFormed : H.WellFormed m σ.store
  known : ∀ p ∈ σ.views, H.Known m σ.store p

theorem Houses.holds {p : Pointer} (h : H.Houses m σ) (hp : σ.Holds p) : H.Known m σ.store p := by
  rcases hp with habsent | hview
  · exact .absent habsent
  · exact h.known p hview

theorem Houses.after {c : Call} (h : H.Houses m σ) (hs : σ.Safe) (hc : Types m σ c)
    (hids : (σ.after c).store.Numbered m) : ∃ new : Heap, Houses (new ++ H) m (σ.after c) := by
  have hret := after_retains hs hc.1
  have hcall := call_gives h.wellFormed (fun _ hp => h.holds hp) hc.1 hc.2
  unfold Session.after at hids hret ⊢
  split at hids
  · rename_i p t hr
    simp only [hr] at hret ⊢
    obtain ⟨new, hnew, hp⟩ := hcall.of_ok hr hids
    refine ⟨new, hnew, fun q hq => ?_⟩
    rcases List.mem_cons.mp hq with rfl | hq
    · exact hp
    · exact (h.known q hq).mono hret
  · rename_i e t hr
    simp only [hr] at hret ⊢
    obtain ⟨new, hnew⟩ := hcall.of_error hr hids
    exact ⟨new, hnew, fun q hq => (h.known q hq).mono hret⟩

theorem Houses.reaches (h : H.Houses m σ) (hs : σ.Safe) (hτ : Reaches (Types m) σ τ)
    (hids : τ.store.Numbered m) : ∃ new : Heap, Houses (new ++ H) m τ := by
  induction hτ with
  | refl => exact ⟨[], h⟩
  | tail hreach hstep ih =>
      obtain ⟨c, hc, rfl⟩ := hstep
      -- segments are never given back, so ids that suffice now have sufficed all along
      have hsafe := (Reaches.allowed hreach).safe hs
      obtain ⟨new, hnew⟩ := ih ((after_retains hsafe hc.1).numbered hids)
      obtain ⟨more, hmore⟩ := hnew.after hsafe hc hids
      exact ⟨more ++ new, by rwa [List.append_assoc]⟩

end Heap

theorem Message.create_contents {opts : List MessageOption} {x : Message}
    (h : Message.create opts = .ok x) : x.arena.count = 1 ∧
      ∀ i, x.arena.contents i = if i = 0 then List.replicate 8 0 else [] := by
  simp only [Message.create] at h
  split at h
  · rename_i p arena ha
    cases h
    obtain ⟨c, hc, hroom, rfl⟩ := Arena.allocate_ok ha
    obtain ⟨hid, _, _⟩ := Arena.room?_eq_some hroom
    rcases hc with rfl | ⟨cap, _, rfl⟩
    · exact absurd hid (Nat.not_lt_zero _)
    · have hcount : ((Arena.empty (MessageSettings.ofOptions opts).limits).openSegment cap).count
          = 1 := Arena.count_openSegment _ cap
      obtain ⟨i, k⟩ := p
      obtain rfl : i = 0 := by
        rw [hcount] at hid
        exact Nat.lt_one_iff.mp hid
      refine ⟨(Arena.count_extend _ _ _).trans hcount, fun i => ?_⟩
      change ((Arena.openSegment _ cap).extend 0 8).contents i = _
      rw [Arena.contents_extend hid, Arena.contents_openSegment, Arena.contents_of_count_le]
      · rfl
      · exact Nat.zero_le i
  · cases h

namespace Heap

variable {H : Heap} {m : Nat} {σ : Session}

theorem wellFormed_push {x : Message} {s : Store} (hv : (s.push x).Valid) (hc : x.arena.count = 1)
    (hb : ∀ i, x.arena.contents i = if i = 0 then List.replicate 8 0 else []) :
    Heap.WellFormed [⟨rootSlot s.messages.size, .root⟩] s.messages.size (s.push x) := by
  have hmessage : (s.push x).message s.messages.size = x := by rw [message_push, if_pos rfl]
  have hcontents (r : SegmentRef) (hr : r.message = s.messages.size) :
      (s.push x).contents r = if r.index = 0 then List.replicate 8 0 else [] := by
    rw [Store.contents, Store.arena, hr, hmessage, hb]
  have hroot : (s.push x).contents (rootSlot s.messages.size).segment = List.replicate 8 0 :=
    hcontents _ rfl
  have hcov : (s.push x).covers (rootSlot s.messages.size) 8 = true := by
    rw [covers_iff, hroot, Store.count]
    change 0 < ((s.push x).message s.messages.size).arena.count ∧ _
    rw [hmessage, hc]
    exact ⟨Nat.one_pos, Nat.le_refl _⟩
  refine ⟨hv, List.pairwise_singleton _ _, ?_, ?_, List.mem_singleton_self _, ?_⟩
  · intro l hl
    constructor
    · intro hlt
      rw [Used, hcontents _ hl] at hlt
      split at hlt
      · rename_i hi
        exact ⟨_, List.mem_singleton_self _, SegmentRef.eq_iff.mpr ⟨hl, hi⟩, Nat.zero_le _, hlt⟩
      · exact absurd hlt (Nat.not_lt_zero _)
    · rintro ⟨a, ha, hseg, _, hhi⟩
      obtain rfl := List.mem_singleton.mp ha
      have hsegment : l.segment = (rootSlot s.messages.size).segment := hseg
      rw [Used, hsegment, hroot]
      exact hhi
  · intro a ha
    obtain rfl := List.mem_singleton.mp ha
    exact ⟨rfl, rfl, hcov, trivial, trivial⟩
  · rintro slot ⟨a, ha, hslot⟩
    obtain rfl := List.mem_singleton.mp ha
    obtain rfl : slot = rootSlot s.messages.size := hslot
    refine .null rfl hcov ?_
    refine wordAt_of_zeros (l := rootSlot s.messages.size) (n := 8) ?_ rfl (Nat.le_refl _) (Nat.le_refl _)
    rw [range, hroot]
    rfl

theorem wellFormed_newMessage {opts : List MessageOption} {s t : Store} (hv : s.Valid)
    (h : newMessage opts s = .ok m t) :
    m = s.messages.size ∧ s.Retains t ∧ Heap.WellFormed [⟨rootSlot m, .root⟩] m t := by
  unfold newMessage addOrFail at h
  cases hx : Message.create opts with
  | error e =>
      rw [hx] at h
      cases h
  | ok x =>
      rw [hx] at h
      cases h
      have hret := retains_push s (Message.create_valid hx)
      obtain ⟨hc, hb⟩ := Message.create_contents hx
      exact ⟨rfl, hret, wellFormed_push (hret.valid hv) hc hb⟩

theorem newMessage_houses {opts : List MessageOption} {t : Store} (hs : σ.Safe)
    (h : newMessage opts σ.store = .ok m t) :
    Session.Safe ⟨t, σ.views⟩ ∧ Houses [⟨rootSlot m, .root⟩] m ⟨t, σ.views⟩ := by
  obtain ⟨rfl, hret, hroot⟩ := wellFormed_newMessage hs.valid h
  have hinside (p : Pointer) (hp : p ∈ σ.views) : p.Inside t := (hs.inside p hp).retained hret
  refine ⟨⟨hret.valid hs.valid, hinside⟩, hroot, fun p hp => ?_⟩
  refine .foreign (hinside p hp) fun l hl => ?_
  exact Nat.ne_of_lt ((hs.inside p hp).message_lt hl)

/-- The blocks of the heap are what message `m` has been allocated for, and whole blocks are all that
its slots and its views show. -/
structure Tiles (H : Heap) (m : Nat) (σ : Session) : Prop where
  apart : H.Pairwise fun a b => a.region.Apart b.region
  used : ∀ l, l.segment.message = m → (σ.store.Used l ↔ ∃ a ∈ H, a.region.Has l)
  sound : ∀ a ∈ H, a.Sound m σ.store
  root : ⟨rootSlot m, .root⟩ ∈ H
  slots : ∀ slot, H.Slot slot → ∃ p, σ.store.pointerAt slot = .ok p ∧ H.Shows p
  views : ∀ p ∈ σ.views, ∀ l, p.loc? = some l → l.segment.message = m → H.View p

theorem Houses.tiles (h : H.Houses m σ) : H.Tiles m σ where
  apart := h.wellFormed.apart
  used := h.wellFormed.used
  sound := h.wellFormed.sound
  root := h.wellFormed.root
  slots slot hslot := by
    obtain ⟨p, hp⟩ := h.wellFormed.slots slot hslot
    exact ⟨p, hp.pointerAt, hp.shows⟩
  views p hp := (h.known p hp).view

end Heap

/-- From its first word on, a message is tiled by the blocks it has been allocated for, and no block
goes or changes. Calls may fail, and other messages may hold and do anything. Segment ids have 32
bits, so a message has no more than that many segments. -/
theorem heap_tiled {σ₀ σ : Session} (h₀ : Session.Reaches Session.Allows Session.empty σ₀)
    {opts : List MessageOption} {m : Nat} {s : Store} (hnew : newMessage opts σ₀.store = .ok m s)
    (h : Session.Reaches (Session.Types m) ⟨s, σ₀.views⟩ σ) (hids : σ.store.Numbered m) :
    ∃ H : Heap, H.Tiles m σ ∧ ∀ τ, Session.Reaches (Session.Types m) σ τ → τ.store.Numbered m →
      ∃ new : Heap, Heap.Tiles (new ++ H) m τ := by
  obtain ⟨hsafe, hfirst⟩ := Heap.newMessage_houses (h₀.safe Session.safe_empty) hnew
  obtain ⟨H, hH⟩ := hfirst.reaches hsafe h hids
  refine ⟨H ++ [⟨rootSlot m, .root⟩], hH.tiles, fun τ hτ hlater => ?_⟩
  obtain ⟨new, hgrown⟩ := hH.reaches (h.allowed.safe hsafe) hτ hlater
  exact ⟨new, hgrown.tiles⟩

/-- The root struct does not fit beside the root word, so a landing pad comes with it; then a slot of
it is assigned the struct itself. -/
theorem heap_tiled_pad :
    let s := (Session.empty.after (.creation (.message [.arena (.firstCapacity 16)]))).store
    let v := StructView.backed ⟨⟨0, 1⟩, 0⟩ ⟨8, 1⟩ false
    let σ := (Session.mk s []).after (.creation (.root ⟨0, 0⟩ ⟨8, 1⟩))
    let τ := σ.after (.edit (.assignField v 0 (.struct v)))
    newMessage [.arena (.firstCapacity 16)] Store.empty = .ok 0 s ∧ .struct v ∈ σ.views ∧
      ∃ H : Heap, H.Tiles 0 τ ∧ ∀ ρ, Session.Reaches (Session.Types 0) τ ρ → ρ.store.Numbered 0 →
        ∃ new : Heap, Heap.Tiles (new ++ H) 0 ρ := by
  intro s v σ τ
  have hnew : newMessage [.arena (.firstCapacity 16)] Session.empty.store = .ok 0 s := rfl
  have hv : .struct v ∈ σ.views := by decide +kernel
  have hsize : 0 < s.messages.size := by decide +kernel
  have hroot : Session.Types 0 ⟨s, []⟩ (.creation (.root ⟨0, 0⟩ ⟨8, 1⟩)) :=
    ⟨hsize, fun h => nomatch h⟩
  have hassign : Session.Types 0 σ (.edit (.assignField v 0 (.struct v))) :=
    ⟨⟨.inr hv, .inr hv⟩, fun h => nomatch h⟩
  have hreach : Session.Reaches (Session.Types 0) ⟨s, []⟩ τ :=
    .tail (.single ⟨_, hroot, rfl⟩) ⟨_, hassign, rfl⟩
  exact ⟨hnew, hv, heap_tiled .refl hnew hreach (by decide +kernel)⟩

end SegmentedMessage
