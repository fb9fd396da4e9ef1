import SegmentedMessage.Proofs.Safety
import SegmentedMessage.Proofs.Session

namespace SegmentedMessage

open Store Copy

theorem Arena.valid_empty (limits : Limits) : (Arena.empty limits).Valid := by
  intro i x hx
  simp [Arena.empty] at hx

theorem Arena.allocate_valid {a b : Arena} {pref n : Nat} {p : Nat × Nat}
    (h : allocate pref n a = .ok p b) (hv : a.Valid) : b.Valid := by
  obtain ⟨id, k⟩ := p
  obtain ⟨c, hc, hroom, rfl⟩ := Arena.allocate_ok h
  have hcv : c.Valid := by
    rcases hc with rfl | ⟨cap, hcap, rfl⟩
    · exact hv
    · exact (extends_openSegment hcap).valid hv
  exact (extends_extend hroom).valid hcv

theorem Arena.ofBuffers_valid {bufs : List ByteArray} {limits : Limits} {a : Arena}
    (h : ofBuffers bufs limits = .ok a) : a.Valid := by
  simp only [ofBuffers] at h
  split at h
  · cases h
  · rename_i hrefused
    cases h
    intro i x hx
    rw [List.getElem?_toArray] at hx
    obtain ⟨b, hb, rfl⟩ := List.mem_map.mp (List.mem_of_getElem? hx)
    have haccepts := Arena.firstRefused_eq_none.mp hrefused b hb
    simp only [accepts, Bool.and_eq_true, beq_iff_eq, decide_eq_true_eq] at haccepts
    exact ⟨haccepts.1, Nat.le_refl _, haccepts.2⟩

theorem Message.create_valid {opts : List MessageOption} {m : Message}
    (h : Message.create opts = .ok m) : m.arena.Valid := by
  simp only [Message.create] at h
  split at h
  · rename_i _ arena ha
    cases h
    exact Arena.allocate_valid ha (Arena.valid_empty _)
  · cases h

theorem Message.ofBuffers_valid {bufs : List ByteArray} {opts : List MessageOption} {m : Message}
    (h : Message.ofBuffers bufs opts = .ok m) : m.arena.Valid := by
  simp only [Message.ofBuffers] at h
  split at h
  · cases h
  · split at h
    · rename_i arena ha
      cases h
      exact Arena.ofBuffers_valid ha
    · cases h

namespace Store

def push (s : Store) (m : Message) : Store :=
  ⟨s.messages.push m⟩

theorem message_push (s : Store) (m : Message) (k : Nat) :
    (s.push m).message k = if k = s.messages.size then m else s.message k := by
  unfold message push
  rw [Array.getElem?_push]
  split
  · rfl
  · rfl

theorem covers_push {s : Store} (m : Message) {l : Location} {n : Nat}
    (h : s.covers l n = true) : (s.push m).covers l n = true := by
  have hne := Nat.ne_of_lt (lt_size_of_covers h)
  rw [covers, arena, message_push, if_neg hne]
  exact h

theorem retains_push (s : Store) {m : Message} (hm : m.arena.Valid) : s.Retains (s.push m) where
  size := by
    rw [push, Array.size_push]
    omega
  covers := covers_push m
  valid hv k := by
    rw [message_push]
    split
    · exact hm
    · exact hv k

theorem outcome_addOrFail {r : Except Failure Message} {s : Store}
    (h : ∀ m, r = .ok m → m.arena.Valid) :
    Outcome (addOrFail r) s (fun _ t => s.Retains t) fun e t => t = s ∧ failed e := by
  unfold Outcome addOrFail
  cases hr : r with
  | ok m => exact retains_push s (h m hr)
  | error e => exact ⟨rfl, _, rfl⟩

theorem arena_seal (s : Store) (m k : Nat) :
    ((s.setMessage m { s.message m with isSealed := true }).message k).arena
      = (s.message k).arena := by
  by_cases hk : m = k
  · subst hk
    by_cases hm : m < s.messages.size
    · rw [message_setMessage_self _ hm]
    · have hs : s.setMessage m { s.message m with isSealed := true } = s := by
        simp [setMessage, Array.setIfInBounds_eq_of_size_le (Nat.le_of_not_lt hm)]
      rw [hs]
  · rw [message_setMessage_ne _ hk]

theorem retains_seal (s : Store) (m : Nat) :
    s.Retains (s.setMessage m { s.message m with isSealed := true }) := by
  refine ⟨Nat.le_of_eq (size_setMessage s m _).symm, ?_, ?_⟩
  · intro l n h
    rw [covers, arena, arena_seal]
    exact h
  · intro hv k
    rw [arena_seal]
    exact hv k

end Store

theorem lenient_answers {r : Except Abort Pointer} {P : Pointer → Prop} (h : Answers r P failed)
    (hnull : P .null) : Answers (lenient r) P failed := by
  unfold lenient
  split
  · exact hnull
  · exact h

theorem Pointer.toStruct_inside {p : Pointer} {s : Store} (h : p.Inside s) :
    p.toStruct.Inside s := by
  cases p with
  | struct v => exact h
  | _ => trivial

namespace Session

structure Safe (σ : Session) : Prop where
  valid : σ.store.Valid
  inside : ∀ p ∈ σ.views, p.Inside σ.store

theorem Safe.holds {σ : Session} (h : σ.Safe) {p : Pointer} (hp : σ.Holds p) :
    p.Inside σ.store := by
  rcases hp with habsent | hview
  · exact Pointer.inside_of_absent habsent σ.store
  · exact h.inside p hview

theorem query_answers {σ : Session} {q : Query} (h : σ.Safe) (hq : σ.Queries q) :
    Answers (q.answer σ.store) (fun p => p.Inside σ.store) failed := by
  have at_ (l : Location) : Answers (σ.store.pointerAt l) (fun p => p.Inside σ.store) failed :=
    (σ.store.pointerAt_answers l).mono (fun _ hp => hp.inside) fun _ he => he
  cases q with
  | pointerAt slot => exact at_ slot
  | root msg => exact at_ _
  | rootView msg =>
      exact ((lenient_answers (at_ _) trivial).map fun _ hp => Pointer.toStruct_inside hp).map
        fun _ hv => hv
  | field v i => exact (v.pointerAt_answers i σ.store).mono (fun _ hp => hp.1) fun _ he => he
  | fieldOrNull v i =>
      exact lenient_answers ((v.pointerAt_answers i σ.store).mono (fun _ hp => hp.1)
        fun _ he => he) trivial
  | element v i => exact (v.pointerAt_answers i σ.store).mono (fun _ hp => hp.1) fun _ he => he
  | elementOrNull v i =>
      exact lenient_answers ((v.pointerAt_answers i σ.store).mono (fun _ hp => hp.1)
        fun _ he => he) trivial
  | member v i => exact ListView.Inside.member (h.holds hq) i

end Session

theorem Store.readAt?_answers {s : Store} {loc : Option Location} {w : Width}
    (h : ∀ l, loc = some l → s.covers l w.bytes = true) :
    Answers (s.readAt? loc w) (fun _ => True) fun _ => False := by
  cases loc with
  | none => trivial
  | some l =>
      rw [readAt?, read_eq (h l rfl)]
      trivial

theorem Store.readBitAt?_answers {s : Store} {loc : Option Location} (n : Nat)
    (h : ∀ l, loc = some l → s.covers l 1 = true) :
    Answers (s.readBitAt? loc n) (fun _ => True) fun _ => False :=
  (readAt?_answers (w := .one) h).bind fun _ _ => trivial

theorem Session.reading_answers {σ : Session} {r : Reading} (h : σ.Safe) (hr : σ.Reads r) :
    Answers (r.answer σ.store) (fun _ => True) fun _ => False := by
  cases r with
  | field v w off =>
      have hv : v.Inside σ.store := h.holds hr
      exact readAt?_answers fun l hl => hv.field hl
  | fieldBit v n =>
      have hv : v.Inside σ.store := h.holds hr
      exact (readBitAt?_answers n fun l hl => hv.field hl).map fun _ _ => trivial
  | element v w i =>
      have hv : v.Inside σ.store := h.holds hr
      exact readAt?_answers fun l hl => hv.element hl
  | elementBit v i =>
      have hv : v.Inside σ.store := h.holds hr
      exact (readBitAt?_answers i fun l hl => hv.bit hl).map fun _ _ => trivial

/-- What a call may abort with: a failure, or the fault that its own arguments earn. -/
def Call.Excuses (c : Call) (a : Abort) : Prop :=
  failed a ∨ ∃ f, c.refusal? = some f ∧ a = .fault f

def Call.Orderly {α : Type} (c : Call) (act : StoreM α) (s : Store) : Prop :=
  Outcome act s (fun _ t => s.Retains t) fun a t => s.Retains t ∧ c.Excuses a

namespace Call.Orderly

variable {α : Type} {c : Call} {act : StoreM α} {s : Store} {m : Nat}
  {own free : Location → Prop}

theorem of_sound (h : Outcome act s (fun _ t => s.Extends m own t) fun _ t => s.Extends m free t)
    (hs : Sound act s) : c.Orderly act s :=
  (h.and hs).mono (fun _ _ ht => ht.1.retains) fun _ _ ht => ⟨ht.1.retains, .inl ht.2⟩

theorem of_refusal {f : Fault} (h : c.refusal? = some f) :
    c.Orderly (throw (.fault f) : StoreM α) s :=
  Outcome.throw ⟨.refl s, .inr ⟨f, h, rfl⟩⟩

end Call.Orderly

theorem outcome_withBudget {budget : Nat} {act : CopyM Unit} {s : Store}
    {P : Unit → Store → Prop} {E : Abort → Store → Prop}
    (h : Outcome act ⟨s, budget⟩ (fun u st => P u st.store) fun e st => E e st.store) :
    Outcome (withBudget budget act) s P E := by
  unfold Outcome at h ⊢
  simp only [withBudget]
  cases hr : act ⟨s, budget⟩ with
  | ok u st => simpa only [hr] using h
  | error e st => simpa only [hr] using h

theorem writeAt?_orderly {c : Call} {loc : Option Location} {w : Width} {v : Nat} {f : Fault}
    {s : Store} (hin : ∀ l, loc = some l → s.covers l w.bytes = true)
    (hout : loc = none → c.refusal? = some f) : c.Orderly (writeAt? loc f w v) s := by
  cases loc with
  | none => exact .of_refusal (hout rfl)
  | some l => exact .of_sound (write_extends l w.bytes v s) (write_sound (hin l rfl) v)

theorem writeBitAt?_orderly {c : Call} {loc : Option Location} {n : Nat} {v : Bool} {f : Fault}
    {s : Store} (hin : ∀ l, loc = some l → s.covers l 1 = true)
    (hout : loc = none → c.refusal? = some f) : c.Orderly (writeBitAt? loc f n v) s := by
  cases loc with
  | none => exact .of_refusal (hout rfl)
  | some l =>
      have hc := hin l rfl
      refine Outcome.bind (P := fun _ t => t = s) ?_ ?_
      · refine outcome_query (fun _ _ => rfl) fun e he => ?_
        rw [read_eq hc] at he
        cases he
      · rintro b t rfl
        exact Call.Orderly.of_sound (write_extends l 1 _ t) (write_sound hc _)

theorem assign_orderly {c : Call} {slot : Location} {p : Pointer} {s : Store} (hv : s.Valid)
    (hslot : s.covers slot 8 = true) (hp : p.Inside s) : c.Orderly (assign slot p) s := by
  refine .of_sound (assign_writesOnly slot p s) ?_
  exact outcome_withBudget (pointTo_careful _ slot p ⟨s, _⟩ hv hslot hp)

theorem assignAt_orderly {c : Call} {loc : Option Location} {p : Pointer} {f : Fault} {s : Store}
    (hv : s.Valid) (hp : p.Inside s) (hin : ∀ l, loc = some l → s.covers l 8 = true)
    (hout : loc = none → c.refusal? = some f) :
    c.Orderly (match loc with
      | some slot => assign slot p
      | none => throw (.fault f)) s := by
  cases loc with
  | none => exact .of_refusal (hout rfl)
  | some l => exact assign_orderly hv (hin l rfl) hp

theorem fill_orderly {c : Call} {scope : CopyScope} {budget : Nat} {dst src : StructView}
    {s : Store} (hv : s.Valid) (hd : dst.Inside s) (hs : src.Inside s) :
    c.Orderly (withBudget budget (fill scope dst src)) s := by
  have hfill : Sound (fill scope dst src) ⟨s, budget⟩ := fill_sound scope hv hd hs
  have hsound : Sound (withBudget budget (fill scope dst src)) s := outcome_withBudget hfill
  cases dst with
  | absent => exact Outcome.pure (.refl s)
  | backed loc shape member =>
      have hconfined := fillWith_confined (follow_atomic scope.limit scope.levels) loc shape member
        src ⟨s, budget⟩
      have hextends : Outcome (withBudget budget (fill scope (.backed loc shape member) src)) s
          (fun _ t => s.Extends loc.segment.message (loc.Extent shape.bytes) t)
          fun _ t => s.Extends loc.segment.message (loc.Extent shape.bytes) t :=
        outcome_withBudget hconfined
      exact .of_sound hextends hsound

theorem assignRoot_orderly {c : Call} {msg : Nat} {p : Pointer} {s : Store} (hv : s.Valid)
    (hp : p.Inside s) : c.Orderly (assignRoot msg p) s := by
  apply outcome_whenOpen
  · intro _
    exact ⟨.refl s, .inl ⟨_, rfl⟩⟩
  · intro _
    refine Outcome.bind (P := fun _ t => t = s ∧ s.covers (rootSlot msg) 8 = true) ?_ ?_
    · have hread : Answers (s.rootInside msg) (fun _ => s.covers (rootSlot msg) 8 = true) failed := by
        refine covers_locate.bind fun l hl => ?_
        obtain ⟨hseg, hcov, haddr⟩ := hl
        exact covers_mono hcov hseg.symm (by simp only [rootSlot]; omega)
      exact outcome_query (fun u hu => ⟨rfl, hread.of_ok hu⟩)
        fun e he => ⟨.refl s, .inl (hread.of_error he)⟩
    · rintro _ t ⟨rfl, hc⟩
      exact assign_orderly hv hc hp

theorem Call.refusal?_of_none {α : Type} {loc : Option α} (h : loc = none) (f : Fault) :
    (if loc.isSome then none else some f) = some f := by
  rw [h]
  rfl

theorem Session.edit_orderly {σ : Session} {e : Edit} (h : σ.Safe) (he : σ.Edits e) :
    (Call.edit e).Orderly e.run σ.store := by
  have hv := h.valid
  cases e with
  | write l w v => exact .of_sound (write_extends l w v _) (write_sound he v)
  | writeWord l w => exact .of_sound (write_extends l 8 w.toNat _) (writeWord_sound he w)
  | clear l n => exact .of_sound (clear_extends l n _) (clear_sound hv he)
  | copyBytes dst src n =>
      exact .of_sound (copyBytes_extends dst src n _) (copyBytes_sound he.1 he.2)
  | pointTo c budget slot p =>
      refine .of_sound (outcome_withBudget (pointTo_atomic c slot p ⟨σ.store, budget⟩)) ?_
      exact outcome_withBudget (pointTo_careful c slot p ⟨σ.store, budget⟩ hv he.1 (h.holds he.2))
  | sealMessage msg => exact retains_seal σ.store msg
  | setField v w off val =>
      have hin : v.Inside σ.store := h.holds he
      exact writeAt?_orderly (fun l hl => hin.field hl) fun hl => Call.refusal?_of_none hl _
  | setFieldBit v n val =>
      have hin : v.Inside σ.store := h.holds he
      exact writeBitAt?_orderly (fun l hl => hin.field hl) fun hl => Call.refusal?_of_none hl _
  | setElement v w i val =>
      have hin : v.Inside σ.store := h.holds he
      exact writeAt?_orderly (fun l hl => hin.element hl) fun hl => Call.refusal?_of_none hl _
  | setElementBit v i val =>
      have hin : v.Inside σ.store := h.holds he
      exact writeBitAt?_orderly (fun l hl => hin.bit hl) fun hl => Call.refusal?_of_none hl _
  | assignField v i p =>
      have hin : v.Inside σ.store := h.holds he.1
      exact assignAt_orderly hv (h.holds he.2) (fun l hl => hin.slot hl)
        fun hl => Call.refusal?_of_none hl _
  | assignElement v i p =>
      have hin : v.Inside σ.store := h.holds he.1
      exact assignAt_orderly hv (h.holds he.2) (fun l hl => hin.slot hl)
        fun hl => Call.refusal?_of_none hl _
  | assignRoot msg p => exact assignRoot_orderly hv (h.holds he)
  | replace dst src =>
      have hd : dst.Inside σ.store := h.holds he.1
      have hs : src.Inside σ.store := h.holds he.2
      cases dst with
      | absent => exact Outcome.pure (.refl _)
      | backed loc shape member => exact fill_orderly hv hd hs
  | fill c budget dst src => exact fill_orderly hv (h.holds he.1) (h.holds he.2)

def Call.Creates (c : Call) (act : StoreM Pointer) (s : Store) : Prop :=
  Outcome act s (fun p t => s.Retains t ∧ p.Inside t) fun a t => s.Retains t ∧ c.Excuses a

theorem StructView.allocateRoot_creates {c : Call} {r : SegmentRef} {shape : StructShape} {s : Store}
    (hv : s.Valid) (hm : r.message < s.messages.size) :
    c.Creates (.struct <$> StructView.allocateRoot r shape) s := by
  refine Outcome.fmap (Outcome.bind_of (StructView.outcome_allocate r shape s) ?_ ?_)
  · rintro e t ⟨rfl, he⟩
    exact ⟨.refl t, .inl he⟩
  · rintro v t ⟨l, rfl, henc, ht⟩
    have hin := ht.struct_inside hm (StructShape.regular_roundUp henc) false
    have hret := ht.extends_.retains
    have hassign : c.Orderly (assignRoot r.message (.struct (.backed l shape.roundUp false))) t :=
      assignRoot_orderly (hret.valid hv) hin
    refine Outcome.bind_of hassign (fun a u hu => ⟨hret.trans hu.1, hu.2⟩) fun _ u hu => ?_
    exact Outcome.pure ⟨hret.trans hu, StructView.Inside.retained hu hin⟩

theorem Session.creation_creates {σ : Session} {c : Creation} (h : σ.Safe) (hc : σ.Creates c) :
    (Call.creation c).Creates c.run σ.store := by
  cases c with
  | message opts =>
      refine Outcome.bind_of (outcome_addOrFail fun m hm => Message.create_valid hm) ?_ ?_
      · rintro e t ⟨rfl, he⟩
        exact ⟨.refl _, .inl he⟩
      · exact fun _ t ht => Outcome.pure ⟨ht, trivial⟩
  | opened bufs opts =>
      refine Outcome.bind_of (outcome_addOrFail fun m hm => Message.ofBuffers_valid hm) ?_ ?_
      · rintro e t ⟨rfl, he⟩
        exact ⟨.refl _, .inl he⟩
      · exact fun _ t ht => Outcome.pure ⟨ht, trivial⟩
  | bytes r n =>
      refine Outcome.bind_of (outcome_allocate r n σ.store) ?_ ?_
      · rintro e t ⟨rfl, he⟩
        exact ⟨.refl _, .inl he⟩
      · exact fun _ t ht => Outcome.pure ⟨ht.extends_.retains, trivial⟩
  | bytesHere r n =>
      refine Outcome.bind_of (outcome_allocateHere r n σ.store) ?_ ?_
      · rintro e t ⟨rfl, he⟩
        exact ⟨.refl _, .inl he⟩
      · rintro _ t (⟨_, rfl⟩ | ⟨_, _, _, ht⟩)
        · exact Outcome.pure ⟨.refl _, trivial⟩
        · exact Outcome.pure ⟨ht.extends_.retains, trivial⟩
  | struct r shape =>
      refine Outcome.fmap ((StructView.outcome_allocate r shape σ.store).mono ?_ ?_)
      · rintro v t ⟨l, rfl, henc, ht⟩
        exact ⟨ht.extends_.retains,
          ht.struct_inside hc (StructShape.regular_roundUp henc) false⟩
      · rintro e t ⟨rfl, he⟩
        exact ⟨.refl _, .inl he⟩
  | root r shape => exact StructView.allocateRoot_creates h.valid hc
  | list r elem len =>
      refine Outcome.fmap ((ListView.outcome_allocate r elem len σ.store).mono ?_ ?_)
      · rintro v t ⟨l, rfl, hne, hlen, ht⟩
        exact ⟨ht.extends_.retains, ht.list_inside hc hne hlen⟩
      · rintro e t ⟨rfl, he | ⟨rfl, rfl⟩⟩
        · exact ⟨.refl _, .inl he⟩
        · exact ⟨.refl _, .inr ⟨_, rfl, rfl⟩⟩
  | composite r shape len =>
      refine Outcome.fmap ((ListView.outcome_allocateComposite r shape len σ.store).mono ?_ ?_)
      · rintro v t ⟨tag, u, rfl, henc, hfits, ht⟩
        exact ⟨ht.extends_.retains, ht.inside hc (StructShape.regular_roundUp henc)
          (ListView.compositeFits_length hfits)⟩
      · rintro e t ⟨ht, he⟩
        exact ⟨ht.retains, .inl (he hc).2⟩

namespace Session

theorem call_creates {σ : Session} {c : Call} (h : σ.Safe) (hc : σ.Allows c) :
    c.Creates c.run σ.store := by
  cases c with
  | query q =>
      have hq := query_answers h hc
      exact outcome_query (fun p hp => ⟨.refl _, hq.of_ok hp⟩)
        fun e he => ⟨.refl _, .inl (hq.of_error he)⟩
  | reading r =>
      have hr := reading_answers h hc
      refine Outcome.bind (P := fun _ t => t = σ.store) ?_ ?_
      · exact outcome_query (fun _ _ => rfl) fun e he => (hr.of_error he).elim
      · rintro _ t rfl
        exact Outcome.pure ⟨.refl _, trivial⟩
  | edit e => exact (edit_orderly h hc).bind fun _ t ht => Outcome.pure ⟨ht, trivial⟩
  | creation c => exact creation_creates h hc

theorem safe_empty : Session.empty.Safe where
  valid m i x hx := by
    have hm : Session.empty.store.message m = default := message_of_size_le (Nat.zero_le m)
    have hnone : (default : Message).arena.segments = #[] := rfl
    rw [hm, hnone] at hx
    cases hx
  inside p hp := nomatch hp

theorem after_retains {σ : Session} {c : Call} (h : σ.Safe) (hc : σ.Allows c) :
    σ.store.Retains (σ.after c).store := by
  have hcall := call_creates h hc
  unfold after
  split
  · rename_i hr
    exact (hcall.of_ok hr).1
  · rename_i hr
    exact (hcall.of_error hr).1

theorem after_safe {σ : Session} {c : Call} (h : σ.Safe) (hc : σ.Allows c) : (σ.after c).Safe := by
  have hret := after_retains h hc
  have hcall := call_creates h hc
  refine ⟨hret.valid h.valid, ?_⟩
  have hold (p : Pointer) (hp : p ∈ σ.views) : p.Inside (σ.after c).store :=
    (h.inside p hp).retained hret
  unfold after at hold ⊢
  split
  · rename_i q t hr
    simp only [hr] at hold
    intro p hp
    rcases List.mem_cons.mp hp with rfl | hp
    · exact (hcall.of_ok hr).2
    · exact hold p hp
  · rename_i hr
    simp only [hr] at hold
    exact hold

theorem after_views {σ : Session} {c : Call} {p : Pointer} (hp : p ∈ σ.views) :
    p ∈ (σ.after c).views := by
  unfold after
  split
  · exact List.mem_cons_of_mem _ hp
  · exact hp

theorem Reaches.safe {σ τ : Session} (h : Reaches Allows σ τ) (hs : σ.Safe) : τ.Safe := by
  induction h with
  | refl => exact hs
  | tail _ hstep ih =>
      obtain ⟨c, hc, rfl⟩ := hstep
      exact after_safe ih hc

theorem Reaches.views {σ τ : Session} (h : Reaches Allows σ τ) {p : Pointer} (hp : p ∈ σ.views) :
    p ∈ τ.views := by
  induction h with
  | refl => exact hp
  | tail _ hstep ih =>
      obtain ⟨c, _, rfl⟩ := hstep
      exact after_views ih

end Session

theorem CopyScope.deeper_depth_le {c d : CopyScope} (h : c.deeper = .ok d) :
    d.depth ≤ d.limit := by
  simp only [deeper] at h
  split at h
  · cases h
  · rename_i hlt
    cases h
    exact Nat.lt_of_not_le hlt

/-- Whatever bytes the messages of a session hold, its views stay inside, numbers can always be
read, and a call that aborts has failed or has refused its own arguments. -/
theorem session_contained {σ : Session} (h : Session.Reaches Session.Allows Session.empty σ) :
    (∀ τ, Session.Reaches Session.Allows σ τ → ∀ p ∈ σ.views, p.Inside τ.store) ∧
    (∀ l n, σ.store.covers l n = true → l.address + n ≤ largestSegment) ∧
    (∀ c d : CopyScope, c.deeper = .ok d → d.depth ≤ d.limit) ∧
    (∀ r, σ.Reads r → ∃ n, r.answer σ.store = .ok n) ∧
    ∀ c, σ.Allows c → Outcome c.run σ.store (fun p t => p.Inside t) fun a _ => c.Excuses a := by
  have hs : σ.Safe := h.safe Session.safe_empty
  refine ⟨?_, ?_, fun _ _ => CopyScope.deeper_depth_le, ?_, ?_⟩
  · intro τ hτ p hp
    exact (hτ.safe hs).inside p (hτ.views hp)
  · intro l n hc
    exact Nat.le_trans (covers_iff.mp hc).2 (hs.valid.length_le l.segment)
  · intro r hr
    have hread := Session.reading_answers hs hr
    cases ha : r.answer σ.store with
    | ok n => exact ⟨n, rfl⟩
    | error e => exact (hread.of_error ha).elim
  · intro c hc
    exact (Session.call_creates hs hc).mono (fun _ _ ht => ht.2) fun _ _ ht => ht.2

/-- The one word of this message is the root of a struct whose only slot is that word. -/
theorem session_contained_cycle :
    let σ := (Session.empty.after
      (.creation (.opened [⟨#[0xfc, 0xff, 0xff, 0xff, 0, 0, 1, 0]⟩] []))).after (.query (.root 0))
    Session.Reaches Session.Allows Session.empty σ ∧
      Pointer.struct (.backed ⟨⟨0, 0⟩, 0⟩ ⟨0, 1⟩ false) ∈ σ.views ∧
      ∀ p ∈ σ.views, p.Inside σ.store := by
  intro σ
  have hopen : Session.empty.Allows
      (.creation (.opened [⟨#[0xfc, 0xff, 0xff, 0xff, 0, 0, 1, 0]⟩] [])) := trivial
  have h : Session.Reaches Session.Allows Session.empty σ :=
    Relation.ReflTransGen.tail (.single ⟨_, hopen, rfl⟩) ⟨.query (.root 0), trivial, rfl⟩
  exact ⟨h, by decide, (session_contained h).1 σ .refl⟩

end SegmentedMessage
