import SegmentedMessage.Proofs.Safety

namespace SegmentedMessage

open Store

section Results

variable {ε σ α β : Type}

inductive Agrees (R : σ → σ → Prop) : EStateM.Result ε σ α → EStateM.Result ε σ α → Prop where
  | ok {a : α} {x y : σ} (h : R x y) : Agrees R (.ok a x) (.ok a y)
  | error {e : ε} {x y : σ} (h : R x y) : Agrees R (.error e x) (.error e y)

namespace Agrees

variable {R Q : σ → σ → Prop} {x y : σ}

theorem mono {r q : EStateM.Result ε σ α} (h : Agrees R r q) (hR : ∀ x y, R x y → Q x y) :
    Agrees Q r q := by
  cases h with
  | ok h => exact .ok (hR _ _ h)
  | error h => exact .error (hR _ _ h)

theorem bind {act act' : EStateM ε σ α} {f f' : α → EStateM ε σ β}
    (h : Agrees R (act x) (act' y)) (hf : ∀ a x' y', act x = .ok a x' → R x' y' →
      Agrees R (f a x') (f' a y')) : Agrees R ((act >>= f) x) ((act' >>= f') y) := by
  simp only [Bind.bind, EStateM.bind]
  cases hx : act x with
  | ok a x' =>
      rw [hx] at h
      cases hy : act' y with
      | ok b y' =>
          rw [hy] at h
          cases h with
          | ok h => exact hf a x' y' hx h
      | error e y' =>
          rw [hy] at h
          cases h
  | error e x' =>
      rw [hx] at h
      cases hy : act' y with
      | ok b y' =>
          rw [hy] at h
          cases h
      | error f y' =>
          rw [hy] at h
          cases h with
          | error h => exact .error h

end Agrees

end Results

structure Store.Beside (m : Nat) (s s' t t' : Store) : Prop where
  message : t'.message m = t.message m
  size : m < t.messages.size
  size' : m < t'.messages.size
  others : ∀ k, k ≠ m → t.message k = s.message k
  others' : ∀ k, k ≠ m → t'.message k = s'.message k

section Stores

variable {ε α β : Type} {m n : Nat} {s s' t t' : Store}

theorem Store.Beside.setMessage (h : Beside m s s' t t') (x : Message) :
    Beside m s s' (t.setMessage m x) (t'.setMessage m x) where
  message := by
    rw [message_setMessage_self x h.size, message_setMessage_self x h.size']
  size := by
    rw [size_setMessage]
    exact h.size
  size' := by
    rw [size_setMessage]
    exact h.size'
  others k hk := by
    rw [message_setMessage_ne x (Ne.symm hk)]
    exact h.others k hk
  others' k hk := by
    rw [message_setMessage_ne x (Ne.symm hk)]
    exact h.others' k hk

/-- The run depends on message `m` alone and changes no other. -/
def Local (m : Nat) (act : StoreM α) : Prop :=
  ∀ s s' t t', Beside m s s' t t' → Agrees (Beside m s s') (act t) (act t')

namespace Local

theorem pure (m : Nat) (a : α) : Local m (Pure.pure a : StoreM α) :=
  fun _ _ _ _ h => .ok h

theorem throw (m : Nat) (e : Abort) : Local m (MonadExcept.throw e : StoreM α) :=
  fun _ _ _ _ h => .error h

theorem bind {act : StoreM α} {f : α → StoreM β} (ha : Local m act)
    (hf : ∀ a t u, act t = .ok a u → Local m (f a)) : Local m (act >>= f) :=
  fun _ _ _ _ h => (ha _ _ _ _ h).bind fun a _ _ hr hb => hf a _ _ hr _ _ _ _ hb

theorem map {act : StoreM α} (ha : Local m act) (f : α → β) :
    Local m (act >>= fun a => Pure.pure (f a)) :=
  ha.bind fun a _ _ _ => pure m (f a)

theorem onArena (m : Nat) (abort : ε → Abort) (act : EStateM ε Arena α) :
    Local m (Store.onArena m abort act) := by
  intro s s' t t' h
  rw [onArena_run, onArena_run, h.message]
  cases act (t.message m).arena with
  | ok a b => exact .ok (h.setMessage _)
  | error e b => exact .error (h.setMessage _)

theorem whenOpen {act : StoreM α} (ha : Local m act) : Local m (Store.whenOpen m act) := by
  intro s s' t t' h
  simp only [Store.whenOpen, h.message]
  split
  · exact .error h
  · exact ha _ _ _ _ h

variable {l slot pad target : Location} {r : SegmentRef} {w : PointerWord}

theorem writeWord (hl : l.segment.message = m) (w : PointerWord) :
    Local m (Store.writeWord l w) := by
  subst hl
  exact onArena _ _ _

theorem paste (hl : l.segment.message = m) (src : ByteArray) : Local m (Store.paste l src) := by
  subst hl
  exact onArena _ _ _

theorem clear (hl : l.segment.message = m) (n : Nat) : Local m (Store.clear l n) := by
  subst hl
  unfold Store.clear
  split
  · exact onArena _ _ _
  · exact throw _ _

theorem allocate (hr : r.message = m) (n : Nat) : Local m (Store.allocate r n) := by
  subst hr
  exact whenOpen (map (onArena _ _ _) _)

theorem allocateHere (hr : r.message = m) (n : Nat) : Local m (Store.allocateHere r n) := by
  subst hr
  exact whenOpen (map (onArena _ _ _) _)

theorem linkSingle (hs : slot.segment.message = m) (hp : pad.segment.message = m)
    (target : Location) (w : PointerWord) : Local m (Store.linkSingle slot pad target w) :=
  (writeWord hp _).bind fun _ _ _ _ => writeWord hs _

theorem linkDouble (hs : slot.segment.message = m) (target : Location) (w : PointerWord) :
    Local m (Store.linkDouble slot target w) := by
  refine (allocate hs 16).bind fun pad t u hr => ?_
  have hnew := (outcome_allocate slot.segment 16 t).of_ok hr
  have hpad : pad.segment.message = m := hnew.message.trans hs
  refine (writeWord hpad _).bind fun _ _ _ _ => ?_
  exact (writeWord (l := pad.shift 8) hpad _).bind fun _ _ _ _ => writeWord hs _

theorem link (hs : slot.segment.message = m) (ht : target.segment.message = m) (w : PointerWord) :
    Local m (Store.link slot target w) := by
  unfold Store.link
  split
  · exact writeWord hs _
  · refine (allocateHere ht 8).bind fun pad? t u hr => ?_
    obtain ⟨rfl, _⟩ | ⟨pad, rfl, hseg, _⟩ := (outcome_allocateHere target.segment 8 t).of_ok hr
    · exact linkDouble hs target w
    · exact linkSingle hs ((congrArg SegmentRef.message hseg).trans ht) target w

theorem linkList {v : ListView} (hs : slot.segment.message = m)
    (hv : ∀ l, v.loc? = some l → l.segment.message = m) : Local m (Store.linkList slot v) := by
  unfold Store.linkList
  split
  · rename_i target htarget
    obtain ⟨loc, hloc, hseg⟩ := ListView.start?_segment htarget
    split
    · exact link hs ((congrArg SegmentRef.message hseg).trans (hv loc hloc)) _
    · exact throw _ _
  · exact writeWord hs _

theorem allocateList (hr : r.message = m) (elem : ElementKind) (len : Nat) :
    Local m (ListView.allocate r elem len) := by
  unfold ListView.allocate
  split
  · exact throw _ _
  · split
    · exact throw _ _
    · exact map (allocate hr _) _

theorem allocateComposite (hr : r.message = m) (shape : StructShape) (len : Nat) :
    Local m (ListView.allocateComposite r shape len) := by
  unfold ListView.allocateComposite
  split
  · exact throw _ _
  · split
    · exact throw _ _
    · refine (allocate hr _).bind fun tag t u htag => ?_
      exact map (writeWord (((outcome_allocate r _ t).of_ok htag).message.trans hr) _) _

end Local

theorem copyBytes_agrees (h : Beside m s s' t t') {dst src src' : Location}
    (hd : dst.segment.message = m) (hne : src.segment.message ≠ m)
    (hne' : src'.segment.message ≠ m) (hc : s.covers src n = true) (hc' : s'.covers src' n = true)
    (hbytes : s'.range src' n = s.range src n) :
    Agrees (Beside m s s') (copyBytes dst src n t) (copyBytes dst src' n t') := by
  have hsame := h.others _ hne
  have hsame' := h.others' _ hne'
  rw [← covers_congr hsame rfl] at hc
  rw [← covers_congr hsame' rfl] at hc'
  rw [← range_congr hsame rfl, ← range_congr hsame' rfl] at hbytes
  rw [copyBytes_eq, copyBytes_eq]
  split
  · exact .ok h
  · have hread : Agrees (Beside m s s') (query (slice · src n) t) (query (slice · src' n) t') := by
      simp only [query, slice_eq hc, slice_eq hc', hbytes]
      exact .ok h
    exact hread.bind fun bytes _ _ _ h => Local.paste hd bytes _ _ _ _ h

end Stores

structure CopyState.Beside (m : Nat) (s s' : Store) (x y : CopyState) : Prop where
  store : Store.Beside m s s' x.store y.store
  budget : y.budget = x.budget

section Copies

variable {α β : Type} {m : Nat} {s s' : Store} {x y : CopyState}

theorem CopyState.Beside.start (hsame : s'.message m = s.message m) {l : Location} {n : Nat}
    (hm : l.segment.message = m) (hc : s.covers l n = true) (budget : Nat) :
    CopyState.Beside m s s' ⟨s, budget⟩ ⟨s', budget⟩ := by
  have hc' : s'.covers l n = true := (covers_congr hsame hm n).trans hc
  have hsize := lt_size_of_covers hc
  have hsize' := lt_size_of_covers hc'
  rw [hm] at hsize hsize'
  exact ⟨⟨hsame, hsize, hsize', fun _ _ => rfl, fun _ _ => rfl⟩, rfl⟩

theorem onStore_agrees {act act' : StoreM α} (h : CopyState.Beside m s s' x y)
    (ha : Agrees (Store.Beside m s s') (act x.store) (act' y.store)) :
    Agrees (CopyState.Beside m s s') (onStore act x) (onStore act' y) := by
  simp only [onStore]
  generalize act x.store = r at ha
  generalize act' y.store = q at ha
  cases ha with
  | ok ha => exact .ok ⟨ha, h.budget⟩
  | error ha => exact .error ⟨ha, h.budget⟩

theorem spend_agrees (words : Nat) (h : CopyState.Beside m s s' x y) :
    Agrees (CopyState.Beside m s s') (spend words x) (spend words y) := by
  simp only [spend, h.budget]
  split
  · exact .ok ⟨h.store, rfl⟩
  · exact .error ⟨h.store, rfl⟩

end Copies

end SegmentedMessage
