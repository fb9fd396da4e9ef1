import SegmentedMessage.Proofs.Containment

namespace SegmentedMessage

open Store Copy

variable {σ α β : Type} {R : Store → Store → Prop}

def Respects (view : σ → Store) (R : Store → Store → Prop) (act : EStateM Abort σ α) : Prop :=
  ∀ x, Outcome act x (fun _ y => R (view x) (view y)) fun _ y => R (view x) (view y)

inductive Message.Opened (m : Message) : Prop where
  | created {opts : List MessageOption} (h : create opts = .ok m)
  | ofBuffers {bufs : List ByteArray} {opts : List MessageOption} (h : ofBuffers bufs opts = .ok m)

structure Lasting (R : Store → Store → Prop) : Prop where
  refl : ∀ s, R s s
  trans : ∀ {s t u}, R s t → R t u → R s u
  paste : ∀ l src, Respects id R (Store.paste l src)
  allocate : ∀ r n, Respects id R (Store.allocate r n)
  allocateHere : ∀ r n, Respects id R (Store.allocateHere r n)
  sealed : ∀ s m, R s (s.setMessage m { s.message m with isSealed := true })
  push : ∀ s x, x.Opened → R s (s.push x)

namespace Lasting

section Monad

variable {view : σ → Store}

theorem pure (h : Lasting R) (a : α) : Respects view R (Pure.pure a) :=
  fun _ => Outcome.pure (h.refl _)

theorem throw (h : Lasting R) (e : Abort) :
    Respects view R (MonadExcept.throw e : EStateM Abort σ α) :=
  fun _ => Outcome.throw (h.refl _)

theorem bind (h : Lasting R) {act : EStateM Abort σ α} {f : α → EStateM Abort σ β}
    (ha : Respects view R act) (hf : ∀ a, Respects view R (f a)) : Respects view R (act >>= f) := by
  intro x
  refine (ha x).bind fun a y hy => ?_
  exact (hf a y).mono (fun _ _ hz => h.trans hy hz) fun _ _ hz => h.trans hy hz

theorem map (h : Lasting R) {act : EStateM Abort σ α} (ha : Respects view R act) (f : α → β) :
    Respects view R (f <$> act) := by
  rw [map_eq_pure_bind]
  exact h.bind ha fun _ => h.pure _

end Monad

variable {deeper : Writer}

theorem query (h : Lasting R) (f : Store → Except Abort α) : Respects id R (Store.query f) :=
  fun _ => outcome_query (fun _ _ => h.refl _) fun _ _ => h.refl _

theorem whenOpen (h : Lasting R) {act : StoreM α} (ha : Respects id R act) (m : Nat) :
    Respects id R (Store.whenOpen m act) :=
  fun x => outcome_whenOpen (fun _ => h.refl x) fun _ => ha x

theorem onStore {act : StoreM α} (ha : Respects id R act) :
    Respects CopyState.store R (onStore act) :=
  fun st => (outcome_onStore (ha st.store)).mono (fun _ _ hx => hx.1) fun _ _ hx => hx.1

theorem spend (h : Lasting R) (words : Nat) : Respects CopyState.store R (spend words) := by
  intro st
  refine (outcome_spend words st).mono (fun _ t ht => ?_) fun _ t ht => ?_
  · rw [ht]
    exact h.refl _
  · rw [ht.2]
    exact h.refl _

theorem withBudget {act : CopyM Unit} (ha : Respects CopyState.store R act) (budget : Nat) :
    Respects id R (withBudget budget act) :=
  fun s => outcome_withBudget (ha ⟨s, budget⟩)

theorem withinLimits {act : CopyScope → CopyM Unit} (ha : ∀ c, Respects CopyState.store R (act c))
    (m : Nat) : Respects id R (withinLimits m act) :=
  fun s => outcome_withinLimits (ha _ ⟨s, _⟩)

section Writes

theorem write (h : Lasting R) (l : Location) (w v : Nat) : Respects id R (Store.write l w v) :=
  h.paste l _

theorem writeWord (h : Lasting R) (l : Location) (w : PointerWord) :
    Respects id R (Store.writeWord l w) :=
  h.paste l _

theorem clear (h : Lasting R) (l : Location) (n : Nat) : Respects id R (Store.clear l n) := by
  unfold Store.clear
  split
  · rcases Nat.eq_zero_or_pos n with rfl | hn
    · intro s
      rw [Arena.clear_zero]
      apply outcome_onArena
      apply Outcome.pure
      rw [withArena_self]
      exact h.refl s
    · rw [Arena.clear_of_pos hn]
      exact h.paste l _
  · exact h.throw _

theorem copyBytes (h : Lasting R) (dst src : Location) (n : Nat) :
    Respects id R (Store.copyBytes dst src n) := by
  rw [Store.copyBytes_eq]
  split
  · exact h.pure ()
  · exact h.bind (h.query _) fun _ => h.paste dst _

theorem writeAt? (h : Lasting R) (loc : Option Location) (f : Fault) (w : Width) (v : Nat) :
    Respects id R (Store.writeAt? loc f w v) := by
  cases loc with
  | none => exact h.throw _
  | some l => exact h.write l _ v

theorem writeBitAt? (h : Lasting R) (loc : Option Location) (f : Fault) (n : Nat) (v : Bool) :
    Respects id R (Store.writeBitAt? loc f n v) := by
  cases loc with
  | none => exact h.throw _
  | some l => exact h.bind (h.query _) fun _ => h.write l 1 _

end Writes

section Links

theorem linkSingle (h : Lasting R) (slot pad target : Location) (w : PointerWord) :
    Respects id R (Store.linkSingle slot pad target w) :=
  h.bind (h.writeWord pad _) fun _ => h.writeWord slot _

theorem linkDouble (h : Lasting R) (slot target : Location) (w : PointerWord) :
    Respects id R (Store.linkDouble slot target w) :=
  h.bind (h.allocate _ _) fun pad => h.bind (h.writeWord pad _) fun _ =>
    h.bind (h.writeWord (pad.shift 8) _) fun _ => h.writeWord slot _

theorem link (h : Lasting R) (slot target : Location) (w : PointerWord) :
    Respects id R (Store.link slot target w) := by
  unfold Store.link
  split
  · exact h.writeWord slot _
  · refine h.bind (h.allocateHere _ _) fun pad? => ?_
    cases pad? with
    | none => exact h.linkDouble slot target w
    | some pad => exact h.linkSingle slot pad target w

theorem linkList (h : Lasting R) (slot : Location) (v : ListView) :
    Respects id R (Store.linkList slot v) := by
  unfold Store.linkList
  split
  · split
    · exact h.link slot _ _
    · exact h.throw _
  · exact h.writeWord slot _

end Links

section Allocations

theorem allocateStruct (h : Lasting R) (r : SegmentRef) (shape : StructShape) :
    Respects id R (StructView.allocate r shape) := by
  unfold StructView.allocate
  split
  · exact h.bind (h.allocate r _) fun _ => h.pure _
  · exact h.throw _

theorem allocateList (h : Lasting R) (r : SegmentRef) (elem : ElementKind) (len : Nat) :
    Respects id R (ListView.allocate r elem len) := by
  unfold ListView.allocate
  split
  · exact h.throw _
  · split
    · exact h.throw _
    · exact h.bind (h.allocate r _) fun _ => h.pure _

theorem allocateComposite (h : Lasting R) (r : SegmentRef) (shape : StructShape) (len : Nat) :
    Respects id R (ListView.allocateComposite r shape len) := by
  unfold ListView.allocateComposite
  split
  · exact h.throw _
  · split
    · exact h.throw _
    · exact h.bind (h.allocate r _) fun tag => h.bind (h.writeWord tag _) fun _ => h.pure _

end Allocations

section Layers

theorem cloneSlot (h : Lasting R) (hd : ∀ slot p, Respects CopyState.store R (deeper slot p))
    (slot : Location) (p : Pointer) : Respects CopyState.store R (cloneSlot deeper slot p) := by
  unfold Copy.cloneSlot
  split
  · exact hd slot p
  · exact onStore (h.writeWord slot _)

theorem cloneSlots (h : Lasting R) (hd : ∀ slot p, Respects CopyState.store R (deeper slot p))
    (slots : Location) (src : StructView) (j n : Nat) :
    Respects CopyState.store R (cloneSlots deeper slots src j n) := by
  induction n generalizing j with
  | zero => exact h.pure ()
  | succ n ih =>
      exact h.bind (onStore (h.query _)) fun p => h.bind (h.cloneSlot hd _ p) fun _ => ih (j + 1)

theorem pastePrefix (h : Lasting R) (dst : Location) (src : Option Location) (n : Nat) :
    Respects id R (pastePrefix dst src n) := by
  cases src with
  | none => exact h.pure ()
  | some loc => exact h.copyBytes dst loc n

theorem fillWith (h : Lasting R) (hd : ∀ slot p, Respects CopyState.store R (deeper slot p))
    (dst src : StructView) : Respects CopyState.store R (fillWith deeper dst src) := by
  cases dst with
  | absent => exact h.pure ()
  | backed loc shape member =>
      have hdata : Respects id R (fillData loc shape.data src) :=
        h.bind (h.pastePrefix loc _ _) fun _ => h.clear _ _
      refine h.bind (h.spend _) fun _ => h.bind (onStore hdata) fun _ => ?_
      exact h.bind (h.cloneSlots hd _ src 0 _) fun _ => onStore (h.clear _ _)

theorem fillMembers (h : Lasting R) (hd : ∀ slot p, Respects CopyState.store R (deeper slot p))
    (dst src : ListView) (i n : Nat) :
    Respects CopyState.store R (fillMembers deeper dst src i n) := by
  induction n generalizing i with
  | zero => exact h.pure ()
  | succ n ih => exact h.bind (h.fillWith hd _ _) fun _ => ih (i + 1)

theorem cloneElement (h : Lasting R) (hd : ∀ slot p, Respects CopyState.store R (deeper slot p))
    (slot : Option Location) (p : Pointer) :
    Respects CopyState.store R (cloneElement deeper slot p) := by
  cases slot with
  | none => exact h.pure ()
  | some slot =>
      simp only [Copy.cloneElement]
      split
      · exact hd slot p
      · exact h.pure ()

theorem cloneElements (h : Lasting R) (hd : ∀ slot p, Respects CopyState.store R (deeper slot p))
    (dst src : ListView) (i n : Nat) :
    Respects CopyState.store R (cloneElements deeper dst src i n) := by
  induction n generalizing i with
  | zero => exact h.pure ()
  | succ n ih =>
      exact h.bind (onStore (h.query _)) fun p => h.bind (h.cloneElement hd _ p) fun _ => ih (i + 1)

theorem fillContent (h : Lasting R) (dst src : ListView) : Respects id R (fillContent dst src) := by
  cases dst with
  | absent => exact h.pure ()
  | backed loc len elem shape => exact h.pastePrefix loc _ _

theorem cloneListWith (h : Lasting R) (hd : ∀ slot p, Respects CopyState.store R (deeper slot p))
    (r : SegmentRef) (src : ListView) :
    Respects CopyState.store R (cloneListWith deeper r src) := by
  unfold Copy.cloneListWith
  split
  · exact h.bind (h.spend _) fun _ => h.bind (onStore (h.allocateComposite r _ _)) fun dst =>
      h.bind (h.fillMembers hd dst src 0 _) fun _ => h.pure dst
  · exact h.bind (h.spend _) fun _ => h.bind (onStore (h.allocateList r _ _)) fun dst =>
      h.bind (h.cloneElements hd dst src 0 _) fun _ => h.pure dst
  · exact h.bind (h.spend _) fun _ => h.bind (onStore (h.allocateList r _ _)) fun dst =>
      h.bind (onStore (h.fillContent dst src)) fun _ => h.pure dst

theorem writeWith (h : Lasting R) (hd : ∀ slot p, Respects CopyState.store R (deeper slot p))
    (slot : Location) (p : Pointer) : Respects CopyState.store R (writeWith deeper slot p) := by
  cases p with
  | null => exact onStore (h.writeWord slot _)
  | capability i => exact onStore (h.writeWord slot _)
  | struct v =>
      cases v with
      | absent => exact onStore (h.writeWord slot _)
      | backed loc shape member =>
          simp only [Copy.writeWith, writeStructWith]
          split
          · exact onStore (h.writeWord slot _)
          · split
            · exact onStore (h.link slot loc _)
            · exact h.bind (onStore (h.allocate _ _)) fun target =>
                h.bind (h.fillWith hd _ _) fun _ => onStore (h.link slot target _)
  | list v =>
      cases v with
      | absent => exact onStore (h.writeWord slot _)
      | backed loc len elem shape =>
          simp only [Copy.writeWith, writeListWith]
          split
          · exact onStore (h.linkList slot _)
          · exact h.bind (h.cloneListWith hd _ _) fun dst => onStore (h.linkList slot dst)

theorem follow (h : Lasting R) (limit levels : Nat) (slot : Location) (p : Pointer) :
    Respects CopyState.store R (follow limit levels slot p) := by
  induction levels generalizing slot p with
  | zero => exact h.throw _
  | succ levels ih => exact h.writeWith ih slot p

end Layers

section Calls

theorem pointTo (h : Lasting R) (c : CopyScope) (slot : Location) (p : Pointer) :
    Respects CopyState.store R (pointTo c slot p) :=
  h.writeWith (h.follow c.limit c.levels) slot p

theorem fill (h : Lasting R) (c : CopyScope) (dst src : StructView) :
    Respects CopyState.store R (fill c dst src) :=
  h.fillWith (h.follow c.limit c.levels) dst src

theorem assign (h : Lasting R) (slot : Location) (p : Pointer) :
    Respects id R (SegmentedMessage.assign slot p) :=
  withinLimits (fun c => h.pointTo c slot p) _

theorem assignRoot (h : Lasting R) (m : Nat) (p : Pointer) :
    Respects id R (Store.assignRoot m p) :=
  h.whenOpen (h.bind (h.query _) fun _ => h.assign _ p) m

theorem edit (h : Lasting R) (e : Edit) : Respects id R e.run := by
  cases e with
  | write l w v => exact h.write l w v
  | writeWord l w => exact h.writeWord l w
  | clear l n => exact h.clear l n
  | copyBytes dst src n => exact h.copyBytes dst src n
  | pointTo c budget slot p => exact withBudget (h.pointTo c slot p) budget
  | sealMessage msg => exact fun s => h.sealed s msg
  | setField v w off val => exact h.writeAt? _ _ w val
  | setFieldBit v n val => exact h.writeBitAt? _ _ n val
  | setElement v w i val => exact h.writeAt? _ _ w val
  | setElementBit v i val => exact h.writeBitAt? _ _ i val
  | assignField v i p =>
      simp only [Edit.run, StructView.assignSlot]
      split
      · exact h.assign _ p
      · exact h.throw _
  | assignElement v i p =>
      simp only [Edit.run, ListView.assignSlot]
      split
      · exact h.assign _ p
      · exact h.throw _
  | assignRoot msg p => exact h.assignRoot msg p
  | replace dst src =>
      simp only [Edit.run, StructView.replaceBy]
      split
      · exact withinLimits (fun c => h.fill c dst src) _
      · exact h.pure ()
  | fill c budget dst src => exact withBudget (h.fill c dst src) budget

theorem addOrFail (h : Lasting R) {m : Except Failure Message} (hm : ∀ x, m = .ok x → x.Opened) :
    Respects id R (Store.addOrFail m) := by
  intro s
  cases m with
  | ok m => exact h.push s m (hm m rfl)
  | error e => exact h.refl s

theorem creation (h : Lasting R) (c : Creation) : Respects id R c.run := by
  cases c with
  | message opts => exact h.bind (h.addOrFail fun _ hx => .created hx) fun _ => h.pure _
  | opened bufs opts => exact h.bind (h.addOrFail fun _ hx => .ofBuffers hx) fun _ => h.pure _
  | bytes r n => exact h.bind (h.allocate r n) fun _ => h.pure _
  | bytesHere r n => exact h.bind (h.allocateHere r n) fun _ => h.pure _
  | struct r shape => exact h.map (h.allocateStruct r shape) _
  | root r shape =>
      exact h.map (h.bind (h.allocateStruct r shape) fun v =>
        h.bind (h.assignRoot r.message _) fun _ => h.pure v) _
  | list r elem len => exact h.map (h.allocateList r elem len) _
  | composite r shape len => exact h.map (h.allocateComposite r shape len) _

theorem call (h : Lasting R) (c : Call) : Respects id R c.run := by
  cases c with
  | query q => exact h.query _
  | reading r => exact h.bind (h.query _) fun _ => h.pure _
  | edit e => exact h.bind (h.edit e) fun _ => h.pure _
  | creation c => exact h.creation c

theorem after (h : Lasting R) (σ : Session) (c : Call) : R σ.store (σ.after c).store := by
  have hcall := h.call c σ.store
  unfold Session.after
  split
  · rename_i hr
    exact hcall.of_ok hr
  · rename_i hr
    exact hcall.of_error hr

theorem reaches (h : Lasting R) {rule : Session → Call → Prop} {σ τ : Session}
    (hτ : Session.Reaches rule σ τ) : R σ.store τ.store := by
  induction hτ with
  | refl => exact h.refl _
  | tail _ hstep ih =>
      obtain ⟨c, _, rfl⟩ := hstep
      exact h.trans ih (h.after _ c)

end Calls

end Lasting

end SegmentedMessage
