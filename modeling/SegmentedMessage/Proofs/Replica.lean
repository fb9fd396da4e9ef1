import SegmentedMessage.Proofs.Region
import SegmentedMessage.Proofs.Session

namespace SegmentedMessage

section Moved

variable (k : Nat)

def SegmentRef.movedTo (r : SegmentRef) : SegmentRef :=
  { r with message := k }

def Location.movedTo (l : Location) : Location :=
  { l with segment := l.segment.movedTo k }

def Target.movedTo (t : Target) : Target :=
  { t with segment := t.segment.movedTo k }

def StructView.movedTo : StructView → StructView
  | .absent => .absent
  | .backed loc shape member => .backed (loc.movedTo k) shape member

def ListView.movedTo : ListView → ListView
  | .absent => .absent
  | .backed loc len elem shape => .backed (loc.movedTo k) len elem shape

def Pointer.movedTo : Pointer → Pointer
  | .struct v => .struct (v.movedTo k)
  | .list v => .list (v.movedTo k)
  | p => p

def Query.movedTo : Query → Query
  | pointerAt slot => pointerAt (slot.movedTo k)
  | root _ => root k
  | rootView _ => rootView k
  | field v i => field (v.movedTo k) i
  | fieldOrNull v i => fieldOrNull (v.movedTo k) i
  | element v i => element (v.movedTo k) i
  | elementOrNull v i => elementOrNull (v.movedTo k) i
  | member v i => member (v.movedTo k) i

def Reading.movedTo : Reading → Reading
  | field v w off => field (v.movedTo k) w off
  | fieldBit v n => fieldBit (v.movedTo k) n
  | element v w i => element (v.movedTo k) w i
  | elementBit v i => elementBit (v.movedTo k) i

@[simp] theorem Target.movedTo_word (t : Target) : (t.movedTo k).word = t.word := rfl

end Moved

def Query.About (m : Nat) : Query → Prop
  | pointerAt slot => slot.segment.message = m
  | root msg => msg = m
  | rootView msg => msg = m
  | field v _ => (Pointer.struct v).In m
  | fieldOrNull v _ => (Pointer.struct v).In m
  | element v _ => (Pointer.list v).In m
  | elementOrNull v _ => (Pointer.list v).In m
  | member _ _ => True

def Reading.About (m : Nat) : Reading → Prop
  | field v _ _ => (Pointer.struct v).In m
  | fieldBit v _ => (Pointer.struct v).In m
  | element v _ _ => (Pointer.list v).In m
  | elementBit v _ => (Pointer.list v).In m

namespace Arena

variable {a b : Arena} {i : Nat}

theorem length?_eq_map (a : Arena) (i : Nat) : a.length? i = (a.bytes? i).map ByteArray.size := by
  rw [length?, bytes?, Option.map_map]
  rfl

theorem lt_count_iff (a : Arena) (i : Nat) : i < a.count ↔ (a.bytes? i).isSome = true := by
  rw [bytes?, Option.isSome_map, count, isSome_getElem?]

section SameBytes

variable (h : ∀ i, b.bytes? i = a.bytes? i)
include h

theorem count_of_bytes : b.count = a.count := by
  have hlt (i : Nat) : i < b.count ↔ i < a.count := by
    rw [lt_count_iff, lt_count_iff, h]
  have hle := hlt a.count
  have hge := hlt b.count
  omega

theorem covers_of_bytes (i addr len : Nat) : b.covers i addr len = a.covers i addr len := by
  rw [covers, covers, length?_eq_map, length?_eq_map, h]

theorem read_of_bytes (i addr w : Nat) : b.read i addr w = a.read i addr w := by
  have hread (c : Arena) : c.read i addr w = match c.bytes? i with
      | some bs => if addr + w ≤ bs.size then .ok (Buffer.getLE bs addr w) else .error .rawAccess
      | none => .error .rawAccess := by
    rw [read, bytes?]
    cases c.segments[i]? <;> rfl
  rw [hread, hread, h]

theorem readWord_of_bytes (i addr : Nat) : b.readWord i addr = a.readWord i addr := by
  have hread (c : Arena) : c.readWord i addr = match c.bytes? i with
      | some bs =>
        if bs.size < addr then .error .rawAccess
        else if addr + 8 ≤ bs.size then .ok (.ofNat (Buffer.getLE bs addr 8))
        else .ok .null
      | none => .error .rawAccess := by
    rw [readWord, bytes?]
    cases c.segments[i]? <;> rfl
  rw [hread, hread, h]

end SameBytes

end Arena

namespace Store

def Replica (m k : Nat) (s t : Store) : Prop :=
  ∀ i, (t.message k).arena.bytes? i = (s.message m).arena.bytes? i

theorem moved_bind {ε α β γ δ : Type} {x : Except ε α} {y : Except ε β} {f : α → β}
    {g : α → Except ε γ} {g' : β → Except ε δ} {f' : γ → δ} (hx : y = f <$> x)
    (hg : ∀ a, x = .ok a → g' (f a) = f' <$> g a) : y >>= g' = f' <$> (x >>= g) := by
  subst hx
  cases x with
  | ok a => exact hg a rfl
  | error e => rfl

theorem same_bind {ε α γ δ : Type} {x y : Except ε α} {g : α → Except ε γ} {g' : α → Except ε δ}
    {f' : γ → δ} (hx : y = x) (hg : ∀ a, x = .ok a → g' a = f' <$> g a) :
    y >>= g' = f' <$> (x >>= g) := by
  subst hx
  cases y with
  | ok a => exact hg a rfl
  | error e => rfl

theorem moved_ite {ε α β : Type} {c : Prop} [Decidable c] {f : α → β} {x y : Except ε α}
    {x' y' : Except ε β} (hx : x' = f <$> x) (hy : y' = f <$> y) :
    (if c then x' else y') = f <$> if c then x else y := by
  rw [hx, hy]
  exact (apply_ite (Functor.map f) c x y).symm

section Replica

variable {m k : Nat} {s t : Store} (h : Replica m k s t)
include h

theorem covers_moved {l : Location} (hl : l.segment.message = m) (n : Nat) :
    t.covers (l.movedTo k) n = s.covers l n := by
  subst hl
  exact Arena.covers_of_bytes h _ _ n

theorem readWord_moved {l : Location} (hl : l.segment.message = m) :
    t.readWord (l.movedTo k) = s.readWord l := by
  subst hl
  exact congrArg orFault (Arena.readWord_of_bytes h _ _)

theorem read_moved {l : Location} (hl : l.segment.message = m) (w : Nat) :
    t.read (l.movedTo k) w = s.read l w := by
  subst hl
  exact congrArg orFault (Arena.read_of_bytes h _ _ w)

theorem segment_moved (id : Nat) : t.segment k id = SegmentRef.movedTo k <$> s.segment m id := by
  rw [segment, segment, Arena.count_of_bytes h]
  split <;> rfl

theorem checkRange_moved {r : SegmentRef} (hr : r.message = m) (address : Int) (n : Nat) :
    t.checkRange (r.movedTo k) address n = Location.movedTo k <$> s.checkRange r address n := by
  have hc := covers_moved h (l := ⟨r, address.toNat⟩) hr n
  simp only [Location.movedTo] at hc
  simp only [checkRange, hc]
  split <;> rfl

theorem locateSingle_moved {pad : Location} (hp : pad.segment.message = m) (w : PointerWord) :
    t.locateSingle w (pad.movedTo k) = Target.movedTo k <$> s.locateSingle w pad := by
  rw [locateSingle, locateSingle, covers_moved h hp]
  split
  · refine same_bind (readWord_moved h hp) fun land _ => ?_
    split <;> rfl
  · rfl

theorem locateDouble_moved {pad : Location} (hp : pad.segment.message = m) (w : PointerWord) :
    t.locateDouble w (pad.movedTo k) = Target.movedTo k <$> s.locateDouble w pad := by
  have hnext : (pad.shift 8).segment.message = m := hp
  rw [locateDouble, locateDouble, covers_moved h hp]
  split
  · refine same_bind (readWord_moved h hp) fun land _ => ?_
    refine same_bind (readWord_moved h hnext) fun tag _ => ?_
    split
    · rfl
    · rw [hp]
      exact moved_bind (segment_moved h land.padSegment) fun r _ => rfl
  · rfl

theorem locate_moved {l : Location} (hl : l.segment.message = m) (w : PointerWord) :
    t.locate (l.movedTo k) w = Target.movedTo k <$> s.locate l w := by
  rw [locate, locate]
  split
  · rw [hl]
    refine moved_bind (segment_moved h w.padSegment) fun r hr => ?_
    have hpad : (⟨r, Layout.wordAddress w.padWord⟩ : Location).segment.message = m := by
      rw [((segment_answers s m _).of_ok hr).1]
    dsimp only
    split
    · exact locateDouble_moved h hpad w
    · exact locateSingle_moved h hpad w
  · rfl

theorem readComposite_moved {x : Target} (hx : x.segment.message = m) :
    t.readComposite (x.movedTo k) = ListView.movedTo k <$> s.readComposite x := by
  refine moved_bind (checkRange_moved h hx _ _) fun l hl => ?_
  have hm : l.segment.message = m := by
    rw [(covers_locate.of_ok hl).1, hx]
  refine same_bind (readWord_moved h hm) fun tag _ => ?_
  exact moved_ite rfl rfl

theorem readTarget_moved {x : Target} (hx : x.segment.message = m) :
    t.readTarget (x.movedTo k) = Pointer.movedTo k <$> s.readTarget x := by
  have hstruct : t.readStruct (x.movedTo k) = StructView.movedTo k <$> s.readStruct x :=
    moved_bind (checkRange_moved h hx _ _) fun l _ => rfl
  have hplain (e : ElementKind) :
      t.readPlain (x.movedTo k) e = ListView.movedTo k <$> s.readPlain x e :=
    moved_bind (checkRange_moved h hx _ _) fun l _ => rfl
  have hlist : t.readList (x.movedTo k) = ListView.movedTo k <$> s.readList x := by
    simp only [readList, Target.movedTo_word]
    split
    · exact readComposite_moved h hx
    · exact hplain _
  simp only [readTarget, Target.movedTo_word, hstruct, hlist]
  split
  · cases s.readStruct x <;> rfl
  · cases s.readList x <;> rfl
  · exact moved_ite rfl rfl

theorem pointerAt_moved {l : Location} (hl : l.segment.message = m) :
    t.pointerAt (l.movedTo k) = Pointer.movedTo k <$> s.pointerAt l := by
  rw [pointerAt, pointerAt, covers_moved h hl]
  split
  · refine same_bind (readWord_moved h hl) fun w _ => ?_
    split
    · rfl
    · refine moved_bind (locate_moved h hl w) fun x hx => ?_
      exact readTarget_moved h (((locate_answers s l w).of_ok hx).trans hl)
  · rfl

end Replica

end Store

section Slots

variable (k : Nat)

theorem StructView.slot?_moved (v : StructView) (i : Nat) :
    (v.movedTo k).slot? i = (v.slot? i).map (Location.movedTo k) := by
  cases v with
  | absent => rfl
  | backed loc shape member =>
      simp only [movedTo, slot?]
      split <;> rfl

theorem StructView.field?_moved (v : StructView) (off n : Nat) :
    (v.movedTo k).field? off n = (v.field? off n).map (Location.movedTo k) := by
  cases v with
  | absent => rfl
  | backed loc shape member =>
      simp only [movedTo, field?]
      split <;> rfl

theorem ListView.slot?_moved (v : ListView) (i : Nat) :
    (v.movedTo k).slot? i = (v.slot? i).map (Location.movedTo k) := by
  cases v with
  | absent => rfl
  | backed loc len elem shape =>
      cases elem with
      | pointer =>
          simp only [movedTo, slot?]
          split <;> rfl
      | _ => rfl

theorem ListView.bit?_moved (v : ListView) (i : Nat) :
    (v.movedTo k).bit? i = (v.bit? i).map (Location.movedTo k) := by
  cases v with
  | absent => rfl
  | backed loc len elem shape =>
      cases elem with
      | bit =>
          simp only [movedTo, bit?]
          split <;> rfl
      | _ => rfl

theorem ListView.element?_moved (v : ListView) (i n : Nat) :
    (v.movedTo k).element? i n = (v.element? i n).map (Location.movedTo k) := by
  cases v with
  | absent => rfl
  | backed loc len elem shape =>
      simp only [movedTo, element?, loc?]
      change (if i < len ∧ n ≤ (backed loc len elem shape).dataBytes then _ else none) =
        Option.map _ (if i < len ∧ n ≤ (backed loc len elem shape).dataBytes then _ else none)
      split <;> rfl

theorem ListView.member_moved (v : ListView) (i : Nat) :
    (v.movedTo k).member i = (v.member i).movedTo k := by
  cases v with
  | absent => rfl
  | backed loc len elem shape =>
      cases elem with
      | composite =>
          simp only [movedTo, member]
          split <;> rfl
      | _ => rfl

end Slots

open Store

section Answers

variable {m k : Nat} {s t : Store} (h : Replica m k s t)
include h

theorem Store.readAt?_moved {loc? : Option Location}
    (hm : ∀ l, loc? = some l → l.segment.message = m) (w : Width) :
    t.readAt? (loc?.map (Location.movedTo k)) w = s.readAt? loc? w := by
  cases loc? with
  | none => rfl
  | some l => exact read_moved h (hm l rfl) w.bytes

theorem StructView.pointerAt_moved {v : StructView} (hv : (Pointer.struct v).In m) (i : Nat) :
    (v.movedTo k).pointerAt i t = Pointer.movedTo k <$> v.pointerAt i s := by
  rw [pointerAt, pointerAt, slot?_moved]
  cases hl : v.slot? i with
  | none => rfl
  | some l =>
      obtain ⟨loc, shape, member, rfl, _, rfl⟩ := slot?_eq_some.mp hl
      exact Store.pointerAt_moved h (hv loc rfl)

theorem ListView.pointerAt_moved {v : ListView} (hv : (Pointer.list v).In m) (i : Nat) :
    (v.movedTo k).pointerAt i t = Pointer.movedTo k <$> v.pointerAt i s := by
  rw [pointerAt, pointerAt, slot?_moved]
  cases hl : v.slot? i with
  | none => rfl
  | some l =>
      obtain ⟨loc, len, shape, rfl, _, rfl⟩ := slot?_eq_some.mp hl
      exact Store.pointerAt_moved h (hv loc rfl)

omit h in
theorem lenient_moved (r : Except Abort Pointer) :
    lenient (Pointer.movedTo k <$> r) = Pointer.movedTo k <$> lenient r := by
  cases r with
  | ok p => rfl
  | error e => cases e <;> rfl

omit h in
theorem Pointer.toStruct_moved (p : Pointer) : (p.movedTo k).toStruct = p.toStruct.movedTo k := by
  cases p <;> rfl

theorem StructView.get_moved {v : StructView} (hv : (Pointer.struct v).In m) (w : Width)
    (off : Nat) : (v.movedTo k).get w off t = v.get w off s := by
  rw [get, get, field?_moved]
  refine readAt?_moved h (fun l hl => ?_) w
  obtain ⟨loc, shape, member, rfl, _, rfl⟩ := field?_eq_some.mp hl
  exact hv loc rfl

theorem ListView.get_moved {v : ListView} (hv : (Pointer.list v).In m) (w : Width) (i : Nat) :
    (v.movedTo k).get w i t = v.get w i s := by
  rw [get, get, element?_moved]
  refine readAt?_moved h (fun l hl => ?_) w
  obtain ⟨loc, len, elem, shape, rfl, hkind⟩ := element?_eq_some hl
  rcases hkind with ⟨_, _, _, rfl⟩ | ⟨_, _, _, _, rfl⟩
  · exact hv loc rfl
  · exact hv loc rfl

theorem ListView.getBit_moved {v : ListView} (hv : (Pointer.list v).In m) (i : Nat) :
    (v.movedTo k).getBit i t = v.getBit i s := by
  have hread : t.readAt? ((v.movedTo k).bit? i) .one = s.readAt? (v.bit? i) .one := by
    rw [bit?_moved]
    refine readAt?_moved h (fun l hl => ?_) .one
    obtain ⟨loc, len, shape, off, rfl, _, rfl⟩ := bit?_eq_some hl
    exact hv loc rfl
  rw [getBit, getBit, readBitAt?, readBitAt?, hread]

theorem StructView.getBit_moved {v : StructView} (hv : (Pointer.struct v).In m) (n : Nat) :
    (v.movedTo k).getBit n t = v.getBit n s := by
  have hread := StructView.get_moved h hv .one (Layout.bitByte n)
  simp only [get, Width.bytes] at hread
  rw [getBit, getBit, readBitAt?, readBitAt?, hread]

theorem Query.answer_moved {q : Query} (hq : q.About m) :
    (q.movedTo k).answer t = Pointer.movedTo k <$> q.answer s := by
  cases q with
  | pointerAt slot => exact Store.pointerAt_moved h hq
  | root msg =>
      subst hq
      exact Store.pointerAt_moved h (l := rootSlot msg) rfl
  | rootView msg =>
      subst hq
      have hroot : t.root k = Pointer.movedTo k <$> s.root msg :=
        Store.pointerAt_moved h (l := rootSlot msg) rfl
      simp only [movedTo, answer, Store.rootView, hroot, lenient_moved]
      cases lenient (s.root msg) with
      | ok p => exact congrArg (fun v => Except.ok (Pointer.struct v)) p.toStruct_moved
      | error e => rfl
  | field v i => exact StructView.pointerAt_moved h hq i
  | fieldOrNull v i =>
      exact (congrArg lenient (StructView.pointerAt_moved h hq i)).trans (lenient_moved _)
  | element v i => exact ListView.pointerAt_moved h hq i
  | elementOrNull v i =>
      exact (congrArg lenient (ListView.pointerAt_moved h hq i)).trans (lenient_moved _)
  | member v i => exact congrArg (fun v => Except.ok (Pointer.struct v)) (v.member_moved k i)

theorem Reading.answer_moved {r : Reading} (hr : r.About m) :
    (r.movedTo k).answer t = r.answer s := by
  cases r with
  | field v w off => exact StructView.get_moved h hr w off
  | fieldBit v n => exact congrArg (Bool.toNat <$> ·) (StructView.getBit_moved h hr n)
  | element v w i => exact ListView.get_moved h hr w i
  | elementBit v i => exact congrArg (Bool.toNat <$> ·) (ListView.getBit_moved h hr i)

end Answers

end SegmentedMessage
