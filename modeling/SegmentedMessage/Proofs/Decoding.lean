import SegmentedMessage.Proofs.Target

namespace SegmentedMessage

open Store

theorem PointerWord.ofTag_tagLength {w : PointerWord} (h : w.kind = .struct) :
    ofTag w.tagLength w.shape = w := by
  obtain ⟨low, high⟩ := w
  have hlow := low_of_kind h
  have hbits := shapeBits_shape ⟨low, high⟩
  have hl := low.toNat_lt
  have hh := high.toNat_lt
  simp only [Kind.code] at hlow
  simp only [ofTag, tagLength, hbits, mk.injEq, ← UInt32.toNat_inj, UInt32.toNat_ofNat']
  omega

namespace Pointer

def Tag : Pointer → Location → Prop
  | .list (.backed loc _ .composite _), l => { loc with address := loc.address - 8 }.Extent 8 l
  | _, _ => False

theorem not_tag {loc k : Location} {len : Nat} {elem : ElementKind} {shape : StructShape}
    (h : elem ≠ .composite) : ¬ (list (.backed loc len elem shape)).Tag k := by
  cases elem with
  | composite => exact absurd rfl h
  | _ => exact id

/-- A pointer that slots can hold: to a whole struct, or to a list as its word and its tag tell it. -/
def Whole (s : Store) : Pointer → Prop
  | .struct v => v.isMember = true → v.shape.isEmpty = true
  | .list (.backed loc len .composite shape) =>
    s.wordAt { loc with address := loc.address - 8 } = .ofTag len shape
  | .list (.backed _ _ _ shape) => shape = .empty
  | _ => True

def Aligned (p : Pointer) : Prop :=
  ∀ l, p.loc? = some l → l.address % 8 = 0

end Pointer

namespace Store

section Whole

variable (s : Store)

theorem readPlain_whole (t : Target) {elem : ElementKind} (he : elem ≠ .composite) :
    Answers (s.readPlain t elem) (fun v => (Pointer.list v).Whole s ∧
      (t.address % 8 = 0 → (Pointer.list v).Aligned)) failed := by
  unfold readPlain
  refine Answers.bind covers_locate fun loc hloc => ⟨?_, fun ha l hl => ?_⟩
  · cases elem with
    | composite => exact absurd rfl he
    | _ => rfl
  · cases hl
    have := hloc.2.2
    omega

theorem readComposite_whole (t : Target) :
    Answers (s.readComposite t) (fun v => (Pointer.list v).Whole s ∧
      (t.address % 8 = 0 → (Pointer.list v).Aligned)) failed := by
  unfold readComposite
  refine Answers.bind covers_locate fun loc hloc => ?_
  refine Answers.bind (readWord_answers (covers_take hloc.2.1 (by omega))) fun tag htag => ?_
  dsimp only
  split
  · exact ⟨_, rfl⟩
  · rename_i hfits
    simp only [not_or, Decidable.not_not] at hfits
    refine ⟨?_, fun ha l hl => ?_⟩
    · rw [Pointer.Whole, PointerWord.ofTag_tagLength hfits.1, htag]
      rfl
    · cases hl
      have := hloc.2.2
      rw [Location.shift_address]
      omega

theorem readTarget_whole (t : Target) :
    Answers (s.readTarget t) (fun p => p.Whole s ∧ (t.address % 8 = 0 → p.Aligned)) failed := by
  unfold readTarget
  split
  · refine (readStruct_answers s t).map ?_
    rintro v ⟨loc, rfl, _, _, hloc⟩
    refine ⟨by rintro ⟨⟩, fun ha l hl => ?_⟩
    cases hl
    omega
  · unfold readList
    split
    · exact (readComposite_whole s t).map fun _ h => h
    · rename_i hne
      exact (readPlain_whole s t hne).map fun _ h => h
  · split
    · exact ⟨trivial, fun _ l hl => nomatch hl⟩
    · exact ⟨_, rfl⟩

theorem targetFrom_mod {address : Nat} (h : address % 8 = 0) (w : PointerWord) :
    targetFrom address w % 8 = 0 := by
  simp only [targetFrom]
  omega

theorem wordAddress_mod (w : Nat) : Layout.wordAddress w % 8 = 0 :=
  Nat.mul_mod_left w 8

theorem locate_aligned {l : Location} (ha : l.address % 8 = 0) (w : PointerWord) :
    Answers (s.locate l w) (fun t => t.address % 8 = 0) failed := by
  refine (locate_follows s l w).mono (fun t ht => ?_) fun _ h => h
  cases ht with
  | near => exact targetFrom_mod ha w
  | single pad _ _ hpad =>
      subst hpad
      exact targetFrom_mod (wordAddress_mod w.padWord) _
  | double pad =>
      have hmod := wordAddress_mod (s.wordAt pad).padWord
      dsimp only
      omega

theorem pointerAt_whole (l : Location) :
    Answers (s.pointerAt l) (fun p => p.Whole s ∧ (l.address % 8 = 0 → p.Aligned)) failed := by
  unfold pointerAt
  split
  · rename_i hc
    refine Answers.bind (readWord_answers hc) fun w _ => ?_
    split
    · exact ⟨trivial, fun _ k hk => nomatch hk⟩
    · by_cases ha : l.address % 8 = 0
      · refine Answers.bind (locate_aligned s ha w) fun t ht => ?_
        exact (readTarget_whole s t).mono (fun p hp => ⟨hp.1, fun _ => hp.2 ht⟩) fun _ h => h
      · refine Answers.bind (locate_answers s l w) fun t _ => ?_
        exact (readTarget_whole s t).mono (fun p hp => ⟨hp.1, fun h => absurd h ha⟩) fun _ h => h
  · exact ⟨_, rfl⟩

end Whole

end Store

theorem Except.bind_congr {ε α β : Type} {x : Except ε α} {f g : α → Except ε β}
    (h : ∀ a, x = .ok a → f a = g a) : (x >>= f) = x >>= g := by
  cases x with
  | ok a => exact h a rfl
  | error e => rfl

def Refines {ε α : Type} (x y : Except ε α) : Prop :=
  ∀ a, x = .ok a → y = .ok a

section Refines

variable {ε α β : Type} {x y : Except ε α}

theorem Refines.refl (x : Except ε α) : Refines x x :=
  fun _ h => h

theorem Refines.of_error (e : ε) (y : Except ε α) : Refines (.error e) y :=
  fun _ h => nomatch h

theorem Refines.bind {f g : α → Except ε β} (h : Refines x y)
    (hf : ∀ a, x = .ok a → Refines (f a) (g a)) : Refines (x >>= f) (y >>= g) := by
  intro b hb
  cases hx : x with
  | error e =>
      rw [hx] at hb
      cases hb
  | ok a =>
      rw [hx] at hb
      rw [h a hx]
      exact hf a hx b hb

theorem Refines.map {f : α → β} (h : Refines x y) : Refines (f <$> x) (f <$> y) := by
  intro b hb
  cases hx : x with
  | error e =>
      rw [hx] at hb
      cases hb
  | ok a =>
      rw [hx] at hb
      rw [h a hx]
      exact hb

end Refines

def PointerWord.pad (m : Nat) (w : PointerWord) : Location :=
  ⟨⟨m, w.padSegment⟩, Layout.wordAddress w.padWord⟩

def PointerWord.padBytes (w : PointerWord) : Nat :=
  if w.isDouble then 16 else 8

def Target.start (x : Target) : Location :=
  ⟨x.segment, x.address.toNat⟩

namespace Store

/-- The bytes that decoding a slot reads: its word, the landing pad, and the tag of a composite
list. -/
inductive Consults (s : Store) (slot : Location) : Location → Prop where
  | word {k : Location} (h : slot.Extent 8 k) : Consults s slot k
  | pad {k : Location} (hfar : (s.wordAt slot).kind = .far)
      (h : ((s.wordAt slot).pad slot.segment.message).Extent (s.wordAt slot).padBytes k) :
      Consults s slot k
  | tag {x : Target} {k : Location} (hx : s.locate slot (s.wordAt slot) = .ok x)
      (hlist : x.word.kind = .list) (hcomp : x.word.element = .composite)
      (h : x.start.Extent 8 k) : Consults s slot k

theorem eq_start {x : Target} {l : Location} (hs : l.segment = x.segment)
    (ha : (l.address : Int) = x.address) : l = x.start := by
  rw [Target.start, ← hs, ← ha, Int.toNat_natCast]

structure SameBut (m : Nat) (D : Location → Prop) (s t : Store) : Prop where
  count : t.count m = s.count m
  length : ∀ r : SegmentRef, r.message = m → (t.contents r).length = (s.contents r).length
  byte : ∀ l : Location, l.segment.message = m → ¬ D l →
    (t.contents l.segment)[l.address]? = (s.contents l.segment)[l.address]?

section SameBut

variable {m : Nat} {D : Location → Prop} {s t : Store}

theorem SameBut.of_message (h : t.message m = s.message m) : s.SameBut m D t where
  count := by rw [Store.count, Store.count, h]
  length r hr := by rw [contents, contents, arena_congr h hr]
  byte l hl _ := by rw [contents, contents, arena_congr h hl]

variable (h : s.SameBut m D t)
include h

theorem SameBut.covers {l : Location} (hl : l.segment.message = m) (n : Nat) :
    t.covers l n = s.covers l n := by
  rw [Bool.eq_iff_iff, covers_iff, covers_iff, hl, h.count, h.length _ hl]

theorem SameBut.range {l : Location} (hl : l.segment.message = m) {n : Nat}
    (hD : ∀ k, l.Extent n k → ¬ D k) : t.range l n = s.range l n :=
  window_congr fun i hi hin => h.byte ⟨l.segment, i⟩ hl (hD _ ⟨rfl, hi, hin⟩)

theorem readWord_congr {l : Location} (hl : l.segment.message = m) (hc : s.covers l 8 = true)
    (hD : ∀ k, l.Extent 8 k → ¬ D k) : t.readWord l = s.readWord l := by
  have hc' : t.covers l 8 = true := (h.covers hl 8).trans hc
  rw [readWord_eq hc, readWord_eq hc', wordAt, wordAt, h.range hl hD]

theorem checkRange_congr {r : SegmentRef} (hr : r.message = m) (address : Int) (n : Nat) :
    t.checkRange r address n = s.checkRange r address n := by
  have hc := h.covers (l := ⟨r, address.toNat⟩) hr n
  simp only [checkRange, hc]

theorem segment_congr (id : Nat) : t.segment m id = s.segment m id := by
  have hcount : (t.message m).arena.count = (s.message m).arena.count := h.count
  rw [segment, segment, hcount]

theorem locateSingle_congr {pad : Location} (hp : pad.segment.message = m) (w : PointerWord)
    (hD : ∀ k, pad.Extent 8 k → ¬ D k) : t.locateSingle w pad = s.locateSingle w pad := by
  rw [locateSingle, locateSingle, h.covers hp]
  split
  · rename_i hc
    rw [readWord_congr h hp hc hD]
  · rfl

theorem locateDouble_congr {pad : Location} (hp : pad.segment.message = m) (w : PointerWord)
    (hD : ∀ k, pad.Extent 16 k → ¬ D k) : t.locateDouble w pad = s.locateDouble w pad := by
  rw [locateDouble, locateDouble, h.covers hp]
  split
  · rename_i hc
    have hnext : (pad.shift 8).segment.message = m := hp
    rw [readWord_congr h hp (covers_take hc (by omega)) fun k hk => hD k (hk.mono (by omega)),
      readWord_congr h hnext (covers_shift hc (Nat.le_refl 16)) fun k hk => hD k hk.of_shift, hp]
    simp only [segment_congr h]
  · rfl

theorem locate_congr {l : Location} (hl : l.segment.message = m) {w : PointerWord}
    (hD : w.kind = .far → ∀ k, (w.pad m).Extent w.padBytes k → ¬ D k) :
    t.locate l w = s.locate l w := by
  rw [locate, locate, hl]
  split
  · rename_i hfar
    have hpad := hD hfar
    rw [locateFar, locateFar, segment_congr h]
    refine Except.bind_congr fun r hr => ?_
    obtain rfl := ((segment_answers s _ _).of_ok hr).1
    simp only [PointerWord.pad, PointerWord.padBytes] at hpad
    dsimp only
    split
    · rename_i hdouble
      rw [if_pos hdouble] at hpad
      exact locateDouble_congr h rfl w hpad
    · rename_i hsingle
      rw [if_neg hsingle] at hpad
      exact locateSingle_congr h rfl w hpad
  · rfl

theorem readComposite_congr {x : Target} (hx : x.segment.message = m)
    (hD : ∀ k, x.start.Extent 8 k → ¬ D k) : t.readComposite x = s.readComposite x := by
  simp only [readComposite, checkRange_congr h hx]
  refine Except.bind_congr fun l hl => ?_
  obtain ⟨hseg, hc, haddr⟩ := covers_locate.of_ok hl
  obtain rfl := eq_start hseg haddr
  rw [readWord_congr h hx (covers_take hc (by omega)) hD]

theorem readTarget_congr {x : Target} (hx : x.segment.message = m)
    (hD : x.word.kind = .list → x.word.element = .composite → ∀ k, x.start.Extent 8 k → ¬ D k) :
    t.readTarget x = s.readTarget x := by
  unfold readTarget
  split
  · rw [readStruct, readStruct, checkRange_congr h hx]
  · rename_i hlist
    unfold readList
    split
    · rename_i hcomp
      rw [readComposite_congr h hx (hD hlist hcomp)]
    · rw [readPlain, readPlain, checkRange_congr h hx]
  · rfl

theorem pointerAt_congr {l : Location} (hl : l.segment.message = m)
    (hD : ∀ k, s.Consults l k → ¬ D k) : t.pointerAt l = s.pointerAt l := by
  rw [pointerAt, pointerAt, h.covers hl]
  split
  · rename_i hc
    rw [readWord_congr h hl hc fun k hk => hD k (.word hk)]
    refine Except.bind_congr fun w hw => ?_
    obtain rfl := (readWord_answers hc).of_ok hw
    split
    · rfl
    · rw [locate_congr h hl fun hfar k hk => hD k (.pad hfar (hl ▸ hk))]
      refine Except.bind_congr fun x hx => ?_
      have hseg := (locate_answers s l _).of_ok hx
      exact readTarget_congr h (hseg.trans hl) fun hlist hcomp k hk => hD k (.tag hx hlist hcomp hk)
  · rfl

end SameBut

section Kept

variable {m : Nat} {free : Location → Prop} {s t : Store} (h : s.Extends m free t)
include h

theorem checkRange_kept (r : SegmentRef) (address : Int) (n : Nat) :
    Refines (s.checkRange r address n) (t.checkRange r address n) := by
  intro l hl
  simp only [checkRange] at hl ⊢
  split at hl
  · rename_i hin
    rw [if_pos ⟨hin.1, hin.2.1, h.covers hin.2.2⟩]
    exact hl
  · cases hl

theorem segment_kept (k id : Nat) : Refines (s.segment k id) (t.segment k id) := by
  intro r hr
  have hcount := h.count_le k
  simp only [segment] at hr ⊢
  split at hr
  · rename_i hid
    have hlater : id < (t.message k).arena.count := Nat.lt_of_lt_of_le hid hcount
    rw [if_pos hlater]
    exact hr
  · cases hr

theorem readWord_kept {l : Location} (hc : s.covers l 8 = true)
    (hf : ∀ k, l.Extent 8 k → ¬ free k) : Refines (s.readWord l) (t.readWord l) := by
  rw [readWord_eq hc, readWord_eq (h.covers hc), h.wordAt_eq hc hf]
  exact .refl _

theorem locateSingle_kept (w : PointerWord) {pad : Location}
    (hf : ∀ k, pad.Extent 8 k → ¬ free k) :
    Refines (s.locateSingle w pad) (t.locateSingle w pad) := by
  unfold locateSingle
  split
  · rename_i hc
    rw [if_pos (h.covers hc)]
    exact (readWord_kept h hc hf).bind fun land _ => .refl _
  · exact .of_error _ _

theorem locateDouble_kept (w : PointerWord) {pad : Location}
    (hf : ∀ k, pad.Extent 16 k → ¬ free k) :
    Refines (s.locateDouble w pad) (t.locateDouble w pad) := by
  unfold locateDouble
  split
  · rename_i hc
    have hnext (k : Location) (hk : (pad.shift 8).Extent 8 k) : ¬ free k := hf k hk.of_shift
    rw [if_pos (h.covers hc)]
    refine (readWord_kept h (covers_take hc (by omega)) fun k hk => hf k (hk.mono (by omega))).bind
      fun land _ => ?_
    refine (readWord_kept h (covers_shift hc (Nat.le_refl 16)) hnext).bind fun tag _ => ?_
    split
    · exact .of_error _ _
    · exact (segment_kept h _ _).bind fun _ _ => .refl _
  · exact .of_error _ _

theorem locate_kept (l : Location) {w : PointerWord}
    (hf : w.kind = .far → ∀ k, (w.pad l.segment.message).Extent w.padBytes k → ¬ free k) :
    Refines (s.locate l w) (t.locate l w) := by
  unfold locate
  split
  · rename_i hfar
    have hpad := hf hfar
    refine (segment_kept h _ _).bind fun r hr => ?_
    obtain rfl := ((segment_answers s _ _).of_ok hr).1
    dsimp only
    simp only [PointerWord.pad, PointerWord.padBytes] at hpad
    split
    · rename_i hdouble
      rw [if_pos hdouble] at hpad
      exact locateDouble_kept h w hpad
    · rename_i hsingle
      rw [if_neg hsingle] at hpad
      exact locateSingle_kept h w hpad
  · exact .refl _

theorem readComposite_kept {x : Target} (hf : ∀ k, x.start.Extent 8 k → ¬ free k) :
    Refines (s.readComposite x) (t.readComposite x) := by
  unfold readComposite
  refine (checkRange_kept h _ _ _).bind fun loc hloc => ?_
  obtain ⟨hseg, hc, haddr⟩ := covers_locate.of_ok hloc
  obtain rfl := eq_start hseg haddr
  exact (readWord_kept h (covers_take hc (by omega)) hf).bind fun tag _ => .refl _

theorem readTarget_kept {x : Target} (hf : x.word.kind = .list → x.word.element = .composite →
    ∀ k, x.start.Extent 8 k → ¬ free k) : Refines (s.readTarget x) (t.readTarget x) := by
  unfold readTarget
  split
  · unfold readStruct
    exact ((checkRange_kept h _ _ _).bind fun _ _ => .refl _).map
  · rename_i hlist
    unfold readList
    split
    · rename_i hcomp
      exact (readComposite_kept h (hf hlist hcomp)).map
    · unfold readPlain
      exact ((checkRange_kept h _ _ _).bind fun _ _ => .refl _).map
  · exact .refl _

theorem pointerAt_kept {l : Location} (hf : ∀ k, s.Consults l k → ¬ free k) :
    Refines (s.pointerAt l) (t.pointerAt l) := by
  unfold pointerAt
  split
  · rename_i hc
    rw [if_pos (h.covers hc)]
    refine (readWord_kept h hc fun k hk => hf k (.word hk)).bind fun w hw => ?_
    obtain rfl := (readWord_answers hc).of_ok hw
    split
    · exact .refl _
    · refine (locate_kept h l fun hfar k hk => hf k (.pad hfar hk)).bind fun x hx => ?_
      exact readTarget_kept h fun hlist hcomp k hk => hf k (.tag hx hlist hcomp hk)
  · exact .of_error _ _

end Kept

theorem readComposite_tag (s : Store) (x : Target) :
    Answers (s.readComposite x) (fun v => ∀ k, (Pointer.list v).Tag k → x.start.Extent 8 k)
      failed := by
  unfold readComposite
  refine Answers.bind covers_locate ?_
  rintro loc ⟨hseg, hc, haddr⟩
  obtain rfl := eq_start hseg haddr
  refine Answers.bind (readWord_answers (covers_take hc (by omega))) fun tag _ => ?_
  dsimp only
  split
  · exact ⟨_, rfl⟩
  · exact fun k hk => hk

theorem pointerAt_consults (s : Store) (l : Location) :
    Answers (s.pointerAt l) (fun p => ∀ k, p.Tag k → s.Consults l k) failed := by
  unfold pointerAt
  split
  · rename_i hc
    refine Answers.bind (readWord_answers hc) ?_
    rintro w rfl
    split
    · exact fun _ hk => hk.elim
    · have hx := locate_answers s l (s.wordAt l)
      cases hr : s.locate l (s.wordAt l) with
      | error e => exact hx.of_error hr
      | ok x =>
          change Answers (s.readTarget x) _ _
          unfold readTarget
          split
          · refine (readStruct_answers s x).map ?_
            rintro v ⟨loc, rfl, _⟩ k hk
            exact hk.elim
          · rename_i hlist
            unfold readList
            split
            · rename_i hcomp
              refine (readComposite_tag s x).map fun v hv k hk => ?_
              exact .tag hr hlist hcomp (hv k hk)
            · rename_i hne
              refine (readPlain_answers s x hne).map ?_
              rintro v ⟨loc, rfl, _⟩ k hk
              exact (Pointer.not_tag hne hk).elim
          · split
            · exact fun _ hk => hk.elim
            · exact ⟨_, rfl⟩
  · exact ⟨_, rfl⟩

end Store

namespace StructView

theorem pointerAt_whole (v : StructView) (i : Nat) (s : Store) :
    Answers (v.pointerAt i s)
      (fun p => p.Whole s ∧ ((∀ l, v.slot? i = some l → l.address % 8 = 0) → p.Aligned))
      Store.failed := by
  unfold pointerAt
  split
  · rename_i l hl
    exact (Store.pointerAt_whole s l).mono (fun _ hp => ⟨hp.1, fun h => hp.2 (h l hl)⟩) fun _ h => h
  · exact ⟨trivial, fun _ _ hl => nomatch hl⟩

end StructView

end SegmentedMessage
