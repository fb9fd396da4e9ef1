import Mathlib.Data.List.Chain
import SegmentedMessage.Proofs.StructCopy

namespace SegmentedMessage

open Store Copy

theorem fill_mirrors (c : CopyScope) {loc loc' : Location} {shape shape' : StructShape}
    {member member' : Bool} {st : CopyState} (hv : st.store.Valid)
    (hd : (StructView.backed loc shape member).Inside st.store) (ha : loc.address % 8 = 0)
    (hs : (StructView.backed loc' shape' member').Inside st.store)
    (hne : loc'.segment.message ≠ loc.segment.message) :
    Outcome (fill c (.backed loc shape member) (.backed loc' shape' member')) st
      (fun _ t => st.store.Extends loc.segment.message (loc.Extent shape.bytes) t.store ∧
        (t.store.Numbered loc.segment.message → (StructView.backed loc' shape' member').Mirrors
          (.backed loc shape member) st.store t.store (min shape.data shape'.data)
          (min shape.slots.toNat shape'.slots.toNat))) fun _ _ => True := by
  have hclear : (StructView.backed loc' shape' member').ClearOf st.store loc shape := by
    rintro _ ⟨⟩ hm
    exact absurd hm hne
  have hstaged := fill_staged c hv hd ha hs hclear
  refine (Outcome.and hstaged (fill_confined c loc shape member _ st)).mono ?_ fun _ _ _ => trivial
  rintro _ t ⟨⟨hto, hnull⟩, he⟩
  refine ⟨he, fun hids => Overlaid.mirrors hto.data hs (hd.mono he) (fun i hi => ?_) hnull⟩
  obtain ⟨p, q, k, T, hp, hq, _, _, hT, hU⟩ := (hto.slots hids i hi).cloned loc' rfl hne
  rw [← Location.shift_shift] at hq
  exact ⟨p, q, k, T, hp, (StructView.pointerAt_eq (Nat.lt_min.mp hi).1 t.store).trans hq, hT, hU⟩

namespace StructView

theorem Mirrors.trans {u v w : StructView} {s t r : Store} {data data' slots slots' : Nat}
    (h : u.Mirrors v s t data slots) (h' : v.Mirrors w t r data' slots') :
    u.Mirrors w s r (min data data') (min slots slots') := by
  refine .of_fields (fun x off hoff hin => ?_) (fun x off hoff hout => ?_) (fun i hi => ?_)
    fun i hi => ?_
  · have hboth := Nat.le_min.mp hin
    obtain ⟨n, hu, hv⟩ := h.field x off hoff hboth.1
    obtain ⟨n', hv', hw⟩ := h'.field x off hoff hboth.2
    obtain rfl := Except.ok.inj (hv.symm.trans hv')
    exact ⟨n, hu, hw⟩
  · rcases Nat.lt_or_ge data' (off + x.bytes) with hbeyond | hin
    · exact h'.blank x off hoff hbeyond
    · obtain ⟨n, hv, hw⟩ := h'.field x off hoff hin
      have hzero := h.blank x off hoff (by omega)
      rw [hw, hv.symm.trans hzero]
  · have hboth := Nat.lt_min.mp hi
    obtain ⟨p, q, k, T, hu, hv, hT, hT'⟩ := h.slot i hboth.1
    obtain ⟨q', o, k', U, hv', hw, hU, hU'⟩ := h'.slot i hboth.2
    obtain rfl := Except.ok.inj (hv.symm.trans hv')
    obtain rfl := tree?_unique hT' hU
    exact ⟨p, o, max k k', T, hu, hw, tree?_mono (Nat.le_max_left k k') hT,
      tree?_mono (Nat.le_max_right k k') hU'⟩
  · rcases Nat.lt_or_ge i slots' with hin | hbeyond
    · obtain ⟨q, o, k, T, hv, hw, hT, hT'⟩ := h'.slot i hin
      obtain rfl := Except.ok.inj (hv.symm.trans (h.null i (by omega)))
      obtain rfl := tree?_null hT
      rw [hw, ((pointerAt_answers w i r).of_ok hw).2.2.1 (isBacked_of_null hT')]
    · exact h'.null i hbeyond

theorem Mirrors.same {u v : StructView} {s t : Store}
    (h : u.Mirrors v s t u.shape.data u.shape.slots.toNat) :
    (∀ (w : Width) off, off % w.bytes = 0 → v.get w off t = u.get w off s) ∧
      (∀ n, v.getBit n t = u.getBit n s) ∧
      ∀ i, ∃ p q k T, u.pointerAt i s = .ok p ∧ v.pointerAt i t = .ok q ∧
        s.tree? k p = some T ∧ t.tree? k q = some T := by
  refine ⟨fun w off hoff => ?_, fun n => ?_, fun i => ?_⟩
  · rcases Nat.lt_or_ge u.shape.data (off + w.bytes) with hbeyond | hin
    · rw [h.blank w off hoff hbeyond, get_beyond hbeyond]
    · obtain ⟨n, hu, hv⟩ := h.field w off hoff hin
      rw [hu, hv]
  · rcases Nat.lt_or_ge n (8 * u.shape.data) with hin | hbeyond
    · obtain ⟨b, hu, hv⟩ := h.bit n hin
      rw [hu, hv]
    · have hbyte : u.shape.data < Layout.bitByte n + Width.one.bytes := by
        simp only [Layout.bitByte, Width.bytes]
        omega
      rw [h.unset n hbeyond, getBit_eq, get_beyond hbyte]
      exact congrArg Except.ok (testBit_zero n).symm
  · rcases Nat.lt_or_ge i u.shape.slots.toNat with hin | hbeyond
    · exact h.slot i hin
    · exact ⟨.null, .null, 1, .null, pointerAt_beyond hbeyond, h.null i hbeyond, rfl, rfl⟩

def migrate : StructView → List StructView → StoreM Unit
  | _, [] => pure ()
  | src, v :: vs => do
    v.replaceBy src
    migrate v vs

def least (size : StructView → Nat) : StructView → List StructView → Nat
  | v, [] => size v
  | v, w :: ws => min (size v) (least size w ws)

section Least

variable {size : StructView → Nat} {v : StructView} {vs : List StructView}

theorem least_le : least size v vs ≤ size v := by
  cases vs with
  | nil => exact Nat.le_refl _
  | cons w ws => exact Nat.min_le_left _ _

theorem le_least {n : Nat} (h : ∀ w ∈ v :: vs, n ≤ size w) : n ≤ least size v vs := by
  induction vs generalizing v with
  | nil => exact h v (List.mem_cons_self ..)
  | cons w ws ih =>
    exact Nat.le_min.mpr ⟨h v (List.mem_cons_self ..), ih fun x hx => h x (List.mem_cons_of_mem _ hx)⟩

theorem least_eq (h : ∀ w ∈ vs, size v ≤ size w) : least size v vs = size v := by
  refine Nat.le_antisymm least_le (le_least fun w hw => ?_)
  rcases List.mem_cons.mp hw with rfl | hw
  · exact Nat.le_refl _
  · exact h w hw

end Least

theorem least_cons (size : StructView → Nat) (u v : StructView) (vs : List StructView) :
    min (min (size u) (size v)) (least size v vs) = least size u (v :: vs) := by
  rw [Nat.min_assoc, Nat.min_eq_right least_le, least]

def Elsewhere (v w : StructView) : Prop :=
  ∀ l k, v.loc? = some l → w.loc? = some k → l.segment.message ≠ k.segment.message

structure Ready (s : Store) (v : StructView) : Prop where
  inside : v.Inside s
  placed : ∃ loc, v.loc? = some loc ∧ loc.address % 8 = 0

theorem Ready.backed {s : Store} {v : StructView} (h : v.Ready s) :
    ∃ loc shape member, v = .backed loc shape member ∧ loc.address % 8 = 0 := by
  obtain ⟨_, loc, hloc, ha⟩ := h
  cases v with
  | absent => cases hloc
  | backed _ shape member =>
    cases hloc
    exact ⟨loc, shape, member, rfl, ha⟩

theorem replaceBy_mirrors {src dst : StructView} {s : Store} (hv : s.Valid) (hsrc : src.Ready s)
    (hdst : dst.Ready s) (hne : src.Elsewhere dst) :
    Outcome (dst.replaceBy src) s
      (fun _ t => (∃ m free, s.Extends m free t) ∧ ((∀ m, t.Numbered m) →
        src.Mirrors dst s t (min src.shape.data dst.shape.data)
          (min src.shape.slots.toNat dst.shape.slots.toNat)))
      fun _ _ => True := by
  obtain ⟨loc', shape', member', rfl, _⟩ := hsrc.backed
  obtain ⟨loc, shape, member, rfl, ha⟩ := hdst.backed
  have hother : loc'.segment.message ≠ loc.segment.message := hne loc' loc rfl rfl
  have hfill : Outcome (fill (.top (s.message loc.segment.message).depthLimit)
      (.backed loc shape member) (.backed loc' shape' member'))
      ⟨s, (s.message loc.segment.message).copyBudget⟩ _ _ :=
    fill_mirrors _ hv hdst.inside ha hsrc.inside hother
  change Outcome (withinLimits loc.segment.message fun c => fill c (.backed loc shape member)
    (.backed loc' shape' member')) s _ _
  apply outcome_withinLimits
  refine hfill.mono ?_ fun _ _ h => h
  rintro _ t ⟨he, hmirrors⟩
  refine ⟨⟨_, _, he⟩, fun hids => ?_⟩
  have hall := hmirrors (hids _)
  rw [Nat.min_comm shape.data, Nat.min_comm shape.slots.toNat] at hall
  exact hall

theorem Ready.later {s t : Store} {m : Nat} {free : Location → Prop} {v : StructView}
    (h : v.Ready s) (he : s.Extends m free t) : v.Ready t :=
  ⟨h.inside.mono he, h.placed⟩

theorem migrate_mirrors {src dst : StructView} {rest : List StructView} {s : Store} (hv : s.Valid)
    (hready : ∀ v ∈ src :: dst :: rest, v.Ready s)
    (hchain : (src :: dst :: rest).IsChain Elsewhere) :
    Outcome (migrate src (dst :: rest)) s
      (fun _ t => (∀ m, s.count m ≤ t.count m) ∧ ((∀ m, t.Numbered m) →
        src.Mirrors (rest.getLastD dst) s t (least (·.shape.data) src (dst :: rest))
          (least (·.shape.slots.toNat) src (dst :: rest)))) fun _ _ => True := by
  -- the first copy mirrors what there was, and by induction the rest mirror the first copy
  induction rest generalizing src dst s with
  | nil =>
    have hstep := replaceBy_mirrors hv (hready src (by simp)) (hready dst (by simp)) hchain.rel
    refine Outcome.bind_of hstep (fun _ _ _ => trivial) ?_
    rintro _ t ⟨⟨_, _, he⟩, hmirrors⟩
    exact Outcome.pure ⟨he.count_le, hmirrors⟩
  | cons v vs ih =>
    have hstep := replaceBy_mirrors hv (hready src (by simp)) (hready dst (by simp)) hchain.rel
    refine Outcome.bind_of hstep (fun _ _ _ => trivial) ?_
    rintro _ t ⟨⟨_, _, he⟩, hfirst⟩
    have hlater (w : StructView) (hw : w ∈ dst :: v :: vs) : w.Ready t :=
      (hready w (List.mem_cons_of_mem src hw)).later he
    refine (ih (he.valid hv) hlater hchain.tail).mono ?_ fun _ _ h => h
    rintro _ u ⟨hcount, hrest⟩
    refine ⟨fun m => Nat.le_trans (he.count_le m) (hcount m), fun hids => ?_⟩
    have hboth := (hfirst fun m => Nat.le_trans (hcount m) (hids m)).trans (hrest hids)
    rw [least_cons (·.shape.data), least_cons (·.shape.slots.toNat)] at hboth
    rw [List.getLastD_cons]
    exact hboth

end StructView

open StructView

/-- The last of a row of versions, each copied from the one before in another message, reads as the
first did, as far as the least data section and the fewest slots reach. Where no version is smaller
than the first, it reads as the first did. -/
theorem migration_keeps_common {σ : Session}
    (h : Session.Reaches Session.Allows Session.empty σ) {src dst : StructView}
    {rest : List StructView}
    (hviews : ∀ v ∈ src :: dst :: rest, σ.Holds (.struct v) ∧
      ∃ loc, v.loc? = some loc ∧ loc.address % 8 = 0)
    (hchain : (src :: dst :: rest).IsChain Elsewhere) {t : Store}
    (hrun : migrate src (dst :: rest) σ.store = .ok () t) (hids : ∀ m, t.Numbered m) :
    src.Mirrors (rest.getLastD dst) σ.store t (least (·.shape.data) src (dst :: rest))
      (least (·.shape.slots.toNat) src (dst :: rest)) ∧
    ((∀ v ∈ dst :: rest, src.shape.data ≤ v.shape.data ∧
        src.shape.slots.toNat ≤ v.shape.slots.toNat) →
      (∀ (w : Width) off, off % w.bytes = 0 →
        (rest.getLastD dst).get w off t = src.get w off σ.store) ∧
      (∀ n, (rest.getLastD dst).getBit n t = src.getBit n σ.store) ∧
      ∀ i, ∃ p q k T, src.pointerAt i σ.store = .ok p ∧
        (rest.getLastD dst).pointerAt i t = .ok q ∧ σ.store.tree? k p = some T ∧
        t.tree? k q = some T) := by
  have hs : σ.Safe := h.safe Session.safe_empty
  have hready (v : StructView) (hv : v ∈ src :: dst :: rest) : v.Ready σ.store :=
    ⟨hs.holds (hviews v hv).1, (hviews v hv).2⟩
  have hmirrors := ((migrate_mirrors hs.valid hready hchain).of_ok hrun).2 hids
  refine ⟨hmirrors, fun hroom => ?_⟩
  have hdata : least (·.shape.data) src (dst :: rest) = src.shape.data :=
    least_eq fun v hv => (hroom v hv).1
  have hslots : least (·.shape.slots.toNat) src (dst :: rest) = src.shape.slots.toNat :=
    least_eq fun v hv => (hroom v hv).2
  rw [hdata, hslots] at hmirrors
  exact hmirrors.same

/-- A struct of one word and one slot, which points to a list, moves to another message, where it has
room for two of each, and back. -/
theorem migration_keeps_common_growShrink :
    let ρ := ((Session.empty.after (.creation (.opened
      [⟨#[0, 0, 0, 0, 1, 0, 1, 0, 1, 2, 3, 4, 5, 6, 7, 8,
        1, 0, 0, 0, 26, 0, 0, 0, 97, 98, 99, 0, 0, 0, 0, 0]⟩] []))).after
      (.creation (.message []))).after (.query (.rootView 0))
    let τ := ρ.after (.creation (.struct ⟨1, 0⟩ ⟨16, 2⟩))
    let σ := τ.after (.creation (.struct ⟨0, 0⟩ ⟨8, 1⟩))
    let src := StructView.backed ⟨⟨0, 0⟩, 8⟩ ⟨8, 1⟩ false
    let mid := StructView.backed ⟨⟨1, 0⟩, 8⟩ ⟨16, 2⟩ false
    let dst := StructView.backed ⟨⟨0, 1⟩, 0⟩ ⟨8, 1⟩ false
    ∃ t, migrate src [mid, dst] σ.store = .ok () t ∧
      dst.get .eight 0 t = src.get .eight 0 σ.store ∧
      ∃ p q k T, src.pointerAt 0 σ.store = .ok p ∧ dst.pointerAt 0 t = .ok q ∧
        σ.store.tree? k p = some T ∧ t.tree? k q = some T := by
  intro ρ τ σ src mid dst
  have hopened : Session.Reaches Session.Allows Session.empty ρ :=
    .tail (.tail (.single ⟨.creation (.opened _ []), trivial, rfl⟩)
      ⟨.creation (.message []), trivial, rfl⟩) ⟨.query (.rootView 0), trivial, rfl⟩
  have hgrow : ρ.Allows (.creation (.struct ⟨1, 0⟩ ⟨16, 2⟩)) :=
    (by decide +kernel : 1 < ρ.store.messages.size)
  have hshrink : τ.Allows (.creation (.struct ⟨0, 0⟩ ⟨8, 1⟩)) :=
    (by decide +kernel : 0 < τ.store.messages.size)
  have hreach : Session.Reaches Session.Allows Session.empty σ :=
    (hopened.tail ⟨_, hgrow, rfl⟩).tail ⟨_, hshrink, rfl⟩
  have hviews (v : StructView) (hv : v ∈ [src, mid, dst]) :
      σ.Holds (.struct v) ∧ ∃ loc, v.loc? = some loc ∧ loc.address % 8 = 0 := by
    simp only [List.mem_cons, List.not_mem_nil, or_false] at hv
    rcases hv with rfl | rfl | rfl
    · exact ⟨.inr (by decide +kernel), _, rfl, rfl⟩
    · exact ⟨.inr (by decide +kernel), _, rfl, rfl⟩
    · exact ⟨.inr (by decide +kernel), _, rfl, rfl⟩
  have hthere : src.Elsewhere mid := by
    rintro l k ⟨⟩ ⟨⟩
    decide
  have hback : mid.Elsewhere dst := by
    rintro l k ⟨⟩ ⟨⟩
    decide
  have hwell : Outcome.endsIn (migrate src [mid, dst]) σ.store (fun t =>
      decide (t.Numbered 0) && decide (t.Numbered 1) && decide (t.messages.size = 2)) = true := by
    decide +kernel
  obtain ⟨_, t, hrun, hsmall⟩ := Outcome.endsIn_iff.mp hwell
  obtain ⟨⟨hzero, hone⟩, hsize⟩ : (t.Numbered 0 ∧ t.Numbered 1) ∧ t.messages.size = 2 := by
    simpa only [Bool.and_eq_true, decide_eq_true_eq] using hsmall
  have hids (m : Nat) : t.Numbered m := by
    match m with
    | 0 => exact hzero
    | 1 => exact hone
    | m + 2 =>
      rw [Numbered, count, message_of_size_le (by omega)]
      exact Nat.zero_le _
  obtain ⟨_, hsame⟩ := @migration_keeps_common σ hreach src mid [dst] hviews
    (.cons_cons hthere (.cons_cons hback (.singleton dst))) t hrun hids
  obtain ⟨hfield, _, hslot⟩ := hsame fun v hv => by
    simp only [List.mem_cons, List.not_mem_nil, or_false] at hv
    rcases hv with rfl | rfl
    · decide
    · decide
  exact ⟨t, hrun, hfield .eight 0 rfl, hslot 0⟩

end SegmentedMessage
