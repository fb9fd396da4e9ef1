import SegmentedMessage.Copy.Budget
import SegmentedMessage.Message.Segment

/-!
How a run ends. `Outcome act s P E` says that `act`, started in `s`, either gives a result and a
state with `P`, or aborts with an error and a state with `E`.
-/

namespace SegmentedMessage

variable {ε σ α β : Type}

def Outcome (act : EStateM ε σ α) (s : σ) (P : α → σ → Prop) (E : ε → σ → Prop) : Prop :=
  match act s with
  | .ok a t => P a t
  | .error e t => E e t

namespace Outcome

variable {act : EStateM ε σ α} {s t : σ} {P Q : α → σ → Prop} {E F : ε → σ → Prop}

theorem iff_results : Outcome act s P E ↔
    (∀ a t, act s = .ok a t → P a t) ∧ ∀ e t, act s = .error e t → E e t := by
  unfold Outcome
  cases act s with
  | ok a t =>
      constructor
      · intro h
        refine ⟨?_, fun e u he => nomatch he⟩
        intro b u hb
        cases hb
        exact h
      · intro h
        exact h.1 a t rfl
  | error e t =>
      constructor
      · intro h
        refine ⟨fun a u ha => (nomatch ha), ?_⟩
        intro f u hf
        cases hf
        exact h
      · intro h
        exact h.2 e t rfl

theorem of_ok {a : α} (h : Outcome act s P E) (hr : act s = .ok a t) : P a t :=
  (iff_results.mp h).1 a t hr

theorem of_error {e : ε} (h : Outcome act s P E) (hr : act s = .error e t) : E e t :=
  (iff_results.mp h).2 e t hr

theorem mono (h : Outcome act s P E) (hP : ∀ a t, P a t → Q a t) (hE : ∀ e t, E e t → F e t) :
    Outcome act s Q F := by
  rw [iff_results]
  exact ⟨fun a t hr => hP a t (h.of_ok hr), fun e t hr => hE e t (h.of_error hr)⟩

theorem of_eq {act' : EStateM ε σ α} (he : act s = act' s) (h : Outcome act' s P E) :
    Outcome act s P E := by
  rwa [Outcome, he]

theorem and (h : Outcome act s P E) (h' : Outcome act s Q F) :
    Outcome act s (fun a t => P a t ∧ Q a t) (fun e t => E e t ∧ F e t) := by
  rw [iff_results]
  exact ⟨fun a t hr => ⟨h.of_ok hr, h'.of_ok hr⟩, fun e t hr => ⟨h.of_error hr, h'.of_error hr⟩⟩

theorem self (act : EStateM ε σ α) (s : σ) :
    Outcome act s (fun a t => act s = .ok a t) fun e t => act s = .error e t :=
  iff_results.mpr ⟨fun _ _ h => h, fun _ _ h => h⟩

theorem of_imp {H : Prop} (h : H → Outcome act s P E) :
    Outcome act s (fun a t => H → P a t) fun e t => H → E e t := by
  rw [iff_results]
  exact ⟨fun a t hr hH => (h hH).of_ok hr, fun e t hr hH => (h hH).of_error hr⟩

theorem any (act : EStateM ε σ α) (s : σ) : Outcome act s (fun _ _ => True) fun _ _ => True :=
  iff_results.mpr ⟨fun _ _ _ => trivial, fun _ _ _ => trivial⟩

theorem pure {a : α} (h : P a s) : Outcome (Pure.pure a : EStateM ε σ α) s P E :=
  h

theorem throw {e : ε} (h : E e s) : Outcome (MonadExcept.throw e : EStateM ε σ α) s P E :=
  h

theorem bind {f : α → EStateM ε σ β} {R : β → σ → Prop} (h : Outcome act s P E)
    (hf : ∀ a t, P a t → Outcome (f a) t R E) : Outcome (act >>= f) s R E := by
  unfold Outcome at h ⊢
  simp only [Bind.bind, EStateM.bind]
  cases hr : act s with
  | ok a t =>
      simp only [hr] at h
      exact hf a t h
  | error e t => simpa only [hr] using h

theorem bind_of {f : α → EStateM ε σ β} {R : β → σ → Prop} (h : Outcome act s P F)
    (hE : ∀ e t, F e t → E e t) (hf : ∀ a t, P a t → Outcome (f a) t R E) :
    Outcome (act >>= f) s R E :=
  (h.mono (fun _ _ hp => hp) hE).bind hf

theorem map {f : α → β} {R : β → σ → Prop} (h : Outcome act s P E)
    (hf : ∀ a t, P a t → R (f a) t) : Outcome (act >>= fun a => Pure.pure (f a)) s R E :=
  h.bind fun a t hp => Outcome.pure (hf a t hp)

theorem fmap {f : α → β} {R : β → σ → Prop} (h : Outcome act s (fun a t => R (f a) t) E) :
    Outcome (f <$> act) s R E := by
  rw [map_eq_pure_bind]
  exact h.map fun _ _ hr => hr

def endsIn (act : EStateM ε σ α) (s : σ) (p : σ → Bool) : Bool :=
  match act s with
  | .ok _ t => p t
  | .error _ _ => false

theorem endsIn_iff {p : σ → Bool} :
    endsIn act s p = true ↔ ∃ a t, act s = .ok a t ∧ p t = true := by
  unfold endsIn
  cases hr : act s with
  | ok a t =>
      constructor
      · intro h
        exact ⟨a, t, rfl, h⟩
      · rintro ⟨_, _, hu, h⟩
        cases hu
        exact h
  | error e t =>
      constructor
      · intro h
        cases h
      · rintro ⟨_, _, hu, _⟩
        cases hu

def failsIn (act : EStateM ε σ α) (s : σ) (p : σ → Bool) : Bool :=
  match act s with
  | .ok _ _ => false
  | .error _ t => p t

theorem failsIn_iff {p : σ → Bool} :
    failsIn act s p = true ↔ ∃ e t, act s = .error e t ∧ p t = true := by
  unfold failsIn
  cases hr : act s with
  | ok a t =>
      constructor
      · intro h
        cases h
      · rintro ⟨_, _, hu, _⟩
        cases hu
  | error e t =>
      constructor
      · intro h
        exact ⟨e, t, rfl, h⟩
      · rintro ⟨_, _, hu, h⟩
        cases hu
        exact h

end Outcome

namespace Store

theorem outcome_query {f : Store → Except Abort α} {s : Store} {P : α → Store → Prop}
    {E : Abort → Store → Prop} (hok : ∀ a, f s = .ok a → P a s)
    (herr : ∀ e, f s = .error e → E e s) : Outcome (query f) s P E := by
  unfold Outcome query
  cases hf : f s with
  | ok a => exact hok a hf
  | error e => exact herr e hf

theorem outcome_whenOpen {id : Nat} {act : StoreM α} {s : Store} {P : α → Store → Prop}
    {E : Abort → Store → Prop} (hs : (s.message id).isSealed = true → E (.failure .isSealed) s)
    (ho : (s.message id).isSealed = false → Outcome act s P E) :
    Outcome (whenOpen id act) s P E := by
  unfold Outcome whenOpen
  cases hc : (s.message id).isSealed with
  | true => exact hs hc
  | false => exact ho hc

def withArena (s : Store) (id : Nat) (a : Arena) : Store :=
  s.setMessage id { s.message id with arena := a }

theorem outcome_onArena {id : Nat} {abort : ε → Abort} {act : EStateM ε Arena α} {s : Store}
    {P : α → Store → Prop} {E : Abort → Store → Prop}
    (h : Outcome act (s.message id).arena (fun a b => P a (s.withArena id b))
      (fun e b => E (abort e) (s.withArena id b))) :
    Outcome (onArena id abort act) s P E := by
  unfold Outcome at h ⊢
  rw [onArena_run]
  cases hr : act (s.message id).arena with
  | ok a b => simpa only [hr, withArena] using h
  | error e b => simpa only [hr, withArena] using h

end Store

theorem outcome_spend (words : Nat) (st : CopyState) :
    Outcome (spend words) st (fun _ t => t.store = st.store)
      fun e t => e = .failure .overBudget ∧ t.store = st.store := by
  rw [Outcome.iff_results]
  constructor
  · intro _ t ht
    obtain ⟨_, rfl⟩ := spend_ok.mp ht
    rfl
  · intro e t ht
    simp only [spend] at ht
    split at ht
    · cases ht
    · cases ht
      exact ⟨rfl, rfl⟩

theorem outcome_onStore {act : StoreM α} {st : CopyState} {P : α → Store → Prop}
    {E : Abort → Store → Prop} (h : Outcome act st.store P E) :
    Outcome (onStore act) st (fun a t => P a t.store ∧ t.budget = st.budget)
      (fun e t => E e t.store ∧ t.budget = st.budget) := by
  unfold Outcome at h ⊢
  simp only [onStore]
  cases hr : act st.store with
  | ok a t =>
      simp only [hr] at h
      exact ⟨h, rfl⟩
  | error e t =>
      simp only [hr] at h
      exact ⟨h, rfl⟩

theorem outcome_withinLimits {msg : Nat} {act : CopyScope → CopyM Unit} {s : Store}
    {P : Unit → Store → Prop} {E : Abort → Store → Prop}
    (h : Outcome (act (.top (s.message msg).depthLimit)) ⟨s, (s.message msg).copyBudget⟩
      (fun u t => P u t.store) fun e t => E e t.store) : Outcome (withinLimits msg act) s P E := by
  unfold Outcome at h ⊢
  simp only [withinLimits]
  split at h
  · rename_i hr
    simpa only [hr] using h
  · rename_i hr
    simpa only [hr] using h

theorem outcome_charged {words : Nat} {allocate : StoreM α} {fill : α → CopyM β} {st : CopyState}
    {got : α → Store → Prop} {lost : Abort → Store → Prop} {P : β → CopyState → Prop}
    {E : Abort → CopyState → Prop} (ha : Outcome allocate st.store got lost)
    (hspend : ∀ t, t.store = st.store → E (.failure .overBudget) t)
    (hlost : ∀ e t, lost e t.store → E e t)
    (hfill : ∀ a t, got a t.store → Outcome (fill a) t P E) :
    Outcome (do spend words; let a ← onStore allocate; fill a) st P E := by
  refine Outcome.bind_of (outcome_spend words st) ?_ ?_
  · rintro _ t ⟨rfl, ht⟩
    exact hspend t ht
  · intro _ st₁ h₁
    rw [← h₁] at ha
    exact Outcome.bind_of (outcome_onStore ha) (fun e t ht => hlost e t ht.1) fun a t ht =>
      hfill a t ht.1

theorem outcome_onQuery (f : Store → Except Abort α) (st : CopyState) :
    Outcome (onStore (Store.query f)) st (fun a t => t = st ∧ f st.store = .ok a)
      fun e t => t = st ∧ f st.store = .error e := by
  obtain ⟨s, budget⟩ := st
  simp only [Outcome, onStore, Store.query]
  cases hf : f s with
  | ok a => exact ⟨rfl, rfl⟩
  | error e => exact ⟨rfl, rfl⟩

end SegmentedMessage
