import SegmentedMessage.Message.Store

namespace SegmentedMessage

structure CopyScope where
  depth : Nat
  limit : Nat
  deriving DecidableEq, Repr

structure CopyState where
  store : Store
  budget : Nat

abbrev CopyM := EStateM Abort CopyState

def CopyScope.top (limit : Nat) : CopyScope :=
  ⟨0, limit⟩

def CopyScope.levels (c : CopyScope) : Nat :=
  c.limit - c.depth

def CopyScope.deeper (c : CopyScope) : Except Failure CopyScope :=
  if c.limit ≤ c.depth then .error (.tooDeep c.limit)
  else .ok { c with depth := c.depth + 1 }

theorem CopyScope.levels_deeper {c d : CopyScope} (h : c.deeper = .ok d) :
    c.levels = d.levels + 1 ∧ d.limit = c.limit := by
  simp only [deeper] at h
  split at h
  · cases h
  · rename_i hlt
    cases h
    have hle : c.depth + 1 ≤ c.limit := by omega
    exact ⟨by simp only [levels]; omega, rfl⟩

/-- Every object costs at least one word; a charge that cannot be met uses up the budget. -/
def spend (words : Nat) : CopyM Unit := fun st =>
  let cost := max words 1
  if cost ≤ st.budget then .ok () { st with budget := st.budget - cost }
  else .error (.failure .overBudget) { st with budget := 0 }

@[inline] def onStore {α : Type} (act : StoreM α) : CopyM α := fun ⟨s, budget⟩ =>
  match act s with
  | .ok a s => .ok a ⟨s, budget⟩
  | .error e s => .error e ⟨s, budget⟩

def withinLimits (msg : Nat) (act : CopyScope → CopyM Unit) : StoreM Unit := fun s =>
  let m := s.message msg
  match act (.top m.depthLimit) ⟨s, m.copyBudget⟩ with
  | .ok u st => .ok u st.store
  | .error e st => .error e st.store

theorem spend_ok {words : Nat} {st st' : CopyState} {u : Unit} :
    spend words st = .ok u st' ↔
      max words 1 ≤ st.budget ∧ st' = { st with budget := st.budget - max words 1 } := by
  simp only [spend]
  split
  · simp [*, eq_comm]
  · simp [*]

end SegmentedMessage
