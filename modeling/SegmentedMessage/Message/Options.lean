import SegmentedMessage.Arena.Basic

namespace SegmentedMessage

def defaultDepthLimit : Nat :=
  64

def defaultCopyBudget : Nat :=
  0x800000

inductive MessageOption where
  | arena (option : ArenaOption)
  | depthLimit (levels : Nat)
  | copyBudget (words : Nat)
  deriving DecidableEq, Repr

structure MessageSettings where
  arena : List ArenaOption
  depthLimit : Nat
  copyBudget : Nat
  deriving DecidableEq, Repr

def MessageOption.arena? : MessageOption → Option ArenaOption
  | arena o => some o
  | _ => none

def MessageOption.depthLimit? : MessageOption → Option Nat
  | depthLimit n => some n
  | _ => none

def MessageOption.copyBudget? : MessageOption → Option Nat
  | copyBudget n => some n
  | _ => none

def lastOr (d : Nat) (xs : List Nat) : Nat :=
  xs.getLast?.getD d

def MessageSettings.ofOptions (opts : List MessageOption) : MessageSettings where
  arena := opts.filterMap MessageOption.arena?
  depthLimit := lastOr defaultDepthLimit (opts.filterMap MessageOption.depthLimit?)
  copyBudget := lastOr defaultCopyBudget (opts.filterMap MessageOption.copyBudget?)

def MessageSettings.limits (c : MessageSettings) : Limits :=
  Limits.ofOptions c.arena

end SegmentedMessage
