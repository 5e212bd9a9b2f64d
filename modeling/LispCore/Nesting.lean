/-
  LispCore — how deep a value may nest.

  Rendering and comparing walk down the lists of a value.  The elements inside
  more lists than the limit are never looked at, which makes values that contain
  themselves safe.  The stack bounds these walks under any limit, and reading,
  for which there is no limit, too.

  * `stackLevels`: how many lists inside each other the stack has room for;
  * `depthError?`: the error of a walk at a depth, if it is too deep;
  * `depthError?_of_le`, `exists_depthError?`: there is none where neither the limit
    nor the stack is exceeded, and one of class `Kind.recursion` everywhere else.
-/
import LispCore.Error

namespace LispCore

/-- How many lists inside each other the stack has room for.  This stands for what the
    machine's recursion limit leaves for a walk.  The limit is 1000 frames by default, one of
    which each list takes, and some are in use already when a walk begins: how many there
    are depends on the caller, so that the host's own figure varies a little below 1000. -/
def stackLevels : Nat := 960

/-- The error of a walk that enters the level `depth`, if that is too deep.  The
    limit is consulted before the stack. -/
def depthError? (walk : Walk) (limit depth : Nat) : Option Error :=
  if limit < depth then some (.tooDeep walk limit)
  else if stackLevels < depth then some (.stackExhausted walk)
  else none

theorem depthError?_of_lt {walk : Walk} {limit depth : Nat} (h : limit < depth) :
    depthError? walk limit depth = some (.tooDeep walk limit) := if_pos h

theorem depthError?_of_le {walk : Walk} {limit depth : Nat} (h : depth ≤ limit)
    (hs : depth ≤ stackLevels) : depthError? walk limit depth = none := by
  rw [depthError?, if_neg (Nat.not_lt.2 h), if_neg (Nat.not_lt.2 hs)]

theorem exists_depthError? (walk : Walk) {limit depth : Nat}
    (h : ¬ (depth ≤ limit ∧ depth ≤ stackLevels)) :
    ∃ e, depthError? walk limit depth = some e ∧ e.kind = .recursion := by
  unfold depthError?
  split
  · exact ⟨_, rfl, rfl⟩
  · split
    · exact ⟨_, rfl, rfl⟩
    · omega

end LispCore
