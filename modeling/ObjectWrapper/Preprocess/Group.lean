namespace ObjectWrapper
namespace Preprocess

/-!
# Conditional groups

A group has branches, of which at most one is active: the first whose condition
holds, or the last one where that has no condition.  No branch of a group is
active inside an inactive branch.  Open groups are listed from the innermost
outwards.
-/

/-- A group of which some branch has begun. -/
structure Group where
  /-- The branch that has begun is active. -/
  isActive : Bool
  /-- What surrounds the group is active. -/
  isEnclosedActive : Bool
  /-- Some branch has been active, or the last one has begun. -/
  isTaken : Bool
  /-- The branch that has begun is the one without a condition. -/
  isLast : Bool
deriving DecidableEq, Repr

namespace Group

/-- A group that begins with a branch. -/
def opened (isEnclosedActive isActive : Bool) : Group :=
  ⟨isActive, isEnclosedActive, isActive, false⟩

/-- Whether the condition of a next branch has to be looked at. -/
def needsCondition (group : Group) : Bool :=
  group.isEnclosedActive && !group.isTaken

/-- The group at its next branch, whose condition holds or not. -/
def next (group : Group) (holds : Bool) : Group :=
  { group with isActive := holds, isTaken := group.isTaken || holds }

/-- The group at its branch without a condition. -/
def last (group : Group) : Group :=
  { group with isActive := group.isEnclosedActive && !group.isTaken, isTaken := true, isLast := true }

end Group

/-- Whether text inside the open groups counts. -/
def isActive (groups : List Group) : Bool :=
  groups.head?.all Group.isActive

end Preprocess
end ObjectWrapper
