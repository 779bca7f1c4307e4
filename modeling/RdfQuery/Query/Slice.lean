import RdfQuery.Tree.Basic

/-!
# Limits and offsets of a tree

A tree has at most one slice to be written to. Only the bounds that are given
are written; a tree without a slice gets one at its root.
-/

set_option autoImplicit false

namespace RdfQuery

inductive AmendError where
  | severalSlices (count : Nat)
  | noTargets
  | noDescribeProjection
  deriving DecidableEq, Repr

def AmendError.message : AmendError → String
  | .severalSlices count =>
    "Unsupported rewrite: tree has " ++ toString count ++ " slice nodes, expected at most one"
  | .noTargets => "Unsupported rewrite: describe without targets"
  | .noDescribeProjection => "Unsupported rewrite: tree has no describe projection"

inductive SliceChange where
  | updated
  | inserted
  deriving DecidableEq, Repr

namespace Tree

/-- A bound that is given replaces the old one. -/
def writeSlice? (limit offset : Option Nat) : Tree → Option Tree
  | .modify (.slice oldLimit oldOffset) arg =>
    some (.modify (.slice (limit.or oldLimit) (offset.or oldOffset)) arg)
  | _ => none

def setSlice (t : Tree) (limit offset : Option Nat) : Except AmendError (SliceChange × Tree) :=
  if 1 < t.count .slice then .error (.severalSlices (t.count .slice))
  else match t.amendFirst? (writeSlice? limit offset) with
    | some t' => .ok (.updated, t')
    | none => .ok (.inserted, .modify (.slice limit offset) t)

end Tree

end RdfQuery
