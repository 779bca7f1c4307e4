import RdfQuery.Expr.Dump
import RdfQuery.Tree.Basic

/-!
# Trees as indented lists

One line for each node, three blanks deeper than its parent's.
-/

set_option autoImplicit false

namespace RdfQuery.Tree

def dumpBound : Option Nat → String
  | none => "None"
  | some n => "Some(" ++ toString n ++ ")"

def dumpColumns (columns : Columns) : String :=
  Text.separated ", " (columns.map fun c => c.source ++ "->" ++ c.target)

def dumpSelection : Selection → String
  | .single columns => " (" ++ dumpColumns columns ++ ")"
  | .several lists => " (" ++ toString lists.length ++ " lists)"

def dumpDetails : Tree → String
  | .pattern p => "(" ++ p.display ++ ")"
  | .combine (.leftJoin (some condition)) _ _ => " [" ++ condition.dump ++ "]"
  | .filter _ condition => " [" ++ condition.dump ++ "]"
  | .modify (.select s) _ => dumpSelection s
  | .modify (.slice limit offset) _ =>
    " (limit=" ++ dumpBound limit ++ ", offset=" ++ dumpBound offset ++ ")"
  | .bare s => dumpSelection s
  | _ => ""

def dumpLine (depth : Nat) (t : Tree) : String :=
  Text.blanks (3 * depth) ++ t.kind.name ++ dumpDetails t ++ "\n"

def dumpFrom (depth : Nat) : Tree → String
  | .unit => dumpLine depth .unit
  | .pattern p => dumpLine depth (.pattern p)
  | .combine c left right =>
    dumpLine depth (.combine c left right) ++ dumpFrom (depth + 1) left ++
      dumpFrom (depth + 1) right
  | .filter arg condition => dumpLine depth (.filter arg condition) ++ dumpFrom (depth + 1) arg
  | .modify m arg => dumpLine depth (.modify m arg) ++ dumpFrom (depth + 1) arg
  | .bare s => dumpLine depth (.bare s)

def dump (t : Tree) : String := dumpFrom 0 t

end RdfQuery.Tree
