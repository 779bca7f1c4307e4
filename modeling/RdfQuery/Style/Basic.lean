import RdfQuery.PrefixTable
import RdfQuery.Text

/-!
# Style of the written text

How deep a nesting level is indented, whether IRIs are written as prefixed
names, and the prefixes to choose from.
-/

set_option autoImplicit false

namespace RdfQuery

structure Style where
  indentWidth : Nat := 2
  compactIris : Bool := false
  wellKnownPrefixes : Bool := true
  prefixes : OrderedMap String String := OrderedMap.empty
  deriving DecidableEq

namespace Style

def default : Style := {}

def withPrefix (s : Style) (name ns : String) : Style :=
  { s with prefixes := s.prefixes.insert name ns }

def prefixTable (s : Style) : PrefixTable :=
  (if s.wellKnownPrefixes then PrefixTable.wellKnown else OrderedMap.empty).insertAll
    s.prefixes.entries

def indent (s : Style) (depth : Nat) : String := Text.blanks (s.indentWidth * depth)

end Style

end RdfQuery
