/-!
# The first steps of reading JSON

Each reader takes the characters that are left and gives what it read with
the characters after it, or the first fault: the text ended too early, it is
no JSON, or it is JSON of a shape that was not asked for.
-/

set_option autoImplicit false

namespace RdfQuery.Json

inductive Fault where
  | ended
  | malformed
  | mismatch
  deriving DecidableEq, Repr

def isBlank (c : Char) : Bool := c = ' ' || c = '\t' || c = '\n' || c = '\r'

def skipBlanks (cs : List Char) : List Char := cs.dropWhile isBlank

/-- The expected characters, one by one. -/
def keyword : List Char → List Char → Except Fault (List Char)
  | [], cs => .ok cs
  | _ :: _, [] => .error .ended
  | e :: expected, c :: cs => if c = e then keyword expected cs else .error .malformed

end RdfQuery.Json
