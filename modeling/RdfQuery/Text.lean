/-!
# Pieces of text

Lists of pieces written with a separator between them, and runs of blanks.
-/

set_option autoImplicit false

namespace RdfQuery.Text

def separated (separator : String) : List String → String
  | [] => ""
  | [piece] => piece
  | piece :: next :: rest => piece ++ separator ++ separated separator (next :: rest)

def concatenated : List String → String
  | [] => ""
  | piece :: rest => piece ++ concatenated rest

def blanks (count : Nat) : String := String.ofList (List.replicate count ' ')

theorem concatenated_append (xs ys : List String) :
    concatenated (xs ++ ys) = concatenated xs ++ concatenated ys := by
  induction xs with
  | nil => simp [concatenated]
  | cons x xs ih => simp [concatenated, ih, String.append_assoc]

end RdfQuery.Text
