import RdfQuery.Proofs.Expr.Parts

/-!
# Reading expressions

The part of a reader of expressions that does not depend on the language:
operations between two operands, lists of arguments, and calls by a word. It
is built over a reader of operands, and reads again whatever that one does.
-/

set_option autoImplicit false

namespace RdfQuery

/-- What was read, and what is left of the text. -/
abbrev Reader (A : Type) := List Char → Option (A × List Char)

namespace Text

theorem Delimited.blank (rest : List Char) : Delimited (' ' :: rest) := Or.inl rfl

theorem Delimited.comma (rest : List Char) : Delimited (',' :: rest) := Or.inr (Or.inl rfl)

theorem Delimited.close (rest : List Char) : Delimited (')' :: rest) :=
  Or.inr (Or.inr (Or.inl rfl))

/-- The end of an expression: not a blank, which an operator would follow. -/
structure Ended (rest : List Char) : Prop where
  delimited : Delimited rest
  no_blank : rest.head? ≠ some ' '

theorem Ended.comma (rest : List Char) : Ended (',' :: rest) := ⟨Delimited.comma rest, by simp⟩

theorem Ended.close (rest : List Char) : Ended (')' :: rest) := ⟨Delimited.close rest, by simp⟩

theorem Ended.nil : Ended [] := ⟨trivial, by simp⟩

theorem inWord_span {word : String} (hword : IsWord word) {rest : List Char}
    (hrest : rest.takeWhile inWord = []) :
    (word.toList ++ rest).takeWhile inWord = word.toList ∧
      (word.toList ++ rest).dropWhile inWord = rest :=
  span_append hword hrest

theorem takeWhile_inWord_of_delimited {rest : List Char} (h : Delimited rest) :
    rest.takeWhile inWord = [] :=
  takeWhile_of_delimited (by decide) (by decide) (by decide) (by decide) h

end Text

/-! ## Operations -/

def Operator.all : List Operator :=
  [.and, .or, .compare .eq, .compare .ne, .compare .lt, .compare .le, .compare .gt, .compare .ge]

def TermFunction.all : List TermFunction := [.str, .lang, .datatype, .isIri, .isBlank, .isLiteral]

def TermRelation.all : List TermRelation := [.sameTerm, .langMatches]

namespace Spelling

def operator? (s : Spelling) (word : List Char) : Option Operator :=
  Operator.all.find? fun op => (s.operator op).toList = word

def function? (s : Spelling) (word : List Char) : Option TermFunction :=
  TermFunction.all.find? fun f => (s.function f).toList = word

def relation? (word : List Char) : Option TermRelation :=
  TermRelation.all.find? fun r => r.name.toList = word

/-- The signs and words of a language can be told apart. -/
structure Distinct (s : Spelling) : Prop where
  operator?_operator : ∀ op, s.operator? (s.operator op).toList = some op
  no_blank_operator : ∀ op, ' ' ∉ (s.operator op).toList
  function?_function : ∀ f, s.function? (s.function f).toList = some f
  function_isWord : ∀ f, Text.IsWord (s.function f)
  function_ne_bound : ∀ f, s.function f ≠ "bound"

/-- Reads one operand, and where a blank follows it, an operator and another. -/
def readInfix (s : Spelling) (operand : Reader Expr) : Reader Expr := fun cs =>
  (operand cs).bind fun left =>
    match left.2 with
    | ' ' :: rest =>
      (s.operator? (rest.takeWhile (· ≠ ' '))).bind fun op =>
        (operand ((rest.dropWhile (· ≠ ' ')).drop 1)).map fun right =>
          (.operation op left.1 right.1, right.2)
    | _ => some left

/-- Reads expressions after one another up to the closing parenthesis, at most `bound` of them. -/
def readItems (item : Reader Expr) : (bound : Nat) → Reader (List Expr)
  | 0, _ => none
  | bound + 1, cs =>
    (item cs).bind fun first =>
      match first.2 with
      | ')' :: rest => some ([first.1], rest)
      | ',' :: ' ' :: rest =>
        (readItems item bound rest).map fun others => (first.1 :: others.1, others.2)
      | _ => none

/-- Reads the arguments of a call. -/
def readArgs (item : Reader Expr) (bound : Nat) : Reader (List Expr) := fun cs =>
  match readItems item bound cs, cs with
  | some args, _ => some args
  | none, ')' :: rest => some ([], rest)
  | none, _ => none

/-- The expression a word makes of its arguments. -/
def wordCall? (s : Spelling) (word : List Char) : List Expr → Option Expr
  | [.var v] =>
    if word = "bound".toList then some (.bound v)
    else (s.function? word).map fun f => .function f (.var v)
  | [arg] => (s.function? word).map fun f => .function f arg
  | [arg, pattern] =>
    if word = "regex".toList then some (.regex arg pattern)
    else (relation? word).map fun r => .relation r arg pattern
  | [arg, pattern, flags] =>
    if word = "regex".toList then some (.regexWith arg pattern flags) else none
  | _ => none

theorem relation?_name (r : TermRelation) : relation? r.name.toList = some r := by
  cases r <;> decide

theorem relation_isWord (r : TermRelation) : Text.IsWord r.name := by
  cases r <;> decide

theorem relation_ne_regex (r : TermRelation) : r.name.toList ≠ "regex".toList := by
  cases r <;> decide

theorem wordCall?_function {s : Spelling} (hs : s.Distinct) (f : TermFunction) (arg : Expr) :
    s.wordCall? (s.function f).toList [arg] = some (.function f arg) := by
  have hne : (s.function f).toList ≠ "bound".toList := by
    intro h
    exact hs.function_ne_bound f (String.toList_inj.1 h)
  cases arg <;> simp only [wordCall?, if_neg hne, hs.function?_function f, Option.map_some]

theorem wordCall?_bound (s : Spelling) (v : Variable) :
    s.wordCall? "bound".toList [.var v] = some (.bound v) := by
  rw [wordCall?, if_pos rfl]

theorem wordCall?_relation (s : Spelling) (r : TermRelation) (left right : Expr) :
    s.wordCall? r.name.toList [left, right] = some (.relation r left right) := by
  simp only [wordCall?, if_neg (relation_ne_regex r), relation?_name, Option.map_some]

theorem wordCall?_regex (s : Spelling) (arg pattern : Expr) :
    s.wordCall? "regex".toList [arg, pattern] = some (.regex arg pattern) := by
  rw [wordCall?, if_pos rfl]

theorem wordCall?_regexWith (s : Spelling) (arg pattern flags : Expr) :
    s.wordCall? "regex".toList [arg, pattern, flags] = some (.regexWith arg pattern flags) := by
  rw [wordCall?, if_pos rfl]

/-- What follows a left operand: the operator and the right one. -/
def continued (s : Spelling) (op : Operator) (right : Expr) (rest : List Char) : List Char :=
  ' ' :: ((s.operator op).toList ++ ' ' :: ((s.nested Naming.full right).toList ++ rest))

/-- An operand reader reads an expression wherever it is followed by what may follow an operand. -/
def Reads (s : Spelling) (follows : List Char → Prop) (operand : Reader Expr) (e : Expr) : Prop :=
  ∀ rest, follows rest → operand ((s.nested Naming.full e).toList ++ rest) = some (e.plain, rest)

/-- An operand may be the last part of an expression, or the left operand of one. -/
structure Admits (s : Spelling) (named : Expr → Prop) (follows : List Char → Prop) : Prop where
  part : ∀ {d e : Expr}, named e → d ∈ e.parts → named d
  ended : ∀ {rest : List Char}, Text.Ended rest → follows rest
  continued : ∀ (op : Operator) {right : Expr} {rest : List Char}, named right →
    Text.Ended rest → follows (s.continued op right rest)

theorem nested_operation (s : Spelling) (n : Naming) (op : Operator) (left right : Expr) :
    s.nested n (.operation op left right) = "(" ++ s.expr n (.operation op left right) ++ ")" := by
  simp [nested, operand, Expr.isOperation]

theorem expr_operation (s : Spelling) (n : Naming) (op : Operator) (left right : Expr) :
    s.expr n (.operation op left right) =
      s.nested n left ++ " " ++ s.operator op ++ " " ++ s.nested n right := by
  rw [expr, nested, nested]

section

variable {s : Spelling} (hs : s.Distinct) {operand : Reader Expr}

include hs in
/-- Where both operands are read in their places, the operation between them is read. -/
theorem readInfix_operation (op : Operator) {left right : Expr} {rest : List Char}
    (hleft : operand ((s.nested Naming.full left).toList ++ s.continued op right rest) =
      some (left.plain, s.continued op right rest))
    (hright : operand ((s.nested Naming.full right).toList ++ rest) = some (right.plain, rest)) :
    s.readInfix operand ((s.expr Naming.full (.operation op left right)).toList ++ rest) =
      some ((Expr.operation op left right).plain, rest) := by
  have hblank : " ".toList = [' '] := rfl
  have hword : ∀ c ∈ (s.operator op).toList, decide (c ≠ ' ') = true := by
    intro c hc
    refine decide_eq_true ?_
    rintro rfl
    exact hs.no_blank_operator op hc
  have hspan := Text.span_append hword
    (show (' ' :: ((s.nested Naming.full right).toList ++ rest)).takeWhile
      (fun c => decide (c ≠ ' ')) = [] by simp)
  rw [continued] at hleft
  simp only [expr_operation, String.toList_append, hblank, List.append_assoc, List.cons_append,
    List.nil_append, readInfix, hleft, Option.bind_some, hspan.1, hspan.2,
    hs.operator?_operator, List.drop_succ_cons, List.drop_zero, hright, Option.map_some,
    Expr.plain]

/-- Any other expression is read like an operand, up to its end. -/
theorem readInfix_operand {e : Expr} (hown : e.isOperation = false) {rest : List Char}
    (h : operand ((s.nested Naming.full e).toList ++ rest) = some (e.plain, rest))
    (hrest : Text.Ended rest) :
    s.readInfix operand ((s.expr Naming.full e).toList ++ rest) = some (e.plain, rest) := by
  have htext : s.nested Naming.full e = s.expr Naming.full e := by
    simp [nested, Spelling.operand, hown]
  rw [readInfix, ← htext, h, Option.bind_some]
  split
  · rename_i tail htail
    have hhead : rest.head? = some ' ' := by
      rw [show rest = ' ' :: tail from htail]
      rfl
    exact absurd hhead hrest.no_blank
  · rfl

end

/-- An item reader reads an expression wherever it ends. -/
def ReadsItem (s : Spelling) (item : Reader Expr) (e : Expr) : Prop :=
  ∀ rest, Text.Ended rest → item ((s.expr Naming.full e).toList ++ rest) = some (e.plain, rest)

theorem readItems_separated {s : Spelling} {item : Reader Expr} {rest : List Char} {bound : Nat} :
    ∀ (e : Expr) (es : List Expr), (∀ d ∈ e :: es, s.ReadsItem item d) →
      (e :: es).length ≤ bound →
      readItems item bound
          ((Text.separated ", " (s.exprs Naming.full (e :: es))).toList ++ ')' :: rest) =
        some (Expr.plainAll (e :: es), rest) := by
  induction bound with
  | zero => exact fun _ _ _ hlength => nomatch hlength
  | succ bound ih =>
    intro e es hitems hlength
    have hfirst := hitems e (List.mem_cons_self ..)
    cases es with
    | nil =>
      rw [exprs, exprs, Text.separated, readItems, hfirst _ (Text.Ended.close rest)]
      rfl
    | cons d es =>
      have hcomma : ", ".toList = [',', ' '] := rfl
      have hothers := ih d es (fun x hx => hitems x (List.mem_cons_of_mem _ hx))
        (Nat.le_of_succ_le_succ hlength)
      rw [exprs] at hothers
      rw [exprs, exprs, Text.separated, String.toList_append, String.toList_append, hcomma,
        List.append_assoc, List.append_assoc, List.cons_append, List.cons_append, List.nil_append,
        readItems, hfirst _ (Text.Ended.comma _), Option.bind_some]
      simp only [hothers, Option.map_some, Expr.plainAll]

/-- Arguments are read again, where the item reader does not read a parenthesis. -/
theorem readArgs_separated {s : Spelling} {item : Reader Expr} {rest : List Char} {bound : Nat}
    {es : List Expr} (hitems : ∀ e ∈ es, s.ReadsItem item e) (hbound : es.length ≤ bound)
    (hclose : ∀ cs, item (')' :: cs) = none) :
    readArgs item bound
        ((Text.separated ", " (s.exprs Naming.full es)).toList ++ ')' :: rest) =
      some (Expr.plainAll es, rest) := by
  cases es with
  | nil =>
    have hnone : readItems item bound (')' :: rest) = none := by
      cases bound with
      | zero => rfl
      | succ bound => rw [readItems, hclose, Option.bind_none]
    rw [exprs, Text.separated]
    simp only [String.toList_empty, List.nil_append, readArgs, hnone, Expr.plainAll]
  | cons e es =>
    simp only [readArgs, readItems_separated e es hitems hbound]

theorem readInfix_close {s : Spelling} {operand : Reader Expr}
    (h : ∀ cs, operand (')' :: cs) = none) (cs : List Char) :
    s.readInfix operand (')' :: cs) = none := by
  rw [readInfix, h, Option.bind_none]

/-! ## From operands to expressions -/

section

variable {s : Spelling} (hs : s.Distinct) {named : Expr → Prop} {follows : List Char → Prop}
  (hadmits : s.Admits named follows) {operand : Reader Expr} {depth : Nat}
  (ih : ∀ e : Expr, e.size ≤ depth → named e → s.Reads follows operand e)

include hs hadmits ih

theorem readInfix_of_reads {op : Operator} {left right : Expr}
    (he : named (.operation op left right))
    (hsize : (Expr.operation op left right).size ≤ depth + 1)
    {rest : List Char} (hrest : Text.Ended rest) :
    s.readInfix operand ((s.expr Naming.full (.operation op left right)).toList ++ rest) =
      some ((Expr.operation op left right).plain, rest) := by
  have hleft : named left := hadmits.part he (by simp [Expr.parts])
  have hright : named right := hadmits.part he (by simp [Expr.parts])
  rw [Expr.size] at hsize
  exact readInfix_operation hs op
    (ih left (by omega) hleft _ (hadmits.continued op hright hrest))
    (ih right (by omega) hright rest (hadmits.ended hrest))

/-- Where operands of a size are read, so are expressions of that size. -/
theorem readsItem_infix {e : Expr} (hsize : e.size ≤ depth) (he : named e) :
    s.ReadsItem (s.readInfix operand) e := by
  intro rest hrest
  by_cases hown : e.isOperation = true
  · cases e with
    | operation op left right => exact readInfix_of_reads hs hadmits ih he (by omega) hrest
    | _ => cases hown
  · have hoperand := ih e hsize he rest (hadmits.ended hrest)
    exact readInfix_operand (by simpa using hown) hoperand hrest

theorem readArgs_exprs (hclose : ∀ cs, operand (')' :: cs) = none) {es : List Expr}
    (hsize : Expr.sizeAll es ≤ depth) (hes : ∀ e ∈ es, named e) (rest : List Char) :
    readArgs (s.readInfix operand) depth
        ((Text.separated ", " (s.exprs Naming.full es)).toList ++ ')' :: rest) =
      some (Expr.plainAll es, rest) := by
  apply readArgs_separated
  · intro e he
    have := Expr.size_le_sizeAll he
    exact readsItem_infix hs hadmits ih (by omega) (hes e he)
  · have := Expr.length_le_sizeAll es
    omega
  · exact readInfix_close hclose

end

end Spelling

end RdfQuery
