import RdfQuery.Proofs.Sparql.Tokens

/-!
# Expressions as sequences of tokens

The text of an expression falls into the tokens that its constructors stand for,
wherever it is followed by what may follow an expression. Names are names of the
grammar, and there are no blank nodes, which have no place in expressions.
-/

set_option autoImplicit false

namespace RdfQuery

/-- Names are those of the grammar, and no constant is a blank node. -/
structure Expr.Lexical (e : Expr) : Prop where
  names : ∀ v ∈ e.variables, Sparql.Token.isName v.name.toList = true
  no_labels : ∀ label, .blank label ∉ e.constants

theorem Expr.Lexical.part {d e : Expr} (he : e.Lexical) (h : d ∈ e.parts) : d.Lexical where
  names := fun v hv => he.names v (variables_part h hv)
  no_labels := fun label hlabel => he.no_labels label (constants_part h hlabel)

namespace Sparql

/-! ## The tokens of an expression -/

/-- A comma between each two. -/
def separatedTokens : List (List Token) → List Token
  | [] => []
  | [ts] => ts
  | ts :: us :: rest => ts ++ .sign "," :: separatedTokens (us :: rest)

def bracketed (ts : List Token) : List Token := .sign "(" :: (ts ++ [.sign ")"])

def calling (head : Token) (args : List (List Token)) : List Token :=
  head :: bracketed (separatedTokens args)

def operandTokens (e : Expr) (ts : List Token) : List Token :=
  if e.isOperation then bracketed ts else ts

def literalTokens : Literal → List Token
  | .simple value => [.string value]
  | .tagged value tag => [.string value, .tag tag.text]
  | .typed value datatype _ => [.string value, .sign "^^", .iri datatype.text]

def constantTokens : Constant → List Token
  | .iri i => [.iri i.text]
  | .blank _ => []
  | .literal l => literalTokens l

def keyword : TermFunction → Token
  | .str => .word "str"
  | .lang => .word "lang"
  | .datatype => .word "datatype"
  | .isIri => .word "isiri"
  | .isBlank => .word "isblank"
  | .isLiteral => .word "isliteral"

def relationKeyword : TermRelation → Token
  | .sameTerm => .word "sameterm"
  | .langMatches => .word "langmatches"

def operatorToken : Operator → Token
  | .and => .sign "&&"
  | .or => .sign "||"
  | .compare c => .sign c.symbol

mutual

def tokens : Expr → List Token
  | .var v => [.variable v.name]
  | .const c => constantTokens c
  | .bound v => calling (.word "bound") [[.variable v.name]]
  | .not e => .sign "!" :: operandTokens e (tokens e)
  | .function f arg => calling (keyword f) [tokens arg]
  | .relation r left right => calling (relationKeyword r) [tokens left, tokens right]
  | .operation op left right =>
    operandTokens left (tokens left) ++ operatorToken op :: operandTokens right (tokens right)
  | .regex arg pattern => calling (.word "regex") [tokens arg, tokens pattern]
  | .regexWith arg pattern flags =>
    calling (.word "regex") [tokens arg, tokens pattern, tokens flags]
  | .call name args => calling (.iri name.text) (tokensAll args)

def tokensAll : List Expr → List (List Token)
  | [] => []
  | e :: es => tokens e :: tokensAll es

end

theorem tokensAll_eq_map (es : List Expr) : tokensAll es = es.map tokens := by
  induction es with
  | nil => rfl
  | cons e es ih => rw [tokensAll, ih, List.map_cons]

/-! ## Texts that fall into tokens -/

/-- The text is these tokens, whatever may follow an expression behind it. -/
def LexesTo (text : String) (us : List Token) : Prop :=
  ∀ rest ts, Text.Delimited rest → Lexes rest ts → Lexes (text.toList ++ rest) (us ++ ts)

theorem lexesTo_of_next? {text : String} {t : Token}
    (h : ∀ rest, Text.Delimited rest → Token.next? (text.toList ++ rest) = some (t, rest)) :
    LexesTo text [t] :=
  fun rest _ hrest hts => .token (h rest hrest) hts

theorem lexesTo_variable {name : String} (h : Token.isName name.toList = true) :
    LexesTo (variableText name) [.variable name] := by
  have hmark : "?".toList = ['?'] := rfl
  refine lexesTo_of_next? fun rest hrest => ?_
  rw [variableText, String.toList_append, hmark, List.cons_append, List.nil_append]
  exact Token.next?_variable h hrest

theorem lexesTo_iri (i : Iri) : LexesTo (NTriples.iri i) [.iri i.text] :=
  lexesTo_of_next? fun rest _ => Token.next?_iri i rest

theorem head?_of_delimited {rest : List Char} (h : Text.Delimited rest) :
    rest.head? ≠ some '"' := by
  cases rest with
  | nil => simp
  | cons c rest => rcases h with rfl | rfl | rfl | ⟨rfl, -⟩ <;> simp

theorem lexesTo_literal (l : Literal) : LexesTo (NTriples.literal l) (literalTokens l) := by
  cases l with
  | simple value =>
    exact lexesTo_of_next? fun rest hrest => Token.next?_string value (head?_of_delimited hrest)
  | tagged value tag =>
    intro rest ts hrest hts
    have hat : "@".toList = ['@'] := rfl
    simp only [NTriples.literal, String.toList_append, hat, List.append_assoc, List.cons_append,
      List.nil_append]
    exact .token (Token.next?_string value (by simp)) (.token (Token.next?_tag tag hrest) hts)
  | typed value datatype proper =>
    intro rest ts hrest hts
    have hcarets : "^^".toList = ['^', '^'] := rfl
    simp only [NTriples.literal, String.toList_append, hcarets, List.append_assoc,
      List.cons_append, List.nil_append]
    exact .token (Token.next?_string value (by simp))
      (.token rfl (lexesTo_iri datatype rest ts hrest hts))

theorem lexesTo_constant {c : Constant} (h : ∀ label, c ≠ .blank label) :
    LexesTo (NTriples.constant c) (constantTokens c) := by
  cases c with
  | iri i => exact lexesTo_iri i
  | blank label => exact absurd rfl (h label)
  | literal l => exact lexesTo_literal l

theorem LexesTo.bracketed {text : String} {us : List Token} (h : LexesTo text us) :
    LexesTo ("(" ++ text ++ ")") (bracketed us) := by
  intro rest ts _ hts
  have hopen : "(".toList = ['('] := rfl
  have hclose : ")".toList = [')'] := rfl
  simp only [String.toList_append, hopen, hclose, List.append_assoc, List.cons_append,
    List.nil_append, Sparql.bracketed]
  exact .token rfl (h _ _ (Text.Delimited.close rest) (.token rfl hts))

theorem LexesTo.operand {e : Expr} {text : String} {us : List Token} (h : LexesTo text us) :
    LexesTo (Spelling.operand e text) (operandTokens e us) := by
  unfold Spelling.operand operandTokens
  split
  · exact h.bracketed
  · exact h

theorem lexesTo_separated {α : Type} {text : α → String} {us : α → List Token} {args : List α}
    (h : ∀ a ∈ args, LexesTo (text a) (us a)) :
    LexesTo (Text.separated ", " (args.map text)) (separatedTokens (args.map us)) := by
  induction args with
  | nil => exact fun _ _ _ hts => hts
  | cons a args ih =>
    obtain ⟨ha, hargs⟩ := List.forall_mem_cons.1 h
    cases args with
    | nil => exact ha
    | cons b args =>
      intro rest ts hrest hts
      have hcomma : ", ".toList = [',', ' '] := rfl
      have hothers := ih hargs rest ts hrest hts
      simp only [List.map_cons, Text.separated, separatedTokens, String.toList_append, hcomma,
        List.append_assoc, List.cons_append, List.nil_append] at hothers ⊢
      exact ha _ _ (Text.Delimited.comma _) (.token rfl (.blank rfl hothers))

/-- A call, if what stands before its parenthesis is one token. -/
theorem lexesTo_call {α : Type} (text : α → String) (us : α → List Token) (args : List α)
    {name : String} {head : Token}
    (hhead : ∀ rest, Token.next? (name.toList ++ '(' :: rest) = some (head, '(' :: rest))
    (h : ∀ a ∈ args, LexesTo (text a) (us a)) :
    LexesTo (Spelling.call name (args.map text)) (calling head (args.map us)) := by
  intro rest ts _ hts
  rw [call_toList, calling, bracketed, List.cons_append, List.cons_append, List.append_assoc]
  refine .token (hhead _) (.token rfl ?_)
  exact lexesTo_separated h _ _ (Text.Delimited.close rest) (.token rfl hts)

theorem lexes_operator (op : Operator) {rest : List Char} {ts : List Token} (h : Lexes rest ts) :
    Lexes ((spelling.operator op).toList ++ ' ' :: rest) (operatorToken op :: ts) := by
  rcases op with _ | _ | c
  · exact .token rfl (.blank rfl h)
  · exact .token rfl (.blank rfl h)
  · cases c <;> exact .token rfl (.blank rfl h)

/-! ## Expressions -/

/-- An operand does not begin with an equals sign, which would make `!=` of a negation. -/
theorem head?_nested (e : Expr) (rest : List Char) :
    ((spelling.nested Naming.full e).toList ++ rest).head? ≠ some '=' := by
  have hcall {name : String} (args : List String) (hname : name.toList.head? ≠ some '=') :
      ((Spelling.call name args).toList ++ rest).head? ≠ some '=' := by
    rw [call_toList, List.head?_append]
    cases hhead : name.toList.head? with
    | none => simp
    | some c => simpa [hhead] using hname
  cases e with
  | var v =>
    change ((variableText v.name).toList ++ rest).head? ≠ some '='
    simp [variableText]
  | const c =>
    obtain ⟨first, tail, htext, hfirst⟩ := constant_head c
    change ((Naming.full.constant c).toList ++ rest).head? ≠ some '='
    rw [Naming.full_constant, htext]
    rintro ⟨⟩
    revert hfirst
    decide
  | bound v => exact hcall _ (by decide)
  | not e =>
    change (("!" ++ spelling.nested Naming.full e).toList ++ rest).head? ≠ some '='
    simp
  | function f arg => exact hcall _ (by cases f <;> decide)
  | relation r left right => exact hcall _ (by cases r <;> decide)
  | operation op left right =>
    rw [Spelling.nested_operation]
    simp
  | regex arg pattern => exact hcall _ (by decide)
  | regexWith arg pattern flags => exact hcall _ (by decide)
  | call name args => exact hcall _ (by simp [Naming.iri, Naming.full, NTriples.iri])

theorem lexesTo_expr {e : Expr} (he : e.Lexical) : LexesTo (expr Naming.full e) (tokens e) := by
  induction e using Expr.parts_induction with
  | step e ih =>
    have hparts : ∀ d ∈ e.parts, LexesTo (expr Naming.full d) (tokens d) :=
      fun d hd => ih d hd (he.part hd)
    cases e with
    | var v =>
      have hv : v ∈ (Expr.var v).variables := by
        simp [Expr.variables, Expr.walk, Expr.ownVariables]
      exact lexesTo_variable (he.names v hv)
    | const c =>
      change LexesTo (Naming.full.constant c) (constantTokens c)
      rw [Naming.full_constant]
      refine lexesTo_constant ?_
      rintro label rfl
      exact he.no_labels label (by simp [Expr.constants, Expr.walk, Expr.constant?])
    | bound v =>
      have hv : v ∈ (Expr.bound v).variables := by
        simp [Expr.variables, Expr.walk, Expr.ownVariables]
      exact lexesTo_call variableText (fun name => [.variable name]) [v.name] (fun _ => rfl)
        (List.forall_mem_singleton.2 (lexesTo_variable (he.names v hv)))
    | not e =>
      intro rest ts hrest hts
      have hmark : "!".toList = ['!'] := rfl
      change Lexes (("!" ++ spelling.nested Naming.full e).toList ++ rest) _
      rw [String.toList_append, hmark, List.cons_append, List.nil_append, List.cons_append]
      refine .token (Token.next?_not (head?_nested e rest)) ?_
      exact (hparts e List.mem_cons_self).operand rest ts hrest hts
    | function f arg =>
      exact lexesTo_call (expr Naming.full) tokens [arg] (by cases f <;> exact fun _ => rfl) hparts
    | relation r left right =>
      exact lexesTo_call (expr Naming.full) tokens [left, right]
        (by cases r <;> exact fun _ => rfl) hparts
    | operation op left right =>
      intro rest ts hrest hts
      have hblank : " ".toList = [' '] := rfl
      have hleft := (hparts left List.mem_cons_self).operand (e := left)
      have hright := (hparts right (by simp [Expr.parts])).operand (e := right) rest ts hrest hts
      rw [expr, Spelling.expr_operation, tokens]
      simp only [String.toList_append, hblank, List.append_assoc, List.cons_append,
        List.nil_append]
      exact hleft _ _ (Text.Delimited.blank _) (.blank rfl (lexes_operator op hright))
    | regex arg pattern =>
      exact lexesTo_call (expr Naming.full) tokens [arg, pattern] (fun _ => rfl) hparts
    | regexWith arg pattern flags =>
      exact lexesTo_call (expr Naming.full) tokens [arg, pattern, flags] (fun _ => rfl) hparts
    | call name args =>
      rw [expr, Spelling.expr, Spelling.exprs_eq_map, tokens, tokensAll_eq_map]
      exact lexesTo_call _ tokens args (fun rest => Token.next?_iri name ('(' :: rest)) hparts

end Sparql

end RdfQuery
