import RdfQuery.Proofs.Sparql.Reader

/-!
# Reading expressions in SeRQL

Variables have no mark here, so a variable can be spelled like the negation or
a connective. What a word is shows in the words after it: an expression has
one operator at most outside of parentheses, and it stands between operands.
-/

set_option autoImplicit false

namespace RdfQuery

/-- The variables of the expression are named by words that are not empty. -/
def Expr.Named (e : Expr) : Prop := ∀ v ∈ e.variables, Text.IsWord v.name ∧ v.name ≠ ""

instance (e : Expr) : Decidable e.Named :=
  inferInstanceAs (Decidable (∀ v ∈ e.variables, Text.IsWord v.name ∧ v.name ≠ ""))

namespace Expr

theorem Named.worded {e : Expr} (h : e.Named) : e.Worded := fun v hv => (h v hv).1

theorem named_part {d e : Expr} (he : e.Named) (h : d ∈ e.parts) : d.Named :=
  fun v hv => he v (variables_part h hv)

theorem named_var {v : Variable} (h : (Expr.var v).Named) : v.name ≠ "" :=
  (h v (by simp [Expr.variables, walk, ownVariables])).2

end Expr

namespace Serql

open Sparql (readBracketed readNamed readNamed_constant readConstant call_toList)

theorem spelling_distinct : spelling.Distinct where
  operator?_operator := by
    intro op
    rcases op with _ | _ | c
    · decide
    · decide
    · cases c <;> decide
  no_blank_operator := by
    intro op
    rcases op with _ | _ | c
    · decide
    · decide
    · cases c <;> decide
  function?_function := by
    intro f
    cases f <;> decide
  function_isWord := by
    intro f
    cases f <;> decide
  function_ne_bound := by
    intro f
    cases f <;> decide

/-! ## Words between blanks -/

def firstToken (cs : List Char) : List Char := cs.takeWhile (· ≠ ' ')

def afterToken (cs : List Char) : List Char := cs.dropWhile (· ≠ ' ')

/-- The text begins with what may be an operator and a blank. -/
def startsOperator (cs : List Char) : Bool :=
  (spelling.operator? (firstToken cs)).isSome && !(afterToken cs).isEmpty

/-- Whether `not` negates what follows it and a blank. Before an operator it is a variable, but
what looks like an operator may be a variable too, and is one before another operator. -/
def negates (cs : List Char) : Bool :=
  !startsOperator cs || startsOperator ((afterToken cs).drop 1)

def inOperator (c : Char) : Bool := "andor=!<>".toList.contains c

theorem operator?_eq_some {token : List Char} (h : (spelling.operator? token).isSome = true) :
    ∃ op, token = (spelling.operator op).toList := by
  obtain ⟨op, hop⟩ := Option.isSome_iff_exists.1 h
  have htext := List.find?_some hop
  exact ⟨op, (of_decide_eq_true htext).symm⟩

/-- What the operators are spelled with; those that open an angle bracket never close it. -/
theorem inOperator_of_operator? {token : List Char}
    (h : (spelling.operator? token).isSome = true) :
    (∀ c ∈ token, inOperator c = true) ∧ ('<' ∈ token → '>' ∉ token) ∧
      token ≠ "not".toList := by
  obtain ⟨op, rfl⟩ := operator?_eq_some h
  have hall : (spelling.operator op).toList.all inOperator = true := by
    rcases op with _ | _ | c
    · decide
    · decide
    · cases c <;> decide
  have hother : ('<' ∈ (spelling.operator op).toList → '>' ∉ (spelling.operator op).toList) ∧
      (spelling.operator op).toList ≠ "not".toList := by
    rcases op with _ | _ | c
    · decide
    · decide
    · cases c <;> decide
  exact ⟨List.all_eq_true.1 hall, hother⟩

theorem firstToken_append {cs : List Char} (hcs : ' ' ∉ cs) (rest : List Char) :
    firstToken (cs ++ rest) = cs ++ firstToken rest ∧ afterToken (cs ++ rest) = afterToken rest := by
  have hall : ∀ c ∈ cs, decide (c ≠ ' ') = true := by
    intro c hc
    refine decide_eq_true ?_
    rintro rfl
    exact hcs hc
  exact ⟨List.takeWhile_append_of_pos hall, List.dropWhile_append_of_pos hall⟩

theorem firstToken_cons {c : Char} (hc : c ≠ ' ') (rest : List Char) :
    firstToken (c :: rest) = c :: firstToken rest :=
  List.takeWhile_cons_of_pos (decide_eq_true hc)

/-- A text does not begin with an operator if a character that no operator has comes before the
first blank. -/
theorem startsOperator_of_not_inOperator {cs : List Char} (hcs : ' ' ∉ cs) {c : Char}
    (hblank : c ≠ ' ') (hc : inOperator c = false) (rest : List Char) :
    startsOperator (cs ++ c :: rest) = false := by
  by_contra h
  rw [Bool.not_eq_false, startsOperator, Bool.and_eq_true] at h
  obtain ⟨hchars, -⟩ := inOperator_of_operator? h.1
  have hmem : c ∈ firstToken (cs ++ c :: rest) := by
    rw [(firstToken_append hcs _).1, firstToken_cons hblank]
    simp
  rw [hchars c hmem] at hc
  cases hc

theorem not_mem_of_isWord {word : String} (h : Text.IsWord word) : ' ' ∉ word.toList := by
  intro hblank
  exact absurd (h ' ' hblank) (by decide)

theorem startsOperator_call {name : String} (hname : Text.IsWord name) (args : List String)
    (rest : List Char) : startsOperator ((Spelling.call name args).toList ++ rest) = false := by
  rw [call_toList]
  exact startsOperator_of_not_inOperator (not_mem_of_isWord hname) (by decide) (by decide) _

/-- An IRI in angle brackets is not an operator, whatever stands after it. -/
theorem startsOperator_iri (i : Iri) (rest : List Char) :
    startsOperator ('<' :: (i.text.toList ++ '>' :: rest)) = false := by
  by_contra h
  rw [Bool.not_eq_false, startsOperator, Bool.and_eq_true] at h
  obtain ⟨-, hangle, -⟩ := inOperator_of_operator? h.1
  have htext : ' ' ∉ i.text.toList := by
    intro hblank
    exact Iri.ne_of_mem_text i (by decide) hblank rfl
  rw [firstToken_cons (by decide), (firstToken_append htext _).1,
    firstToken_cons (by decide)] at hangle
  exact hangle (by simp) (by simp)

theorem startsOperator_constant (c : Constant) (rest : List Char) :
    startsOperator ((NTriples.constant c).toList ++ rest) = false := by
  cases c with
  | iri i => simpa [NTriples.constant, NTriples.iri] using startsOperator_iri i rest
  | blank label =>
    have h := startsOperator_of_not_inOperator (c := '_') (List.not_mem_nil) (by decide) (by decide)
      (':' :: (label.text.toList ++ rest))
    simpa [NTriples.constant] using h
  | literal l =>
    obtain ⟨tail, htail⟩ := NTriples.literal_head l
    rw [NTriples.constant, htail]
    exact startsOperator_of_not_inOperator List.not_mem_nil (by decide) (by decide) _

/-- Only a variable can be taken for an operator, and only before a blank. -/
theorem startsOperator_nested {e : Expr} (he : e.Named) {rest : List Char}
    (hrest : Text.Delimited rest)
    (h : startsOperator ((spelling.nested Naming.full e).toList ++ rest) = true) :
    (∃ v, e = .var v) ∧ rest.head? = some ' ' := by
  have hcall {name : String} (hname : Text.IsWord name) (args : List String) :
      ¬ startsOperator ((Spelling.call name args).toList ++ rest) = true := by
    rw [startsOperator_call hname]
    exact Bool.false_ne_true
  cases e with
  | var v =>
    have hword : ' ' ∉ v.name.toList := not_mem_of_isWord (Expr.isWord_var he.worded)
    refine ⟨⟨v, rfl⟩, ?_⟩
    change startsOperator (v.name.toList ++ rest) = true at h
    cases rest with
    | nil =>
      rw [startsOperator, (firstToken_append hword []).2] at h
      simp [afterToken] at h
    | cons c rest =>
      rcases hrest with rfl | rfl | rfl | ⟨rfl, -⟩
      · rfl
      all_goals
        rw [startsOperator_of_not_inOperator hword (by decide) (by decide)] at h
        cases h
  | const c =>
    change startsOperator ((Naming.full.constant c).toList ++ rest) = true at h
    rw [Naming.full_constant, startsOperator_constant] at h
    cases h
  | bound v => exact absurd h (hcall (by decide) _)
  | not e =>
    have hnot : ' ' ∉ "not".toList := by decide
    change startsOperator (("not " ++ spelling.nested Naming.full e).toList ++ rest) = true at h
    have htext : ("not " ++ spelling.nested Naming.full e).toList ++ rest =
        "not".toList ++ ' ' :: ((spelling.nested Naming.full e).toList ++ rest) := by
      simp [String.toList_append]
    rw [htext, startsOperator, Bool.and_eq_true, (firstToken_append hnot _).1] at h
    have hne := (inOperator_of_operator? h.1).2.2
    simp [firstToken] at hne
  | function f arg => exact absurd h (hcall (spelling_distinct.function_isWord f) _)
  | relation r left right => exact absurd h (hcall (Spelling.relation_isWord r) _)
  | operation op left right =>
    rw [Spelling.nested_operation, String.append_assoc, String.toList_append, List.append_assoc]
      at h
    have hopen := startsOperator_of_not_inOperator (c := '(') List.not_mem_nil (by decide)
      (by decide)
    exact absurd ((hopen _).symm.trans h) Bool.false_ne_true
  | regex arg pattern => exact absurd h (hcall (by decide) _)
  | regexWith arg pattern flags => exact absurd h (hcall (by decide) _)
  | call name args =>
    change startsOperator ((Spelling.call (NTriples.iri name) _).toList ++ rest) = true at h
    have hiri := startsOperator_iri name
    rw [call_toList] at h
    simp only [NTriples.iri, String.toList_append, List.append_assoc] at h
    exact absurd ((hiri _).symm.trans h) Bool.false_ne_true

theorem startsOperator_operator (op : Operator) (rest : List Char) :
    startsOperator ((spelling.operator op).toList ++ ' ' :: rest) = true := by
  obtain ⟨hfirst, hafter⟩ := firstToken_append (spelling_distinct.no_blank_operator op) (' ' :: rest)
  have hblank : firstToken (' ' :: rest) = [] ∧ afterToken (' ' :: rest) = ' ' :: rest := by
    simp [firstToken, afterToken]
  rw [startsOperator, hfirst, hafter, hblank.1, hblank.2, List.append_nil,
    spelling_distinct.operator?_operator]
  rfl

/-! ## Operands -/

/-- What may follow an operand: the end of the expression, or an operator and the right operand,
after which it ends. -/
def Follows (rest : List Char) : Prop :=
  Text.Ended rest ∨ ∃ op right end', right.Named ∧ Text.Ended end' ∧
    rest = spelling.continued op right end'

theorem Follows.delimited {rest : List Char} (h : Follows rest) : Text.Delimited rest := by
  rcases h with h | ⟨op, right, end', -, -, rfl⟩
  · exact h.delimited
  · exact Text.Delimited.blank _

theorem negates_nested {e : Expr} (he : e.Named) {rest : List Char} (hrest : Follows rest) :
    negates ((spelling.nested Naming.full e).toList ++ rest) = true := by
  rw [negates]
  cases hstarts : startsOperator ((spelling.nested Naming.full e).toList ++ rest) with
  | false => rfl
  | true =>
    obtain ⟨⟨v, rfl⟩, hblank⟩ := startsOperator_nested he hrest.delimited hstarts
    rcases hrest with hrest | ⟨op, right, end', -, -, rfl⟩
    · exact absurd hblank hrest.no_blank
    · have hword : ' ' ∉ v.name.toList := not_mem_of_isWord (Expr.isWord_var he.worded)
      show startsOperator ((afterToken (v.name.toList ++ spelling.continued op right end')).drop 1)
        = true
      rw [(firstToken_append hword _).2]
      simpa [afterToken, Spelling.continued] using startsOperator_operator op _

/-- Before an operator and its right operand `not` is no negation. -/
theorem not_negates_operator (op : Operator) {right : Expr} (hright : right.Named)
    {rest : List Char} (hrest : Text.Ended rest) :
    negates ((spelling.operator op).toList ++
      ' ' :: ((spelling.nested Naming.full right).toList ++ rest)) = false := by
  have hafter := (firstToken_append (spelling_distinct.no_blank_operator op)
    (' ' :: ((spelling.nested Naming.full right).toList ++ rest))).2
  have hright : startsOperator ((spelling.nested Naming.full right).toList ++ rest) = false := by
    by_contra h
    rw [Bool.not_eq_false] at h
    exact hrest.no_blank (startsOperator_nested hright hrest.delimited h).2
  rw [negates, startsOperator_operator, hafter]
  simpa [afterToken] using hright

/-- A word is the name of a variable or of a call, or the negation. -/
def readWord (operand : Reader Expr) (args : Reader (List Expr)) : Reader Expr := fun cs =>
  let word := cs.takeWhile Text.inWord
  let named := Expr.var (.user (String.ofList word))
  if word = [] then none
  else match cs.dropWhile Text.inWord with
    | '(' :: rest =>
      (args rest).bind fun es => (spelling.wordCall? word es.1).map fun e => (e, es.2)
    | ' ' :: rest =>
      if word = "not".toList ∧ negates rest = true then
        (operand rest).map fun e => (.not e.1, e.2)
      else some (named, ' ' :: rest)
    | rest => some (named, rest)

def readOperand : (depth : Nat) → Reader Expr
  | 0, _ => none
  | depth + 1, cs =>
    let item := spelling.readInfix (readOperand depth)
    match cs with
    | '(' :: cs => readBracketed item cs
    | '<' :: cs => readNamed (Spelling.readArgs item depth) cs
    | '_' :: ':' :: cs => readConstant ('_' :: ':' :: cs)
    | '"' :: cs => readConstant ('"' :: cs)
    | cs => readWord (readOperand depth) (Spelling.readArgs item depth) cs

theorem readOperand_close (depth : Nat) (cs : List Char) :
    readOperand depth (')' :: cs) = none := by
  cases depth with
  | zero => rfl
  | succ depth => rfl

section

variable {word : String} (hword : Text.IsWord word) (hne : word ≠ "")

include hword hne

/-- Words begin with none of the signs. -/
theorem readOperand_word {rest : List Char} (hcolon : rest.head? ≠ some ':') (depth : Nat) :
    readOperand (depth + 1) (word.toList ++ rest) =
      readWord (readOperand depth)
        (Spelling.readArgs (spelling.readInfix (readOperand depth)) depth) (word.toList ++ rest) := by
  cases htext : word.toList with
  | nil => exact absurd (String.toList_eq_nil_iff.1 htext) hne
  | cons first tail =>
    have hin : ∀ c ∈ first :: tail, Text.inWord c = true := fun c hc => hword c (htext ▸ hc)
    have hfirst := hin first (List.mem_cons_self ..)
    rw [List.cons_append, readOperand]
    · rintro cs ⟨⟩
      exact absurd hfirst (by decide)
    · rintro cs ⟨⟩
      exact absurd hfirst (by decide)
    · intro cs hcs
      cases tail with
      | nil =>
        cases hcs
        exact hcolon rfl
      | cons second tail =>
        cases hcs
        exact absurd (hin ':' (by simp)) (by decide)
    · rintro cs ⟨⟩
      exact absurd hfirst (by decide)

theorem readWord_call (operand : Reader Expr) (args : Reader (List Expr)) (cs : List Char) :
    readWord operand args (word.toList ++ '(' :: cs) =
      (args cs).bind fun es => (spelling.wordCall? word.toList es.1).map fun e => (e, es.2) := by
  obtain ⟨htake, hdrop⟩ := Text.inWord_span hword
    (show ('(' :: cs).takeWhile Text.inWord = [] from rfl)
  have hnil : word.toList ≠ [] := fun h => hne (String.toList_eq_nil_iff.1 h)
  simp only [readWord, htake, hdrop, if_neg hnil]

theorem readWord_variable (operand : Reader Expr) (args : Reader (List Expr)) {rest : List Char}
    (hrest : Follows rest) :
    readWord operand args (word.toList ++ rest) = some (.var (.user word), rest) := by
  obtain ⟨htake, hdrop⟩ := Text.inWord_span hword
    (Text.takeWhile_inWord_of_delimited hrest.delimited)
  have hnil : word.toList ≠ [] := fun h => hne (String.toList_eq_nil_iff.1 h)
  simp only [readWord, htake, hdrop, if_neg hnil, String.ofList_toList]
  rcases hrest with hrest | ⟨op, right, end', hright, hend, rfl⟩
  · cases rest with
    | nil => rfl
    | cons c rest =>
      rcases hrest.delimited with rfl | rfl | rfl | ⟨rfl, -⟩
      · exact absurd rfl hrest.no_blank
      all_goals rfl
  · simp only [Spelling.continued, not_negates_operator op hright hend, Bool.false_eq_true,
      and_false, if_false]

end

/-- The negation is read where it negates. -/
theorem readWord_not (operand : Reader Expr) (args : Reader (List Expr)) {cs : List Char}
    (h : negates cs = true) :
    readWord operand args ("not".toList ++ ' ' :: cs) =
      (operand cs).map fun e => (.not e.1, e.2) := by
  obtain ⟨htake, hdrop⟩ := Text.inWord_span (show Text.IsWord "not" by decide)
    (show (' ' :: cs).takeWhile Text.inWord = [] from rfl)
  have hnil : "not".toList ≠ [] := by decide
  simp only [readWord, htake, hdrop, if_neg hnil, h, and_self, if_true]

/-! ## Reading what was written -/

theorem admits_follows : spelling.Admits Expr.Named Follows where
  part := Expr.named_part
  ended := Or.inl
  continued := fun op _ _ hright hrest => Or.inr ⟨op, _, _, hright, hrest, rfl⟩

theorem reads_constant (depth : Nat) (c : Constant) :
    spelling.Reads Follows (readOperand (depth + 1)) (.const c) := by
  intro rest hrest
  have hread := Constant.read?_constant c hrest.delimited
  have htext : spelling.nested Naming.full (.const c) = NTriples.constant c := by
    rw [Spelling.nested, Spelling.operand, if_neg (by simp [Expr.isOperation]),
      Spelling.expr, Naming.full_constant]
  rw [htext]
  cases c with
  | iri i =>
    have hopen : "<".toList = ['<'] := rfl
    have hclose : ">".toList = ['>'] := rfl
    simp only [NTriples.constant, NTriples.iri, String.toList_append, hopen, hclose,
      List.append_assoc, List.cons_append, List.nil_append, readOperand,
      readNamed_constant _ i hrest.delimited, Expr.plain]
  | blank label =>
    have hopen : "_:".toList = ['_', ':'] := rfl
    simp only [NTriples.constant, String.toList_append, hopen, List.cons_append,
      List.nil_append] at hread ⊢
    simp only [readOperand, readConstant, hread, Option.map_some, Expr.plain]
  | literal l =>
    obtain ⟨tail, htail⟩ := NTriples.literal_head l
    rw [NTriples.constant, htail, List.cons_append] at hread ⊢
    simp only [readOperand, readConstant, hread, Option.map_some, Expr.plain]

/-- A call by a word is read as the expression that the word makes of the arguments. -/
theorem readOperand_call {depth : Nat}
    (ih : ∀ e : Expr, e.size ≤ depth → e.Named → spelling.Reads Follows (readOperand depth) e)
    {word : String} (hword : Text.IsWord word) (hne : word ≠ "") (es : List Expr)
    (hsize : Expr.sizeAll es ≤ depth) (hes : ∀ e ∈ es, e.Named) {e : Expr}
    (he : spelling.wordCall? word.toList (Expr.plainAll es) = some e) (rest : List Char) :
    readOperand (depth + 1)
        ((Spelling.call word (spelling.exprs Naming.full es)).toList ++ rest) =
      some (e, rest) := by
  have hargs := Spelling.readArgs_exprs spelling_distinct admits_follows ih
    (readOperand_close depth) hsize hes rest
  rw [call_toList, readOperand_word hword hne (by simp), readWord_call hword hne, hargs,
    Option.bind_some, he, Option.map_some]

/-- Every expression is read again where it stands as an operand. -/
theorem reads_expr (depth : Nat) : ∀ e : Expr, e.size ≤ depth → e.Named →
    spelling.Reads Follows (readOperand depth) e := by
  induction depth with
  | zero =>
    intro e hsize
    have := Expr.size_pos e
    omega
  | succ depth ih =>
    intro e hsize he rest hrest
    cases e with
    | var v =>
      have hcolon : rest.head? ≠ some ':' := by
        cases rest with
        | nil => simp
        | cons c rest => rcases hrest.delimited with rfl | rfl | rfl | ⟨rfl, -⟩ <;> simp
      have hword := Expr.isWord_var he.worded
      show readOperand (depth + 1) (v.name.toList ++ rest) = _
      rw [readOperand_word hword (Expr.named_var he) hcolon,
        readWord_variable hword (Expr.named_var he) _ _ hrest, Expr.plain, Variable.plain]
    | const c => exact reads_constant depth c rest hrest
    | bound v =>
      rw [Expr.size] at hsize
      have hv : (Expr.var v).Named := by
        intro w hw
        exact he w (by simpa [Expr.variables, Expr.walk, Expr.ownVariables] using hw)
      exact readOperand_call ih (by decide) (by decide) [.var v]
        (by simp only [Expr.sizeAll, Expr.size]; omega) (by simpa using hv)
        (Spelling.wordCall?_bound spelling v.plain) rest
    | not e =>
      rw [Expr.size] at hsize
      have he' : e.Named := Expr.named_part he (List.mem_singleton_self e)
      have htext : (spelling.nested Naming.full (.not e)).toList ++ rest =
          "not".toList ++ ' ' :: ((spelling.nested Naming.full e).toList ++ rest) := by
        show ("not " ++ spelling.nested Naming.full e).toList ++ rest = _
        simp [String.toList_append]
      rw [htext, readOperand_word (by decide) (by decide) (by simp),
        readWord_not _ _ (negates_nested he' hrest), ih e (by omega) he' rest hrest,
        Option.map_some, Expr.plain]
    | function f arg =>
      rw [Expr.size] at hsize
      exact readOperand_call ih (spelling_distinct.function_isWord f) (by cases f <;> decide) [arg]
        (by simp only [Expr.sizeAll]; omega) (fun _ => Expr.named_part he)
        (Spelling.wordCall?_function spelling_distinct f arg.plain) rest
    | relation r left right =>
      rw [Expr.size] at hsize
      exact readOperand_call ih (Spelling.relation_isWord r) (by cases r <;> decide) [left, right]
        (by simp only [Expr.sizeAll]; omega) (fun _ => Expr.named_part he)
        (Spelling.wordCall?_relation spelling r left.plain right.plain) rest
    | operation op left right =>
      have hopen : "(".toList = ['('] := rfl
      have hclose : ")".toList = [')'] := rfl
      have hinner := Spelling.readInfix_of_reads spelling_distinct admits_follows ih he hsize
        (Text.Ended.close rest)
      rw [Spelling.nested_operation]
      simp only [String.toList_append, hopen, hclose, List.append_assoc, List.cons_append,
        List.nil_append, readOperand, readBracketed, hinner, Option.bind_some]
    | regex arg pattern =>
      rw [Expr.size] at hsize
      exact readOperand_call ih (by decide) (by decide) [arg, pattern]
        (by simp only [Expr.sizeAll]; omega) (fun _ => Expr.named_part he)
        (Spelling.wordCall?_regex spelling arg.plain pattern.plain) rest
    | regexWith arg pattern flags =>
      rw [Expr.size] at hsize
      exact readOperand_call ih (by decide) (by decide) [arg, pattern, flags]
        (by simp only [Expr.sizeAll]; omega) (fun _ => Expr.named_part he)
        (Spelling.wordCall?_regexWith spelling arg.plain pattern.plain flags.plain) rest
    | call name args =>
      have hopen : "<".toList = ['<'] := rfl
      have hclose : ">".toList = ['>'] := rfl
      rw [Expr.size] at hsize
      show readOperand (depth + 1)
        ((Spelling.call (NTriples.iri name) (spelling.exprs Naming.full args)).toList ++ rest) = _
      have hargs := Spelling.readArgs_exprs spelling_distinct admits_follows ih
        (readOperand_close depth) (show Expr.sizeAll args ≤ depth by omega)
        (fun _ => Expr.named_part he) rest
      rw [call_toList]
      simp only [NTriples.iri, String.toList_append, hopen, hclose, List.append_assoc,
        List.cons_append, List.nil_append, readOperand, readNamed, Iri.read?_text,
        Option.bind_some, hargs, Option.map_some, Expr.plain]

end Serql

end RdfQuery
