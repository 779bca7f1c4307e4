import RdfQuery.Proofs.Expr.OneLine
import RdfQuery.Proofs.Sparql.Reader
import RdfQuery.Sparql.Element

/-!
# Lines of a where-block

An element is written as lines, each at a depth: one line for a triple or a
filter, and for the others the lines that open and close their blocks with
the lines of their bodies between them. A line is read again by itself.
-/

set_option autoImplicit false

namespace RdfQuery

namespace Text

/-- What stands after a mark, where the text begins with it. -/
def after? (mark : String) (cs : List Char) : Option (List Char) :=
  if mark.toList <+: cs then some (cs.drop mark.toList.length) else none

theorem after?_append (mark : String) (rest : List Char) :
    after? mark (mark.toList ++ rest) = some rest := by
  rw [after?, if_pos (List.prefix_append _ _), List.drop_left]

theorem after?_eq_none (mark : String) {c first : Char} {cs : List Char}
    (hmark : mark.toList.head? = some c) (hne : c ≠ first) (hcs : cs.head? = some first) :
    after? mark cs = none := by
  rw [after?, if_neg]
  rintro ⟨rest, rfl⟩
  rw [List.head?_append, hmark, Option.some_or] at hcs
  exact hne (Option.some.inj hcs)

end Text

namespace Sparql

theorem spelling_oneLine : spelling.OneLine where
  variableName := by
    intro name hname
    exact Text.oneLine_append.2 ⟨by decide, hname⟩
  negation := by decide
  function := by
    intro f
    cases f <;> decide
  operator := by
    intro op
    rcases op with _ | _ | c
    · decide
    · decide
    · cases c <;> decide

/-- What the lines around the bodies of elements say. -/
inductive Sign where
  | optional
  | minus
  | opening
  | closing
  | union
  | ending
  deriving DecidableEq

namespace Sign

def all : List Sign := [.optional, .minus, .opening, .closing, .union, .ending]

def text : Sign → String
  | .optional => "OPTIONAL \x7b"
  | .minus => "MINUS \x7b"
  | .opening => "\x7b"
  | .closing => "\x7d"
  | .union => "UNION"
  | .ending => "\x7d."

def read? (cs : List Char) : Option Sign := all.find? fun s => s.text.toList = cs

theorem read?_text (s : Sign) : read? s.text.toList = some s := by
  cases s <;> decide

def initials : List Char := ['O', 'M', '\x7b', '\x7d', 'U']

theorem head_text (s : Sign) : ∃ first ∈ initials, s.text.toList.head? = some first := by
  cases s <;> exact ⟨_, by decide, rfl⟩

theorem read?_eq_none {first : Char} {cs : List Char} (hhead : cs.head? = some first)
    (hfirst : first ∉ initials) : read? cs = none := by
  rw [read?, List.find?_eq_none]
  intro s _ htext
  obtain ⟨c, hc, hchead⟩ := head_text s
  rw [of_decide_eq_true htext, hhead] at hchead
  exact hfirst (Option.some.inj hchead ▸ hc)

theorem oneLine_text (s : Sign) : Text.OneLine s.text := by
  cases s <;> decide

theorem head?_text (s : Sign) : s.text.toList.head? ≠ some ' ' := by
  cases s <;> decide

end Sign

inductive Line where
  | triple (subject predicate object : Term)
  | filter (condition : Expr)
  | graph (name : Term)
  | sign (s : Sign)

namespace Line

def text (p : Pen) : Line → String
  | .triple subject predicate object => p.triple subject predicate object
  | .filter condition => p.filter condition
  | .graph name => "GRAPH " ++ term p.naming name ++ " \x7b"
  | .sign s => s.text

def plain : Line → Line
  | .triple subject predicate object => .triple subject.plain predicate.plain object.plain
  | .filter condition => .filter condition.plain
  | .graph name => .graph name.plain
  | .sign s => .sign s

def Worded : Line → Prop
  | .triple subject predicate object => subject.Worded ∧ predicate.Worded ∧ object.Worded
  | .filter condition => condition.Worded
  | .graph name => name.Worded
  | .sign _ => True

/-- The number of blocks that the line opens. -/
def opens : Line → Nat
  | .graph _ => 1
  | .sign .optional => 1
  | .sign .minus => 1
  | .sign .opening => 1
  | _ => 0

/-- The number of blocks that end at the line. -/
def closes : Line → Nat
  | .sign .closing => 1
  | .sign .ending => 1
  | _ => 0

/-! ## Reading -/

/-- Three terms with a blank before the second and the third, and a dot. -/
def readTriple (cs : List Char) : Option Line := do
  let (subject, cs) ← readTerm cs
  let (predicate, cs) ← readTerm (← Text.after? " " cs)
  let (object, cs) ← readTerm (← Text.after? " " cs)
  if cs = ".".toList then some (.triple subject predicate object) else none

def readGraph (cs : List Char) : Option Line := do
  let (name, cs) ← readTerm cs
  if cs = " \x7b".toList then some (.graph name) else none

def readFilter (cs : List Char) : Option Line := do
  let (condition, cs) ← readExpr cs
  if cs = ").".toList then some (.filter condition) else none

def readPhrase (cs : List Char) : Option Line :=
  match Text.after? "GRAPH " cs, Text.after? "filter (" cs with
  | some rest, _ => readGraph rest
  | none, some rest => readFilter rest
  | none, none => readTriple cs

def read? (cs : List Char) : Option Line :=
  match Sign.read? cs with
  | some s => some (.sign s)
  | none => readPhrase cs

/-- A line that begins like no sign is a phrase. -/
theorem read?_phrase {cs : List Char} {first : Char} (hhead : cs.head? = some first)
    (hfirst : first ∉ Sign.initials) : read? cs = readPhrase cs := by
  rw [read?, Sign.read?_eq_none hhead hfirst]

theorem term_head (t : Term) :
    ∃ first ∈ ['?', '<', '_', '"'], (term Naming.full t).toList.head? = some first := by
  cases t with
  | var v => exact ⟨'?', by simp, by simp [term, Spelling.term, spelling, variableText]⟩
  | const c =>
    obtain ⟨first, tail, htext, hfirst⟩ := constant_head c
    refine ⟨first, List.mem_cons_of_mem _ hfirst, ?_⟩
    rw [term, Spelling.term, Naming.full_constant, htext, List.head?_cons]

section

variable {p : Pen} (hp : p.naming = Naming.full)

include hp

theorem text_triple (subject predicate object : Term) :
    (text p (.triple subject predicate object)).toList =
      (term Naming.full subject).toList ++ (" ".toList ++ ((term Naming.full predicate).toList ++
        (" ".toList ++ ((term Naming.full object).toList ++ ".".toList)))) := by
  simp only [text, Pen.triple, hp, String.toList_append, List.append_assoc]

theorem text_head_triple (subject predicate object : Term) :
    ∃ first ∈ ['?', '<', '_', '"'],
      (text p (.triple subject predicate object)).toList.head? = some first := by
  obtain ⟨first, hfirst, hhead⟩ := term_head subject
  refine ⟨first, hfirst, ?_⟩
  rw [text_triple hp, List.head?_append, hhead, Option.some_or]

theorem read?_triple {subject predicate object : Term} (hsubject : subject.Worded)
    (hpredicate : predicate.Worded) (hobject : object.Worded) :
    read? (text p (.triple subject predicate object)).toList =
      some (plain (.triple subject predicate object)) := by
  have hblank : ∀ rest, Text.Delimited (" ".toList ++ rest) := Text.Delimited.blank
  have hdot : Text.Delimited ".".toList := Or.inr (Or.inr (Or.inr ⟨rfl, rfl⟩))
  have hmarks : ∀ c ∈ ['?', '<', '_', '"'], c ∉ Sign.initials := by
    simp only [List.forall_mem_cons, List.not_mem_nil, false_imp_iff, implies_true, and_true]
    decide
  obtain ⟨first, hfirst, hhead⟩ := text_head_triple hp subject predicate object
  have hgraph := Text.after?_eq_none "GRAPH " (by decide)
    (show 'G' ≠ first by rintro rfl; revert hfirst; decide) hhead
  have hfilter := Text.after?_eq_none "filter (" (by decide)
    (show 'f' ≠ first by rintro rfl; revert hfirst; decide) hhead
  rw [read?_phrase hhead (hmarks first hfirst), readPhrase, hgraph, hfilter]
  show readTriple _ = _
  rw [text_triple hp, readTriple, readTerm_append hsubject (hblank _)]
  simp only [Option.bind_eq_bind, Option.bind_some, Text.after?_append]
  rw [readTerm_append hpredicate (hblank _)]
  simp only [Option.bind_some, Text.after?_append]
  rw [readTerm_append hobject hdot]
  rfl

theorem text_filter (condition : Expr) :
    (text p (.filter condition)).toList =
      "filter (".toList ++ ((expr Naming.full condition).toList ++ ").".toList) := by
  simp only [text, Pen.filter, hp, String.toList_append, List.append_assoc]

theorem read?_filter {condition : Expr} (h : condition.Worded) :
    read? (text p (.filter condition)).toList = some (plain (.filter condition)) := by
  have hhead : (text p (.filter condition)).toList.head? = some 'f' := by
    rw [text_filter hp]
    rfl
  have hgraph := Text.after?_eq_none "GRAPH " (by decide)
    (show 'G' ≠ 'f' by decide) hhead
  rw [read?_phrase hhead (by decide), readPhrase, hgraph, text_filter hp, Text.after?_append]
  show readFilter _ = _
  rw [readFilter, readExpr_append h (show Text.Ended ").".toList from Text.Ended.close _)]
  rfl

theorem text_graph (name : Term) :
    (text p (.graph name)).toList =
      "GRAPH ".toList ++ ((term Naming.full name).toList ++ " \x7b".toList) := by
  simp only [text, hp, String.toList_append, List.append_assoc]

theorem read?_graph {name : Term} (h : name.Worded) :
    read? (text p (.graph name)).toList = some (plain (.graph name)) := by
  have hhead : (text p (.graph name)).toList.head? = some 'G' := by
    rw [text_graph hp]
    rfl
  rw [read?_phrase hhead (by decide), readPhrase, text_graph hp, Text.after?_append]
  show readGraph _ = _
  rw [readGraph, readTerm_append h (show Text.Delimited " \x7b".toList from Text.Delimited.blank _)]
  rfl

/-- A line is read again from its own text. -/
theorem read?_text {l : Line} (hl : l.Worded) : read? (l.text p).toList = some l.plain := by
  cases l with
  | triple subject predicate object => exact read?_triple hp hl.1 hl.2.1 hl.2.2
  | filter condition => exact read?_filter hp hl
  | graph name => exact read?_graph hp hl
  | sign s => rw [text, read?, Sign.read?_text, plain]

theorem oneLine_text {l : Line} (hl : l.Worded) : Text.OneLine (l.text p) := by
  have hblank : Text.OneLine " " := by decide
  cases l with
  | triple subject predicate object =>
    simp only [text, Pen.triple, hp, Text.oneLine_append]
    exact ⟨⟨⟨⟨⟨Spelling.oneLine_term spelling_oneLine hl.1, hblank⟩,
      Spelling.oneLine_term spelling_oneLine hl.2.1⟩, hblank⟩,
      Spelling.oneLine_term spelling_oneLine hl.2.2⟩, by decide⟩
  | filter condition =>
    simp only [text, Pen.filter, hp, Text.oneLine_append]
    exact ⟨⟨by decide, Spelling.oneLine_expr spelling_oneLine hl⟩, by decide⟩
  | graph name =>
    simp only [text, hp, Text.oneLine_append]
    exact ⟨⟨by decide, Spelling.oneLine_term spelling_oneLine hl⟩, by decide⟩
  | sign s => exact s.oneLine_text

/-- No line begins with a blank, so the blanks before it are its indentation. -/
theorem head?_text (l : Line) : (l.text p).toList.head? ≠ some ' ' := by
  cases l with
  | triple subject predicate object =>
    obtain ⟨first, hfirst, hhead⟩ := text_head_triple hp subject predicate object
    rw [hhead]
    rintro ⟨⟩
    revert hfirst
    decide
  | filter condition =>
    rw [text_filter hp]
    exact (by decide : some 'f' ≠ some ' ')
  | graph name =>
    rw [text_graph hp]
    exact (by decide : some 'G' ≠ some ' ')
  | sign s => exact s.head?_text

end

end Line

/-! ## The lines of an element -/

mutual

def Element.lines (depth : Nat) : Element → List (Nat × Line)
  | .triple subject predicate object => [(depth, .triple subject predicate object)]
  | .filter condition => [(depth, .filter condition)]
  | .optional body =>
    (depth, .sign .optional) :: (bodyLines (depth + 1) body ++ [(depth, .sign .ending)])
  | .minus body => (depth, .sign .minus) :: (bodyLines (depth + 1) body ++ [(depth, .sign .ending)])
  | .union left right =>
    (depth, .sign .opening) :: (bodyLines (depth + 1) left ++
      (depth, .sign .closing) :: (depth, .sign .union) :: (depth, .sign .opening) ::
        (bodyLines (depth + 1) right ++ [(depth, .sign .ending)]))
  | .graph name body =>
    (depth, .graph name) :: (bodyLines (depth + 1) body ++ [(depth, .sign .ending)])

def bodyLines (depth : Nat) : List Element → List (Nat × Line)
  | [] => []
  | e :: es => e.lines depth ++ bodyLines depth es

end

def linesText (p : Pen) (lines : List (Nat × Line)) : String :=
  Text.concatenated (lines.map fun l => p.line l.1 (l.2.text p))

theorem linesText_append (p : Pen) (ls ks : List (Nat × Line)) :
    linesText p (ls ++ ks) = linesText p ls ++ linesText p ks := by
  rw [linesText, List.map_append, Text.concatenated_append]
  rfl

theorem linesText_cons (p : Pen) (l : Nat × Line) (ls : List (Nat × Line)) :
    linesText p (l :: ls) = p.line l.1 (l.2.text p) ++ linesText p ls := rfl

theorem linesText_nil (p : Pen) : linesText p [] = "" := rfl

mutual

theorem Element.linesText_lines (p : Pen) (depth : Nat) :
    ∀ e : Element, linesText p (e.lines depth) = e.text p depth
  | .triple _ _ _ => by
    rw [Element.lines, Element.text, linesText_cons, linesText_nil, String.append_empty]
    rfl
  | .filter _ => by
    rw [Element.lines, Element.text, linesText_cons, linesText_nil, String.append_empty]
    rfl
  | .optional body => by
    rw [Element.lines, Element.text, linesText_cons, linesText_append, linesText_cons,
      linesText_nil, String.append_empty, linesText_bodyLines p (depth + 1) body,
      String.append_assoc]
    rfl
  | .minus body => by
    rw [Element.lines, Element.text, linesText_cons, linesText_append, linesText_cons,
      linesText_nil, String.append_empty, linesText_bodyLines p (depth + 1) body,
      String.append_assoc]
    rfl
  | .union left right => by
    simp only [Element.lines, Element.text, linesText_cons, linesText_append, linesText_nil,
      String.append_empty, linesText_bodyLines p (depth + 1) left,
      linesText_bodyLines p (depth + 1) right, String.append_assoc]
    rfl
  | .graph name body => by
    rw [Element.lines, Element.text, linesText_cons, linesText_append, linesText_cons,
      linesText_nil, String.append_empty, linesText_bodyLines p (depth + 1) body,
      String.append_assoc]
    rfl

theorem linesText_bodyLines (p : Pen) (depth : Nat) :
    ∀ es : List Element, linesText p (bodyLines depth es) = bodyText p depth es
  | [] => rfl
  | e :: es => by
    rw [bodyLines, bodyText, linesText_append, Element.linesText_lines p depth e,
      linesText_bodyLines p depth es]

end

end Sparql

end RdfQuery
