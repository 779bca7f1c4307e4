import RdfQuery.Proofs.Sparql.Block

/-!
# The layout of a where-block

The text of a query over a body can be read again: every element once, in
order, and in its own block. Braces, line breaks and keywords inside literals
do not get in the way, and the indentation shows how many blocks are open.
-/

set_option autoImplicit false

namespace RdfQuery

namespace Text

def lines (text : String) : List (List Char) := text.toList.splitOn '\n'

/-- How many blocks the line leaves open. -/
def opened (content : List Char) : Nat := if content.getLast? = some '\x7b' then 1 else 0

/-- How many blocks end where the line begins. -/
def closed (content : List Char) : Nat := if content.head? = some '\x7d' then 1 else 0

/-- Each line stands after `width` blanks for every block that is open at it. -/
def Indented (width : Nat) : (depth : Nat) → List (List Char) → Prop
  | depth, [] => depth = 0
  | depth, line :: rest => ∃ outer content, depth = outer + closed content ∧
      line = List.replicate (width * outer) ' ' ++ content ∧ content.head? ≠ some ' ' ∧
      Indented width (outer + opened content) rest

theorem lines_append {line : String} (hline : OneLine line) (rest : String) :
    lines (line ++ "\n" ++ rest) = line.toList :: lines rest := by
  have hbreak : "\n".toList = ['\n'] := rfl
  rw [lines, String.toList_append, String.toList_append, hbreak, List.append_assoc]
  exact List.splitOn_append_cons_self_of_not_mem hline _

/-- Lines outside of all blocks are not indented. -/
theorem indented_outermost {width : Nat} (content : List Char) {rest : List (List Char)}
    (hhead : content.head? ≠ some ' ') (hrest : Indented width (opened content) rest) :
    Indented width (closed content) (content :: rest) := by
  refine ⟨0, content, (Nat.zero_add _).symm, ?_, hhead, ?_⟩
  · rw [Nat.mul_zero, List.replicate_zero, List.nil_append]
  · rw [Nat.zero_add]
    exact hrest

end Text

namespace Sparql

def readLines (lines : List (List Char)) : Option (List Line) :=
  lines.mapM fun line => Line.read? (line.dropWhile (· = ' '))

/-- The elements of the where-block of a query that selects everything. -/
def readWhere (text : String) : Option (List Element) :=
  match Text.lines text with
  | head :: first :: rest =>
    if head = "select *".toList ∧ first = "where \x7b".toList then
      (readLines rest).bind fun lines => ((Reading.inside [] []).run lines).bind Reading.body?
    else none
  | _ => none

/-! ## The lines of the text -/

section

variable {p : Pen} (hp : p.naming = Naming.full)

/-- The characters of a line at its depth. -/
def lineChars (p : Pen) (l : Nat × Line) : List Char :=
  List.replicate (p.style.indentWidth * l.1) ' ' ++ (l.2.text p).toList

theorem line_eq (p : Pen) (l : Nat × Line) :
    p.line l.1 (l.2.text p) = String.ofList (lineChars p l) ++ "\n" := by
  rw [Pen.line, Style.indent, Text.blanks, lineChars, String.ofList_append, String.ofList_toList]

theorem dropWhile_blanks (count : Nat) (cs : List Char) :
    (List.replicate count ' ' ++ cs).dropWhile (· = ' ') = cs.dropWhile (· = ' ') := by
  induction count with
  | zero => rfl
  | succ count ih => exact ih

theorem opened_text (p : Pen) (l : Line) : Text.opened (l.text p).toList = l.opens := by
  cases l with
  | triple subject predicate object =>
    have hlast : (Line.text p (.triple subject predicate object)).toList.getLast? = some '.' := by
      simp only [Line.text, Pen.triple, String.toList_append, List.getLast?_append]
      rfl
    rw [Text.opened, hlast]
    rfl
  | filter condition =>
    have hlast : (Line.text p (.filter condition)).toList.getLast? = some '.' := by
      simp only [Line.text, Pen.filter, String.toList_append, List.getLast?_append]
      rfl
    rw [Text.opened, hlast]
    rfl
  | graph name =>
    have hlast : (Line.text p (.graph name)).toList.getLast? = some '\x7b' := by
      simp only [Line.text, String.toList_append, List.getLast?_append]
      rfl
    rw [Text.opened, hlast]
    rfl
  | sign s =>
    show Text.opened s.text.toList = _
    cases s <;> decide

include hp

theorem oneLine_lineChars {l : Nat × Line} (hl : l.2.Worded) :
    Text.OneLine (String.ofList (lineChars p l)) := by
  intro hmem
  rw [String.toList_ofList] at hmem
  rcases List.mem_append.1 hmem with hmem | hmem
  · exact absurd (List.eq_of_mem_replicate hmem) (by decide)
  · exact Line.oneLine_text hp hl hmem

theorem lines_linesText {ls : List (Nat × Line)} (hls : ∀ l ∈ ls, l.2.Worded) (rest : String) :
    Text.lines (linesText p ls ++ rest) = ls.map (lineChars p) ++ Text.lines rest := by
  induction ls with
  | nil => rw [linesText_nil, String.empty_append, List.map_nil, List.nil_append]
  | cons l ls ih =>
    have hfirst := oneLine_lineChars hp (hls l (List.mem_cons_self ..))
    rw [linesText_cons, line_eq, String.append_assoc, Text.lines_append hfirst,
      String.toList_ofList, ih fun x hx => hls x (List.mem_cons_of_mem _ hx), List.map_cons,
      List.cons_append]

theorem readLines_lineChars {ls : List (Nat × Line)} (hls : ∀ l ∈ ls, l.2.Worded)
    (rest : List (List Char)) :
    readLines (ls.map (lineChars p) ++ rest) =
      (readLines rest).map fun lines => plainLines ls ++ lines := by
  induction ls with
  | nil => simp [plainLines]
  | cons l ls ih =>
    have hread := Line.read?_text hp (hls l (List.mem_cons_self ..))
    have hstrip : (l.2.text p).toList.dropWhile (· = ' ') = (l.2.text p).toList := by
      apply BlankLabel.dropWhile_eq_self
      intro c hc
      rw [decide_eq_false_iff_not]
      rintro rfl
      exact Line.head?_text hp l.2 hc
    rw [List.map_cons, List.cons_append, readLines, List.mapM_cons, lineChars, dropWhile_blanks,
      hstrip, hread]
    show (readLines (ls.map (lineChars p) ++ rest)).bind _ = _
    rw [ih fun x hx => hls x (List.mem_cons_of_mem _ hx), plainLines_cons]
    cases readLines rest <;> rfl

/-! ## Indentation -/

theorem closed_text (l : Line) : Text.closed (l.text p).toList = l.closes := by
  cases l with
  | triple subject predicate object =>
    obtain ⟨first, hfirst, hhead⟩ := Line.text_head_triple hp subject predicate object
    rw [Text.closed, hhead, if_neg]
    · rfl
    · rintro ⟨⟩
      revert hfirst
      decide
  | filter condition =>
    rw [Line.text_filter hp]
    rfl
  | graph name =>
    rw [Line.text_graph hp]
    rfl
  | sign s =>
    show Text.closed s.text.toList = _
    cases s <;> decide

theorem indented_cons {l : Line} {outer : Nat} {rest : List (List Char)}
    (hrest : Text.Indented p.style.indentWidth (outer + l.opens) rest) :
    Text.Indented p.style.indentWidth (outer + l.closes) (lineChars p (outer, l) :: rest) :=
  ⟨outer, (l.text p).toList, by rw [closed_text hp], rfl, Line.head?_text hp l,
    by rw [opened_text p]; exact hrest⟩

end

mutual

/-- After the lines of an element as many blocks are open as before. -/
theorem indented_lines {p : Pen} (hp : p.naming = Naming.full) (depth : Nat) :
    ∀ (e : Element) (rest : List (List Char)),
    Text.Indented p.style.indentWidth depth rest →
      Text.Indented p.style.indentWidth depth ((e.lines depth).map (lineChars p) ++ rest)
  | .triple subject predicate object, rest, h =>
    indented_cons hp (l := .triple subject predicate object) h
  | .filter condition, rest, h => indented_cons hp (l := .filter condition) h
  | .optional body, rest, h => by
    have hend := indented_cons hp (l := .sign .ending) h
    have hbody := indented_bodyLines hp (depth + 1) body _ hend
    rw [Element.lines, List.map_cons, List.map_append, List.cons_append, List.append_assoc]
    exact indented_cons hp (l := .sign .optional) hbody
  | .minus body, rest, h => by
    have hend := indented_cons hp (l := .sign .ending) h
    have hbody := indented_bodyLines hp (depth + 1) body _ hend
    rw [Element.lines, List.map_cons, List.map_append, List.cons_append, List.append_assoc]
    exact indented_cons hp (l := .sign .minus) hbody
  | .graph name body, rest, h => by
    have hend := indented_cons hp (l := .sign .ending) h
    have hbody := indented_bodyLines hp (depth + 1) body _ hend
    rw [Element.lines, List.map_cons, List.map_append, List.cons_append, List.append_assoc]
    exact indented_cons hp (l := .graph name) hbody
  | .union left right, rest, h => by
    have hend := indented_cons hp (l := .sign .ending) h
    have hright := indented_bodyLines hp (depth + 1) right _ hend
    have hopening := indented_cons hp (l := .sign .opening) hright
    have hunion := indented_cons hp (l := .sign .union) hopening
    have hclosing := indented_cons hp (l := .sign .closing) hunion
    have hleft := indented_bodyLines hp (depth + 1) left _ hclosing
    simp only [Element.lines, List.map_cons, List.map_append, List.cons_append, List.append_assoc]
    exact indented_cons hp (l := .sign .opening) hleft

theorem indented_bodyLines {p : Pen} (hp : p.naming = Naming.full) (depth : Nat) :
    ∀ (es : List Element) (rest : List (List Char)),
    Text.Indented p.style.indentWidth depth rest →
      Text.Indented p.style.indentWidth depth ((bodyLines depth es).map (lineChars p) ++ rest)
  | [], _, h => h
  | e :: es, rest, h => by
    rw [bodyLines, List.map_append, List.append_assoc]
    exact indented_lines hp depth e _ (indented_bodyLines hp depth es rest h)

end

/-! ## The whole text -/

theorem peel_body {t : Tree} (h : t.isBody = true) : Outline.peel t = { body := some t } := by
  cases t with
  | modify mo arg => cases h
  | bare s => cases h
  | _ => rfl

/-- The text of an accepted body has nothing but its where-block under the head. -/
theorem renderTree_body {s : Style} {t : Tree} {m : GraphMap} {text : String}
    (hbody : t.isBody = true) (hfull : s.compactIris = false) (h : renderTree s t m = .ok text) :
    text = "select *" ++ "\n" ++ ("where \x7b" ++ "\n" ++
      (linesText (Pen.ofStyle s) (bodyLines 1 (blocks t m)) ++ "\x7d")) := by
  obtain ⟨d, hd, h⟩ := Outcome.bind_eq_ok.1 h
  cases h
  obtain ⟨form, hform, hd⟩ := Outcome.bind_eq_ok.1 hd
  obtain ⟨block, hblock, hd⟩ := Outcome.bind_eq_ok.1 hd
  cases hd
  have hkind : (treeQuery t).kind = .select := by
    rw [treeQuery, peel_body hbody]
    rfl
  have htree : (treeQuery t).tree = t := rfl
  rw [htree, peel_body hbody, hkind] at hform hblock
  cases hform
  obtain ⟨es, hes, hblock⟩ := Outcome.bind_eq_ok.1 hblock
  cases hblock
  have hdeclarations (iris : List Iri) : (Pen.ofStyle s).naming.declarations iris = [] := by
    rw [Pen.ofStyle, Naming.ofStyle_full hfull]
    rfl
  have hform : formText (Pen.ofStyle s) (.select .kept []) = "select *" := by
    show "select" ++ "" ++ " *" = "select *"
    decide
  have hwhere : "\nwhere \x7b\n" = "\n" ++ ("where \x7b" ++ "\n") := by decide
  rw [elements_eq_blocks hes, linesText_bodyLines]
  simp only [Document.text, htree, hdeclarations, peel_body hbody]
  show "" ++ formText (Pen.ofStyle s) (.select .kept []) ++ "" ++ ("\nwhere \x7b\n" ++
    bodyText (Pen.ofStyle s) 1 (blocks t m) ++ "" ++ "\x7d") ++ "" ++ "" = _
  rw [hform, hwhere]
  simp only [String.empty_append, String.append_empty, String.append_assoc]

/-- The text of a query over a body tells the elements of the body, and its lines are indented by
the blocks around them. -/
theorem where_block_readable {s : Style} {t : Tree} {m : GraphMap} {text : String}
    (hbody : t.isBody = true) (hwords : t.Worded) (hfull : s.compactIris = false)
    (hm : m = GraphMap.collect t ∨ m = GraphMap.empty) (h : renderTree s t m = .ok text) :
    readWhere text = some (plainBody (blocks t m)) ∧
      Text.Indented s.indentWidth 0 (Text.lines text) := by
  have hp : (Pen.ofStyle s).naming = Naming.full := Naming.ofStyle_full hfull
  have hgraphs : m.Worded := by
    rcases hm with rfl | rfl
    · exact GraphMap.collect_worded hwords
    · exact GraphMap.empty_worded
  have hlined := blocks_lined hwords hgraphs 1
  have hlines : Text.lines text = "select *".toList :: "where \x7b".toList ::
      ((bodyLines 1 (blocks t m)).map (lineChars (Pen.ofStyle s)) ++ ["\x7d".toList]) := by
    rw [renderTree_body hbody hfull h]
    have hlast : Text.lines "\x7d" = ["\x7d".toList] := by decide
    rw [Text.lines_append (by decide), Text.lines_append (by decide), lines_linesText hp hlined,
      hlast]
  rw [hlines]
  constructor
  · have hread : readLines ["\x7d".toList] = some [.sign .closing] := rfl
    rw [readWhere, hlines]
    simp only [and_self, if_true]
    rw [readLines_lineChars hp hlined, hread, Option.map_some, Option.bind_some,
      run_bodyLines]
    rfl
  · have hend : Text.Indented s.indentWidth 1 ["\x7d".toList] :=
      Text.indented_outermost "\x7d".toList (by decide) rfl
    have hbodyLines := indented_bodyLines hp 1 (blocks t m) _ hend
    have hwhere := Text.indented_outermost "where \x7b".toList (by decide) hbodyLines
    exact Text.indented_outermost "select *".toList (by decide) hwhere

/-- A union in an optional part, inside a graph, with braces and a line break in a literal. -/
def bracedText : Tree :=
  let pattern (object : String) (graph : Option Term) : Tree :=
    .pattern ⟨.var (.user "x"), .var (.user "p"), .var (.fresh object), graph⟩
  .leftJoin (pattern "a" (some (.var (.user "g"))))
    (.union (pattern "b" none)
      (.filter (pattern "c" none)
        (.operation (.compare .eq) (.var (.user "c")) (.text "\x7d.\nfilter (\x7b"))))
    (some (.bound (.user "b")))

theorem bracedText_readable :
    bracedText.isBody = true ∧ bracedText.Worded ∧ Style.default.compactIris = false ∧
    ∃ text, renderTree Style.default bracedText (GraphMap.collect bracedText) = .ok text ∧
      readWhere text = some (plainBody (blocks bracedText (GraphMap.collect bracedText))) ∧
      Text.Indented 2 0 (Text.lines text) := by
  have hworded : bracedText.Worded := by decide +kernel
  obtain ⟨text, htext⟩ : ∃ text,
      renderTree Style.default bracedText (GraphMap.collect bracedText) = .ok text := ⟨_, rfl⟩
  exact ⟨rfl, hworded, rfl, text, htext,
    where_block_readable rfl hworded rfl (Or.inl rfl) htext⟩

end Sparql

end RdfQuery
