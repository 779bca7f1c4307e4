import RdfQuery.Proofs.Location
import RdfQuery.Proofs.Placement
import RdfQuery.Proofs.Sparql.Lines

/-!
# Reading the blocks of a body

The elements of a body are put together again from its lines, one line after
the other. What a reader has to remember are the blocks that are open, each
with the elements that stand before it.
-/

set_option autoImplicit false

namespace RdfQuery

/-- Nothing that shapes the solutions of a query is inside. -/
def Tree.isBody : Tree → Bool
  | .unit => true
  | .pattern _ => true
  | .combine _ left right => left.isBody && right.isBody
  | .filter arg _ => arg.isBody
  | .modify _ _ => false
  | .bare _ => false

namespace Sparql

/-- The nested elements a body stands for. -/
def blocks : Tree → GraphMap → List Element
  | .unit, m => enter m.graph? []
  | .pattern p, m => enter m.graph? [.triple p.subject p.predicate p.object]
  | .combine .join left right, m => enter m.graph? (blocks left m.left ++ blocks right m.right)
  | .combine (.leftJoin condition) left right, m =>
    enter m.graph? (blocks left m.left ++
      [.optional (blocks right m.right ++ condition.toList.map Element.filter)])
  | .combine .union left right, m =>
    enter m.graph? [.union (blocks left m.left) (blocks right m.right)]
  | .combine .difference left right, m =>
    enter m.graph? (blocks left m.left ++ [.minus (blocks right m.right)])
  | .filter arg condition, m => enter m.graph? (blocks arg m.left ++ [.filter condition])
  | .combine .intersection _ _, _ => []
  | .modify _ _, _ => []
  | .bare _, _ => []

theorem elements_eq_blocks {t : Tree} {m : GraphMap} {es : List Element}
    (h : elements t m = .ok es) : es = blocks t m := by
  induction t generalizing m es with
  | unit =>
    cases h
    rfl
  | pattern p =>
    cases h
    rfl
  | combine c left right ihl ihr =>
    obtain ⟨hc, ls, rs, hl, hr, rfl⟩ := elements_combine h
    rw [ihl hl, ihr hr]
    cases c with
    | intersection => cases hc
    | _ => rfl
  | filter arg condition ih =>
    obtain ⟨body, hbody, rfl⟩ := elements_filter h
    rw [ih hbody, blocks]
  | modify mo arg ih => cases h
  | bare s => cases h

/-! ## Elements with words for variables -/

mutual

def Element.plain : Element → Element
  | .triple subject predicate object => .triple subject.plain predicate.plain object.plain
  | .filter condition => .filter condition.plain
  | .optional body => .optional (plainBody body)
  | .minus body => .minus (plainBody body)
  | .union left right => .union (plainBody left) (plainBody right)
  | .graph name body => .graph name.plain (plainBody body)

def plainBody : List Element → List Element
  | [] => []
  | e :: es => e.plain :: plainBody es

end

def Lined (es : List Element) : Prop := ∀ depth, ∀ l ∈ bodyLines depth es, l.2.Worded

theorem bodyLines_append (depth : Nat) (xs ys : List Element) :
    bodyLines depth (xs ++ ys) = bodyLines depth xs ++ bodyLines depth ys := by
  induction xs with
  | nil => rfl
  | cons x xs ih => rw [List.cons_append, bodyLines, ih, bodyLines, List.append_assoc]

/-- What holds of every line that a body is written with. -/
def EachLine (P : Line → Prop) (es : List Element) : Prop :=
  ∀ depth, ∀ l ∈ bodyLines depth es, P l.2

section

variable {P : Line → Prop}

theorem EachLine.nil : EachLine P [] := fun _ _ h => nomatch h

theorem EachLine.append {xs ys : List Element} (hx : EachLine P xs) (hy : EachLine P ys) :
    EachLine P (xs ++ ys) := by
  intro depth l hl
  rw [bodyLines_append] at hl
  rcases List.mem_append.1 hl with hl | hl
  · exact hx depth l hl
  · exact hy depth l hl

theorem EachLine.triple {subject predicate object : Term}
    (h : P (.triple subject predicate object)) : EachLine P [.triple subject predicate object] := by
  intro depth l hl
  cases List.mem_singleton.1 hl
  exact h

theorem EachLine.filter {condition : Expr} (h : P (.filter condition)) :
    EachLine P [.filter condition] := by
  intro depth l hl
  cases List.mem_singleton.1 hl
  exact h

theorem EachLine.filters {condition : Option Expr} (h : ∀ e ∈ condition.toList, P (.filter e)) :
    EachLine P (condition.toList.map Element.filter) := by
  cases condition with
  | none => exact EachLine.nil
  | some e => exact EachLine.filter (h e (List.mem_singleton_self e))

/-- A block between its first and its last line. -/
theorem EachLine.block {body : List Element} {first : Line} {e : Element}
    (hbody : EachLine P body) (hsign : ∀ s, P (.sign s)) (hfirst : P first)
    (hlines : ∀ depth, e.lines depth =
      (depth, first) :: (bodyLines (depth + 1) body ++ [(depth, .sign .ending)])) :
    EachLine P [e] := by
  intro depth l hl
  rw [bodyLines, bodyLines, List.append_nil, hlines] at hl
  rcases List.mem_cons.1 hl with rfl | hl
  · exact hfirst
  rcases List.mem_append.1 hl with hl | hl
  · exact hbody (depth + 1) l hl
  · cases List.mem_singleton.1 hl
    exact hsign .ending

theorem EachLine.union {left right : List Element} (hl : EachLine P left) (hr : EachLine P right)
    (hsign : ∀ s, P (.sign s)) : EachLine P [.union left right] := by
  intro depth l hmem
  rw [bodyLines, bodyLines, List.append_nil, Element.lines] at hmem
  simp only [List.mem_cons, List.mem_append, List.not_mem_nil, or_false] at hmem
  rcases hmem with rfl | hmem | rfl | rfl | rfl | hmem | rfl
  · exact hsign .opening
  · exact hl (depth + 1) l hmem
  · exact hsign .closing
  · exact hsign .union
  · exact hsign .opening
  · exact hr (depth + 1) l hmem
  · exact hsign .ending

theorem EachLine.enter {graph : Option Term} {body : List Element} (hbody : EachLine P body)
    (hsign : ∀ s, P (.sign s)) (hg : ∀ g ∈ graph, P (.graph g)) :
    EachLine P (enter graph body) := by
  cases graph with
  | none => exact hbody
  | some g => exact EachLine.block hbody hsign (hg g rfl) fun _ => rfl

/-- The lines of a body are signs, graphs of its map, patterns and conditions of its tree. -/
theorem blocks_eachLine {t : Tree} {m : GraphMap} (hsign : ∀ s, P (.sign s))
    (hgraph : ∀ g ∈ m.graphs, P (.graph g))
    (htriple : ∀ p ∈ t.patterns, P (.triple p.subject p.predicate p.object))
    (hfilter : ∀ e ∈ t.conditions, P (.filter e)) : EachLine P (blocks t m) := by
  have hown {m : GraphMap} (h : ∀ g ∈ m.graphs, P (.graph g)) : ∀ g ∈ m.graph?, P (.graph g) :=
    fun g hg => h g (GraphMap.graph?_mem hg)
  induction t generalizing m with
  | unit => exact EachLine.enter EachLine.nil hsign (hown hgraph)
  | pattern p =>
    have hp := EachLine.triple (htriple p (List.mem_singleton_self p))
    exact EachLine.enter hp hsign (hown hgraph)
  | combine c left right ihl ihr =>
    have hpatterns := List.forall_mem_append.1 htriple
    have hleft := ihl (fun g hg => hgraph g (m.graphs_left hg)) hpatterns.1
    have hright := ihr (fun g hg => hgraph g (m.graphs_right hg)) hpatterns.2
    cases c with
    | join =>
      have hconditions := List.forall_mem_append.1 hfilter
      exact EachLine.enter ((hleft hconditions.1).append (hright hconditions.2)) hsign (hown hgraph)
    | leftJoin condition =>
      have hconditions := List.forall_mem_append.1 hfilter
      have hoperands := List.forall_mem_append.1 hconditions.1
      have hbody := (hright hoperands.2).append (EachLine.filters hconditions.2)
      have hoptional :
          EachLine P [.optional (blocks right m.right ++ condition.toList.map .filter)] :=
        EachLine.block hbody hsign (hsign .optional) fun _ => rfl
      exact EachLine.enter ((hleft hoperands.1).append hoptional) hsign (hown hgraph)
    | union =>
      have hconditions := List.forall_mem_append.1 hfilter
      have hunion := EachLine.union (hleft hconditions.1) (hright hconditions.2) hsign
      exact EachLine.enter hunion hsign (hown hgraph)
    | difference =>
      have hconditions := List.forall_mem_append.1 hfilter
      have hminus : EachLine P [.minus (blocks right m.right)] :=
        EachLine.block (hright hconditions.2) hsign (hsign .minus) fun _ => rfl
      exact EachLine.enter ((hleft hconditions.1).append hminus) hsign (hown hgraph)
    | intersection => exact EachLine.nil
  | filter arg condition ih =>
    have hconditions := List.forall_mem_append.1 hfilter
    have harg := ih (fun g hg => hgraph g (m.graphs_left hg)) htriple hconditions.1
    have hcondition := hconditions.2 condition (List.mem_singleton_self condition)
    exact EachLine.enter (harg.append (EachLine.filter hcondition)) hsign (hown hgraph)
  | modify mo arg ih => exact EachLine.nil
  | bare s => exact EachLine.nil

end

theorem blocks_lined {t : Tree} {m : GraphMap} (ht : t.Worded) (hm : m.Worded) :
    Lined (blocks t m) := by
  refine blocks_eachLine (fun _ => trivial) hm ?_ (Tree.worded_of_mem_conditions ht)
  intro p hp
  have hterms := Tree.worded_of_mem_patterns ht p hp
  exact ⟨hterms _ (by simp [TriplePattern.terms]), hterms _ (by simp [TriplePattern.terms]),
    hterms _ (by simp [TriplePattern.terms])⟩

/-! ## From lines to elements -/

/-- A block that is open. The right part of a union remembers the left one. -/
inductive Frame where
  | optional
  | minus
  | graph (name : Term)
  | leftPart
  | rightPart (left : List Element)

/-- The element a block makes when it ends; the left part of a union ends in no element. -/
def Frame.element? (body : List Element) : Frame → Option Element
  | .optional => some (.optional body)
  | .minus => some (.minus body)
  | .graph name => some (.graph name body)
  | .leftPart => none
  | .rightPart left => some (.union left body)

/-- The open blocks from the innermost on, each with the elements before it. -/
abbrev Stack := List (Frame × List Element)

/-- Where a reader is: inside of blocks, between the parts of a union, or at the end. -/
inductive Reading where
  | inside (stack : Stack) (body : List Element)
  | afterLeft (stack : Stack) (before left : List Element)
  | afterUnion (stack : Stack) (before left : List Element)
  | finished (body : List Element)

namespace Reading

def step : Reading → Line → Option Reading
  | .inside stack body, .triple subject predicate object =>
    some (.inside stack (body ++ [.triple subject predicate object]))
  | .inside stack body, .filter condition => some (.inside stack (body ++ [.filter condition]))
  | .inside stack body, .graph name => some (.inside ((.graph name, body) :: stack) [])
  | .inside stack body, .sign .optional => some (.inside ((.optional, body) :: stack) [])
  | .inside stack body, .sign .minus => some (.inside ((.minus, body) :: stack) [])
  | .inside stack body, .sign .opening => some (.inside ((.leftPart, body) :: stack) [])
  | .inside ((.leftPart, before) :: stack) body, .sign .closing =>
    some (.afterLeft stack before body)
  | .inside [] body, .sign .closing => some (.finished body)
  | .inside ((frame, before) :: stack) body, .sign .ending =>
    (frame.element? body).map fun e => .inside stack (before ++ [e])
  | .afterLeft stack before left, .sign .union => some (.afterUnion stack before left)
  | .afterUnion stack before left, .sign .opening =>
    some (.inside ((.rightPart left, before) :: stack) [])
  | _, _ => none

def run : Reading → List Line → Option Reading
  | r, [] => some r
  | r, l :: ls => (r.step l).bind fun r => r.run ls

def body? : Reading → Option (List Element)
  | .finished body => some body
  | _ => none

end Reading

def plainLines (lines : List (Nat × Line)) : List Line := lines.map fun l => l.2.plain

theorem plainLines_append (ls ks : List (Nat × Line)) :
    plainLines (ls ++ ks) = plainLines ls ++ plainLines ks := List.map_append

theorem plainLines_cons (l : Nat × Line) (ls : List (Nat × Line)) :
    plainLines (l :: ls) = l.2.plain :: plainLines ls := rfl

/-- What follows the lines of a block's body, when they have been read. -/
theorem run_block {stack : Stack} {before body : List Element} {frame : Frame} {e : Element}
    {inner rest : List Line}
    (hinner : ∀ rest, (Reading.inside ((frame, before) :: stack) []).run (inner ++ rest) =
      (Reading.inside ((frame, before) :: stack) body).run rest)
    (he : frame.element? body = some e) :
    (Reading.inside ((frame, before) :: stack) []).run (inner ++ .sign .ending :: rest) =
      (Reading.inside stack (before ++ [e])).run rest := by
  rw [hinner, Reading.run, Reading.step, he, Option.map_some, Option.bind_some]

mutual

/-- The lines of an element add it to the innermost open block. -/
theorem run_lines (depth : Nat) : ∀ (e : Element) (stack : Stack) (before : List Element)
    (rest : List Line),
    (Reading.inside stack before).run (plainLines (e.lines depth) ++ rest) =
      (Reading.inside stack (before ++ [e.plain])).run rest
  | .triple _ _ _, _, _, _ => rfl
  | .filter _, _, _, _ => rfl
  | .optional body, stack, before, rest => by
    have hinner := run_bodyLines (depth + 1) body ((.optional, before) :: stack) []
    rw [Element.lines, plainLines_cons, plainLines_append, List.cons_append, List.append_assoc]
    exact run_block hinner (by rw [Element.plain]; rfl)
  | .minus body, stack, before, rest => by
    have hinner := run_bodyLines (depth + 1) body ((.minus, before) :: stack) []
    rw [Element.lines, plainLines_cons, plainLines_append, List.cons_append, List.append_assoc]
    exact run_block hinner (by rw [Element.plain]; rfl)
  | .graph name body, stack, before, rest => by
    have hinner := run_bodyLines (depth + 1) body ((.graph name.plain, before) :: stack) []
    rw [Element.lines, plainLines_cons, plainLines_append, List.cons_append, List.append_assoc]
    exact run_block hinner (by rw [Element.plain]; rfl)
  | .union left right, stack, before, rest => by
    have hleft := run_bodyLines (depth + 1) left ((.leftPart, before) :: stack) []
    have hright :=
      run_bodyLines (depth + 1) right ((.rightPart (plainBody left), before) :: stack) []
    simp only [Element.lines, plainLines_cons, plainLines_append, List.cons_append,
      List.append_assoc]
    rw [Reading.run]
    show (Reading.inside ((.leftPart, before) :: stack) []).run _ = _
    rw [hleft]
    exact run_block hright (by rw [Element.plain]; rfl)

theorem run_bodyLines (depth : Nat) : ∀ (es : List Element) (stack : Stack)
    (before : List Element) (rest : List Line),
    (Reading.inside stack before).run (plainLines (bodyLines depth es) ++ rest) =
      (Reading.inside stack (before ++ plainBody es)).run rest
  | [], stack, before, rest => by
    rw [plainBody, List.append_nil]
    rfl
  | e :: es, stack, before, rest => by
    rw [bodyLines, plainLines_append, List.append_assoc, run_lines depth e,
      run_bodyLines depth es, plainBody, List.append_assoc]
    rfl

end

end Sparql

end RdfQuery
