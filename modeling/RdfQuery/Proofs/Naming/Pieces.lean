import RdfQuery.Footer
import RdfQuery.Proofs.Expr.OneLine

/-!
# Texts made of names and plain pieces

A text that names IRIs is made of plain pieces and of the names. The pieces are
those of the text in every style of a class, so what is not marked as a name
does not change with the prefixes of the style. Constants and expressions are
made of such pieces, and the IRIs they name are the ones that are listed for them.
-/

set_option autoImplicit false

namespace RdfQuery

/-- A stretch of a text: characters as they are, or the name of an IRI. -/
inductive Piece where
  | plain (text : String)
  | name (i : Iri)

def Piece.text (n : Naming) : Piece → String
  | .plain text => text
  | .name i => n.iri i

def piecesText (n : Naming) (ps : List Piece) : String := Text.concatenated (ps.map (Piece.text n))

theorem piecesText_append (n : Naming) (ps qs : List Piece) :
    piecesText n (ps ++ qs) = piecesText n ps ++ piecesText n qs := by
  rw [piecesText, List.map_append, Text.concatenated_append]
  rfl

/-- In all these styles the text has the same pieces, which name no IRI but those `among` which
it is written. -/
def Written (styles : Style → Prop) (among : List Iri) (text : Style → String) : Prop :=
  ∃ ps : List Piece, (∀ i, Piece.name i ∈ ps → i ∈ among) ∧
    ∀ s, styles s → text s = piecesText (Naming.ofStyle s) ps

namespace Written

variable {styles : Style → Prop} {among : List Iri} {f g : Style → String}

theorem congr (h : ∀ s, styles s → f s = g s) (hg : Written styles among g) :
    Written styles among f := by
  obtain ⟨ps, hps, htext⟩ := hg
  exact ⟨ps, hps, fun s hs => (h s hs).trans (htext s hs)⟩

theorem plain (text : String) : Written styles among fun _ => text := by
  refine ⟨[.plain text], ?_, ?_⟩
  · intro i hi
    cases List.mem_singleton.1 hi
  · intro s _
    exact String.append_empty.symm

theorem name {i : Iri} (hi : i ∈ among) :
    Written styles among fun s => (Naming.ofStyle s).iri i := by
  refine ⟨[.name i], ?_, ?_⟩
  · intro j hj
    cases List.mem_singleton.1 hj
    exact hi
  · intro s _
    exact String.append_empty.symm

theorem append (hf : Written styles among f) (hg : Written styles among g) :
    Written styles among fun s => f s ++ g s := by
  obtain ⟨ps, hps, hf⟩ := hf
  obtain ⟨qs, hqs, hg⟩ := hg
  refine ⟨ps ++ qs, ?_, ?_⟩
  · intro i hi
    exact (List.mem_append.1 hi).elim (hps i) (hqs i)
  · intro s hs
    rw [piecesText_append, ← hf s hs, ← hg s hs]

section

variable {α : Type} {xs : List α} {text : Style → α → String}

theorem concatenated (h : ∀ x ∈ xs, Written styles among fun s => text s x) :
    Written styles among fun s => Text.concatenated (xs.map (text s)) := by
  induction xs with
  | nil => exact plain ""
  | cons x xs ih =>
    have hx := h x (List.mem_cons_self ..)
    have hxs := ih fun y hy => h y (List.mem_cons_of_mem _ hy)
    exact hx.append hxs

theorem separated (separator : String) (h : ∀ x ∈ xs, Written styles among fun s => text s x) :
    Written styles among fun s => Text.separated separator (xs.map (text s)) := by
  induction xs with
  | nil => exact plain ""
  | cons x xs ih =>
    have hx := h x (List.mem_cons_self ..)
    have hxs := ih fun y hy => h y (List.mem_cons_of_mem _ hy)
    cases xs with
    | nil => exact hx
    | cons y xs => exact (hx.append (plain separator)).append hxs

end

theorem indent {width : Nat} (hwidth : ∀ s, styles s → s.indentWidth = width) (depth : Nat) :
    Written styles among fun s => s.indent depth := by
  refine congr ?_ (plain (Text.blanks (width * depth)))
  intro s hs
  rw [Style.indent, hwidth s hs]

/-! ## Constants and expressions -/

theorem constant {c : Constant} (h : c.iris ⊆ among) :
    Written styles among fun s => (Naming.ofStyle s).constant c := by
  cases c with
  | iri i => exact name (h (List.mem_singleton_self i))
  | blank label => exact plain _
  | literal l =>
    cases l with
    | simple value => exact plain _
    | tagged value tag => exact plain _
    | typed value datatype proper =>
      have hdatatype := h (List.mem_singleton_self datatype)
      exact (plain (NTriples.quoted value ++ "^^")).append (name hdatatype)

variable {sp : Spelling}

theorem term {t : Term} (h : t.iris ⊆ among) :
    Written styles among fun s => sp.term (Naming.ofStyle s) t := by
  cases t with
  | var v => exact plain _
  | const c => exact constant h

theorem operand {e : Expr} (h : Written styles among f) :
    Written styles among fun s => Spelling.operand e (f s) := by
  cases he : e.isOperation with
  | true =>
    refine congr ?_ (((plain "(").append h).append (plain ")"))
    intro s _
    rw [Spelling.operand, if_pos he]
  | false =>
    refine congr ?_ h
    intro s _
    rw [Spelling.operand, if_neg (by simp [he])]

theorem call {args : List Expr} (hname : Written styles among f)
    (hargs : ∀ e ∈ args, Written styles among fun s => sp.expr (Naming.ofStyle s) e) :
    Written styles among fun s =>
      Spelling.call (f s) (args.map (sp.expr (Naming.ofStyle s))) :=
  ((hname.append (plain "(")).append (separated ", " hargs)).append (plain ")")

/-- An expression names the IRIs that are met on the walk through it. -/
theorem expr {e : Expr} (h : e.iris ⊆ among) :
    Written styles among fun s => sp.expr (Naming.ofStyle s) e := by
  induction e using Expr.parts_induction with
  | step e ih =>
    have hparts : ∀ d ∈ e.parts, Written styles among fun s => sp.expr (Naming.ofStyle s) d :=
      fun d hd => ih d hd fun i hi => h (Expr.iris_part hd hi)
    have hcall := fun word => call (plain word) hparts
    have hown := fun i hi => h (Expr.ownIris_subset_iris e (a := i) hi)
    cases e with
    | var v => exact plain _
    | const c => exact constant hown
    | bound v => exact plain _
    | not e =>
      have he := hparts e (List.mem_singleton_self e)
      exact (plain sp.negation).append (operand he)
    | function f arg => exact hcall (sp.function f)
    | relation r left right => exact hcall r.name
    | operation op left right =>
      have hleft := operand (e := left) (hparts left (by simp [Expr.parts]))
      have hright := operand (e := right) (hparts right (by simp [Expr.parts]))
      exact (((hleft.append (plain " ")).append (plain (sp.operator op))).append
        (plain " ")).append hright
    | regex arg pattern => exact hcall "regex"
    | regexWith arg pattern flags => exact hcall "regex"
    | call name args =>
      simp only [Spelling.expr, Spelling.exprs_eq_map]
      exact call (Written.name (hown name (List.mem_singleton_self name))) hparts

theorem nested {e : Expr} (h : e.iris ⊆ among) :
    Written styles among fun s => sp.nested (Naming.ofStyle s) e :=
  operand (expr h)

/-! ## Feet of queries -/

theorem orderText {foot : Footer} (separator : String) {key : Style → SortKey → String}
    (h : ∀ k ∈ foot.order, Written styles among fun s => key s k) :
    Written styles among fun s => foot.orderText separator (key s) := by
  obtain ⟨order, limit, offset⟩ := foot
  cases order with
  | nil => exact plain ""
  | cons k ks => exact (plain "\norder by ").append (separated separator h)

end Written

end RdfQuery
