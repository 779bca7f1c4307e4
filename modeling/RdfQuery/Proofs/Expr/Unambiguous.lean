import RdfQuery.Proofs.Serql.Reader

/-!
# Texts tell expressions apart

In both languages an expression can be read again from its text. Two
expressions of one text are therefore the same but for the marks of anonymous
variables, which no text shows.
-/

set_option autoImplicit false

namespace RdfQuery

theorem Expr.isOperation_plain (e : Expr) : e.plain.isOperation = e.isOperation := by
  cases e <;> rfl

namespace Spelling

mutual

/-- No text shows which variables are anonymous. -/
theorem expr_plain (s : Spelling) (n : Naming) : ∀ e : Expr, s.expr n e.plain = s.expr n e
  | .var _ => rfl
  | .const _ => rfl
  | .bound _ => rfl
  | .not e => by simp only [Expr.plain, expr, operand, Expr.isOperation_plain, expr_plain s n e]
  | .function f arg => by simp only [Expr.plain, expr, expr_plain s n arg]
  | .relation r left right => by
    simp only [Expr.plain, expr, expr_plain s n left, expr_plain s n right]
  | .operation op left right => by
    simp only [Expr.plain, expr, operand, Expr.isOperation_plain, expr_plain s n left,
      expr_plain s n right]
  | .regex arg pattern => by
    simp only [Expr.plain, expr, expr_plain s n arg, expr_plain s n pattern]
  | .regexWith arg pattern flags => by
    simp only [Expr.plain, expr, expr_plain s n arg, expr_plain s n pattern, expr_plain s n flags]
  | .call name args => by simp only [Expr.plain, expr, exprs_plain s n args]

theorem exprs_plain (s : Spelling) (n : Naming) :
    ∀ es : List Expr, s.exprs n (Expr.plainAll es) = s.exprs n es
  | [] => rfl
  | e :: es => by simp only [Expr.plainAll, exprs, expr_plain s n e, exprs_plain s n es]

end

/-- Expressions that one reader reads have different texts unless they differ in marks only. -/
theorem expr_eq_iff {s : Spelling} {item : Reader Expr} {e d : Expr} (he : s.ReadsItem item e)
    (hd : s.ReadsItem item d) : s.expr Naming.full e = s.expr Naming.full d ↔ e.plain = d.plain := by
  constructor
  · intro h
    have hread := he [] Text.Ended.nil
    rw [h, hd [] Text.Ended.nil] at hread
    exact (Prod.mk.inj (Option.some.inj hread)).1.symm
  · intro h
    rw [← expr_plain, h, expr_plain]

end Spelling

/-- In each of the two languages, expressions have one text just if they are equal up to the marks
of anonymous variables. -/
theorem expressions_told_apart {s : Style} (hfull : s.compactIris = false) {e d : Expr}
    (he : e.Named) (hd : d.Named) :
    (Sparql.expr (Naming.ofStyle s) e = Sparql.expr (Naming.ofStyle s) d ↔ e.plain = d.plain) ∧
      (Serql.expr (Naming.ofStyle s) e = Serql.expr (Naming.ofStyle s) d ↔ e.plain = d.plain) := by
  have hsparql {a : Expr} (hsize : a.size ≤ e.size + d.size) (ha : a.Named) :=
    Spelling.readsItem_infix Sparql.spelling_distinct Sparql.admits_delimited
      (Sparql.reads_expr (e.size + d.size)) hsize ha.worded
  have hserql {a : Expr} (hsize : a.size ≤ e.size + d.size) (ha : a.Named) :=
    Spelling.readsItem_infix Serql.spelling_distinct Serql.admits_follows
      (Serql.reads_expr (e.size + d.size)) hsize ha
  rw [Naming.ofStyle_full hfull]
  exact ⟨Spelling.expr_eq_iff (hsparql (by omega) he) (hsparql (by omega) hd),
    Spelling.expr_eq_iff (hserql (by omega) he) (hserql (by omega) hd)⟩

/-- In SeRQL the first is `not and and x` and the second `not not and x`: words for signs and
variables named like them. -/
def wordVariables : Expr × Expr :=
  let named (name : String) : Expr := .var (.user name)
  (.operation .and (.not (named "and")) (named "x"),
    .operation .and (.not (named "not")) (.var (.fresh "x")))

/-- The first of them, with a variable that no user named. -/
def markedVariables : Expr :=
  .operation .and (.not (.var (.fresh "and"))) (.var (.user "x"))

theorem wordVariables_told_apart :
    Style.default.compactIris = false ∧ wordVariables.1.Named ∧ wordVariables.2.Named ∧
      markedVariables.Named ∧
      Serql.expr (Naming.ofStyle Style.default) wordVariables.1 = "not and and x" ∧
      Serql.expr (Naming.ofStyle Style.default) wordVariables.2 = "not not and x" ∧
      wordVariables.1.plain ≠ wordVariables.2.plain ∧
      Sparql.expr (Naming.ofStyle Style.default) wordVariables.1 = "!?and && ?x" ∧
      Sparql.expr (Naming.ofStyle Style.default) markedVariables = "!?and && ?x" ∧
      wordVariables.1 ≠ markedVariables ∧ wordVariables.1.plain = markedVariables.plain := by
  have hfirst : wordVariables.1.Named := by decide +kernel
  have hsecond : wordVariables.2.Named := by decide +kernel
  have hmarked : markedVariables.Named := by decide +kernel
  have happart : wordVariables.1.plain ≠ wordVariables.2.plain := by
    intro h
    have htexts := (expressions_told_apart (s := Style.default) rfl hfirst hsecond).2.2 h
    exact absurd htexts (by decide)
  have htext : Sparql.expr (Naming.ofStyle Style.default) wordVariables.1 = "!?and && ?x" := by
    decide
  have hmarkedText : Sparql.expr (Naming.ofStyle Style.default) markedVariables =
      "!?and && ?x" := by decide
  have hsame : wordVariables.1.plain = markedVariables.plain :=
    (expressions_told_apart (s := Style.default) rfl hfirst hmarked).1.1
      (htext.trans hmarkedText.symm)
  have hne : wordVariables.1 ≠ markedVariables := by
    intro h
    simp [wordVariables, markedVariables, Variable.user, Variable.fresh] at h
  exact ⟨rfl, hfirst, hsecond, hmarked, by decide, by decide, happart, htext, hmarkedText, hne,
    hsame⟩

end RdfQuery
