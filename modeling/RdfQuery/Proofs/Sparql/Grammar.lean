import Mathlib.Data.List.Chain
import RdfQuery.Proofs.Sparql.Bindings
import RdfQuery.Proofs.Sparql.Lexing

/-!
# Expressions in the grammar of SPARQL

The productions of the grammar that the expressions of queries have, from
`Expression` down to the primary expressions, and `OrderCondition`. A negation
takes a primary expression, so the text of a negated negation, which has no
parentheses, is not derived; neither is a constant or a negation as the
condition of an ascending order. All other expressions are derived with the
structure they have.
-/

set_option autoImplicit false

namespace RdfQuery

namespace Expr

def isNegation : Expr → Bool
  | .not _ => true
  | _ => false

/-- No negation stands directly below another. -/
def NegatesOnce (e : Expr) : Prop := ∀ d, .not (.not d) ∉ e.walk

theorem NegatesOnce.part {d e : Expr} (he : e.NegatesOnce) (h : d ∈ e.parts) : d.NegatesOnce :=
  fun x hx => he x (walk_part h hx)

theorem NegatesOnce.isNegation_operand {e : Expr} (h : (Expr.not e).NegatesOnce) :
    e.isNegation = false := by
  cases e with
  | not d => exact absurd (by simp [walk]) (h d)
  | _ => rfl

end Expr

/-- No negation below another; without `DESC`, no negation and no constant either. -/
structure SortKey.Plain (k : SortKey) : Prop where
  negatesOnce : k.expr.NegatesOnce
  ascending : k.ascending = true → k.expr.isConstant = false ∧ k.expr.isNegation = false

namespace Sparql

/-! ## Productions -/

/-- `expression` is `ConditionalOrExpression`, and `numeric` stands for all between
`NumericExpression` and `UnaryExpression`, whose operators no expression has. -/
inductive Production where
  | expression
  | conjunction
  | relational
  | numeric
  | unary
  | primary
  | brackets
  | builtIn
  | functionCall
  deriving DecidableEq

/-- The tokens are derived from the production, and the expression is their structure. -/
inductive Derives : Production → Expr → List Token → Prop where
  | conjunction {e : Expr} {ts : List Token} (h : Derives .conjunction e ts) :
    Derives .expression e ts
  | or {l r : Expr} {ts us : List Token} (hl : Derives .expression l ts)
    (hr : Derives .conjunction r us) :
    Derives .expression (.operation .or l r) (ts ++ .sign "||" :: us)
  | relational {e : Expr} {ts : List Token} (h : Derives .relational e ts) :
    Derives .conjunction e ts
  | and {l r : Expr} {ts us : List Token} (hl : Derives .conjunction l ts)
    (hr : Derives .relational r us) :
    Derives .conjunction (.operation .and l r) (ts ++ .sign "&&" :: us)
  | numeric {e : Expr} {ts : List Token} (h : Derives .numeric e ts) : Derives .relational e ts
  | compare {l r : Expr} {ts us : List Token} (c : Comparison) (hl : Derives .numeric l ts)
    (hr : Derives .numeric r us) :
    Derives .relational (.operation (.compare c) l r) (ts ++ .sign c.symbol :: us)
  | unary {e : Expr} {ts : List Token} (h : Derives .unary e ts) : Derives .numeric e ts
  | not {e : Expr} {ts : List Token} (h : Derives .primary e ts) :
    Derives .unary (.not e) (.sign "!" :: ts)
  | primary {e : Expr} {ts : List Token} (h : Derives .primary e ts) : Derives .unary e ts
  | brackets {e : Expr} {ts : List Token} (h : Derives .brackets e ts) : Derives .primary e ts
  | builtIn {e : Expr} {ts : List Token} (h : Derives .builtIn e ts) : Derives .primary e ts
  | functionCall {e : Expr} {ts : List Token} (h : Derives .functionCall e ts) :
    Derives .primary e ts
  | iri (i : Iri) : Derives .primary (.const (.iri i)) [.iri i.text]
  | simple (value : String) : Derives .primary (.const (.literal (.simple value))) [.string value]
  | tagged (value : String) (tag : LanguageTag) :
    Derives .primary (.const (.literal (.tagged value tag))) [.string value, .tag tag.text]
  | typed (value : String) (datatype : Iri) :
    Derives .primary (.const (.literal (.ofTyped value datatype)))
      [.string value, .sign "^^", .iri datatype.text]
  | var (v : Variable) : Derives .primary (.var v) [.variable v.name]
  | bracketed {e : Expr} {ts : List Token} (h : Derives .expression e ts) :
    Derives .brackets e (bracketed ts)
  | bound (v : Variable) :
    Derives .builtIn (.bound v) (calling (.word "bound") [[.variable v.name]])
  | function {e : Expr} {ts : List Token} (f : TermFunction) (h : Derives .expression e ts) :
    Derives .builtIn (.function f e) (calling (keyword f) [ts])
  | relation {l r : Expr} {ts us : List Token} (t : TermRelation) (hl : Derives .expression l ts)
    (hr : Derives .expression r us) :
    Derives .builtIn (.relation t l r) (calling (relationKeyword t) [ts, us])
  | regex {arg pattern : Expr} {ts us : List Token} (harg : Derives .expression arg ts)
    (hpattern : Derives .expression pattern us) :
    Derives .builtIn (.regex arg pattern) (calling (.word "regex") [ts, us])
  | regexWith {arg pattern flags : Expr} {ts us vs : List Token}
    (harg : Derives .expression arg ts) (hpattern : Derives .expression pattern us)
    (hflags : Derives .expression flags vs) :
    Derives .builtIn (.regexWith arg pattern flags) (calling (.word "regex") [ts, us, vs])
  | call (name : Iri) (args : List (Expr × List Token))
    (h : ∀ a ∈ args, Derives .expression a.1 a.2) :
    Derives .functionCall (.call name (args.map Prod.fst))
      (calling (.iri name.text) (args.map Prod.snd))

/-- What stands in an order without `ASC` or `DESC`, but for a variable. -/
def Production.constraints : List Production := [.brackets, .builtIn, .functionCall]

inductive DerivesOrder : SortKey → List Token → Prop where
  | ascending {e : Expr} {ts : List Token} (h : Derives .brackets e ts) :
    DerivesOrder ⟨e, true⟩ (.word "asc" :: ts)
  | descending {e : Expr} {ts : List Token} (h : Derives .brackets e ts) :
    DerivesOrder ⟨e, false⟩ (.word "desc" :: ts)
  | constraint {p : Production} {e : Expr} {ts : List Token} (hp : p ∈ Production.constraints)
    (h : Derives p e ts) : DerivesOrder ⟨e, true⟩ ts
  | var (v : Variable) : DerivesOrder ⟨.var v, true⟩ [.variable v.name]

/-! ## Derivations -/

theorem derives_constant {c : Constant} (h : ∀ label, c ≠ .blank label) :
    Derives .primary (.const c) (constantTokens c) := by
  cases c with
  | iri i => exact .iri i
  | blank label => exact absurd rfl (h label)
  | literal l =>
    cases l with
    | simple value => exact .simple value
    | tagged value tag => exact .tagged value tag
    | typed value datatype proper =>
      have htyped : Literal.ofTyped value datatype = .typed value datatype proper := dif_neg proper
      have hderives := Derives.typed value datatype
      rwa [htyped] at hderives

/-- The production that has a rule for the outermost operator. -/
def production : Expr → Production
  | .var _ => .primary
  | .const _ => .primary
  | .bound _ => .builtIn
  | .not _ => .unary
  | .function _ _ => .builtIn
  | .relation _ _ _ => .builtIn
  | .operation .or _ _ => .expression
  | .operation .and _ _ => .conjunction
  | .operation (.compare _) _ _ => .relational
  | .regex _ _ => .builtIn
  | .regexWith _ _ _ => .builtIn
  | .call _ _ => .functionCall

namespace Derives

variable {p : Production} {e : Expr} {ts : List Token}

theorem expression_of_unary (h : Derives .unary e ts) : Derives .expression e ts :=
  .conjunction (.relational (.numeric (.unary h)))

theorem toExpression (h : Derives p e ts) : Derives .expression e ts := by
  cases p with
  | expression => exact h
  | conjunction => exact .conjunction h
  | relational => exact .conjunction (.relational h)
  | numeric => exact .conjunction (.relational (.numeric h))
  | unary => exact h.expression_of_unary
  | primary => exact (Derives.primary h).expression_of_unary
  | brackets => exact (Derives.primary (.brackets h)).expression_of_unary
  | builtIn => exact (Derives.primary (.builtIn h)).expression_of_unary
  | functionCall => exact (Derives.primary (.functionCall h)).expression_of_unary

theorem toPrimary (h : Derives (production e) e ts) (hoperation : e.isOperation = false)
    (hnegation : e.isNegation = false) : Derives .primary e ts := by
  cases e with
  | operation op l r => cases hoperation
  | not e => cases hnegation
  | var v => exact h
  | const c => exact h
  | bound v => exact .builtIn h
  | function f arg => exact .builtIn h
  | relation t l r => exact .builtIn h
  | regex arg pattern => exact .builtIn h
  | regexWith arg pattern flags => exact .builtIn h
  | call name args => exact .functionCall h

/-- An operand, where a negation is allowed. -/
theorem operand (h : Derives (production e) e ts) : Derives .unary e (operandTokens e ts) := by
  unfold operandTokens
  split
  · exact .primary (.brackets (.bracketed h.toExpression))
  · rename_i hoperation
    cases hnegation : e.isNegation with
    | false => exact .primary (h.toPrimary (by simpa using hoperation) hnegation)
    | true =>
      cases e with
      | not e => exact h
      | _ => cases hnegation

/-- An operand that is no negation itself, as negations need it. -/
theorem negated (h : Derives (production e) e ts) (hnegation : e.isNegation = false) :
    Derives .primary e (operandTokens e ts) := by
  unfold operandTokens
  split
  · exact .brackets (.bracketed h.toExpression)
  · rename_i hoperation
    exact h.toPrimary (by simpa using hoperation) hnegation

end Derives

theorem derives_tokens {e : Expr} (he : e.Lexical) (honce : e.NegatesOnce) :
    Derives (production e) e (tokens e) := by
  induction e using Expr.parts_induction with
  | step e ih =>
    have hparts : ∀ d ∈ e.parts, Derives (production d) d (tokens d) :=
      fun d hd => ih d hd (he.part hd) (honce.part hd)
    cases e with
    | var v => exact .var v
    | const c =>
      refine derives_constant ?_
      rintro label rfl
      exact he.no_labels label (by simp [Expr.constants, Expr.walk, Expr.constant?])
    | bound v => exact .bound v
    | not e => exact .not ((hparts e List.mem_cons_self).negated honce.isNegation_operand)
    | function f arg => exact .function f (hparts arg List.mem_cons_self).toExpression
    | relation t l r =>
      exact .relation t (hparts l List.mem_cons_self).toExpression
        (hparts r (by simp [Expr.parts])).toExpression
    | operation op l r =>
      have hl := (hparts l List.mem_cons_self).operand
      have hr := (hparts r (by simp [Expr.parts])).operand
      rcases op with _ | _ | c
      · exact .and (.relational (.numeric (.unary hl))) (.numeric (.unary hr))
      · exact .or hl.expression_of_unary (.relational (.numeric (.unary hr)))
      · exact .compare c (.unary hl) (.unary hr)
    | regex arg pattern =>
      exact .regex (hparts arg List.mem_cons_self).toExpression
        (hparts pattern (by simp [Expr.parts])).toExpression
    | regexWith arg pattern flags =>
      exact .regexWith (hparts arg List.mem_cons_self).toExpression
        (hparts pattern (by simp [Expr.parts])).toExpression
        (hparts flags (by simp [Expr.parts])).toExpression
    | call name args =>
      have hargs : ∀ a ∈ args.map fun d => (d, tokens d), Derives .expression a.1 a.2 := by
        intro a ha
        obtain ⟨d, hd, rfl⟩ := List.mem_map.1 ha
        exact (hparts d hd).toExpression
      have hcall := Derives.call name _ hargs
      simp only [List.map_map, Function.comp_def, List.map_id'] at hcall
      rw [tokens, tokensAll_eq_map]
      exact hcall

/-! ## Texts that are not derived -/

/-- No negation takes a text that begins with a negation. -/
def Apart (t u : Token) : Prop := ¬ (t = .sign "!" ∧ u = .sign "!")

theorem isChain_around {t : Token} (ht : t ≠ .sign "!") {ts us : List Token}
    (hts : ts.IsChain Apart) (hus : us.IsChain Apart) : (ts ++ t :: us).IsChain Apart := by
  refine List.isChain_append.2 ⟨hts, List.isChain_cons.2 ⟨fun u _ h => ht h.1, hus⟩, ?_⟩
  rintro u - v hv ⟨-, rfl⟩
  exact ht (Option.some.inj hv)

theorem isChain_bracketed {ts : List Token} (h : ts.IsChain Apart) :
    (bracketed ts).IsChain Apart :=
  isChain_around (by decide) List.IsChain.nil (isChain_around (by decide) h List.IsChain.nil)

theorem isChain_separated {args : List (List Token)} (h : ∀ ts ∈ args, ts.IsChain Apart) :
    (separatedTokens args).IsChain Apart := by
  induction args with
  | nil => exact List.IsChain.nil
  | cons ts args ih =>
    obtain ⟨hts, hargs⟩ := List.forall_mem_cons.1 h
    cases args with
    | nil => exact hts
    | cons us args => exact isChain_around (by decide) hts (ih hargs)

theorem isChain_calling {head : Token} (hhead : head ≠ .sign "!") {args : List (List Token)}
    (h : ∀ ts ∈ args, ts.IsChain Apart) : (calling head args).IsChain Apart :=
  isChain_around hhead List.IsChain.nil (isChain_bracketed (isChain_separated h))

/-- What a constraint begins with: a parenthesis, a keyword, or a name and its arguments. -/
def Constrains (ts : List Token) : Prop :=
  ∃ us, ts = .sign "(" :: us ∨ (∃ w, ts = .word w :: us) ∨ ∃ i, ts = .iri i :: .sign "(" :: us

theorem Constrains.head? {ts : List Token} (h : Constrains ts) : ts.head? ≠ some (.sign "!") := by
  obtain ⟨us, rfl | ⟨w, rfl⟩ | ⟨i, rfl⟩⟩ := h <;> simp

namespace Derives

variable {p : Production} {e : Expr} {ts : List Token}

theorem constrains (h : Derives p e ts) (hp : p ∈ Production.constraints) : Constrains ts := by
  cases h with
  | bracketed h => exact ⟨_, Or.inl rfl⟩
  | bound v => exact ⟨_, Or.inr (Or.inl ⟨_, rfl⟩)⟩
  | function f h => exact ⟨_, Or.inr (Or.inl (by cases f <;> exact ⟨_, rfl⟩))⟩
  | relation t hl hr => exact ⟨_, Or.inr (Or.inl (by cases t <;> exact ⟨_, rfl⟩))⟩
  | regex harg hpattern => exact ⟨_, Or.inr (Or.inl ⟨_, rfl⟩)⟩
  | regexWith harg hpattern hflags => exact ⟨_, Or.inr (Or.inl ⟨_, rfl⟩)⟩
  | call name args h => exact ⟨_, Or.inr (Or.inr ⟨_, rfl⟩)⟩
  | _ => exact absurd hp (by decide)

theorem head?_primary (h : Derives .primary e ts) : ts.head? ≠ some (.sign "!") := by
  cases h with
  | brackets h => exact (h.constrains (by decide)).head?
  | builtIn h => exact (h.constrains (by decide)).head?
  | functionCall h => exact (h.constrains (by decide)).head?
  | _ => simp

theorem isChain (h : Derives p e ts) : ts.IsChain Apart := by
  induction h with
  | conjunction h ih => exact ih
  | relational h ih => exact ih
  | numeric h ih => exact ih
  | unary h ih => exact ih
  | primary h ih => exact ih
  | brackets h ih => exact ih
  | builtIn h ih => exact ih
  | functionCall h ih => exact ih
  | or hl hr ihl ihr => exact isChain_around (by decide) ihl ihr
  | and hl hr ihl ihr => exact isChain_around (by decide) ihl ihr
  | compare c hl hr ihl ihr => exact isChain_around (by cases c <;> decide) ihl ihr
  | not h ih =>
    refine List.isChain_cons.2 ⟨?_, ih⟩
    rintro u hu ⟨-, rfl⟩
    exact h.head?_primary hu
  | iri i => exact List.IsChain.singleton _
  | simple value => exact List.IsChain.singleton _
  | tagged value tag => exact .cons_cons (by simp [Apart]) (.singleton _)
  | typed value datatype =>
    exact .cons_cons (by simp [Apart]) (.cons_cons (by simp [Apart]) (.singleton _))
  | var v => exact List.IsChain.singleton _
  | bracketed h ih => exact isChain_bracketed ih
  | bound v => exact isChain_calling (by decide) (by simp)
  | function f h ih => exact isChain_calling (by cases f <;> decide) (by simpa using ih)
  | relation t hl hr ihl ihr =>
    exact isChain_calling (by cases t <;> decide) (by simpa using ⟨ihl, ihr⟩)
  | regex harg hpattern iharg ihpattern =>
    exact isChain_calling (by decide) (by simpa using ⟨iharg, ihpattern⟩)
  | regexWith harg hpattern hflags iharg ihpattern ihflags =>
    exact isChain_calling (by decide) (by simpa using ⟨iharg, ihpattern, ihflags⟩)
  | call name args h ih => exact isChain_calling (by simp) (List.forall_mem_map.2 ih)

end Derives

/-! ### The tokens of parts -/

theorem infix_bracketed (ts : List Token) : ts <:+: bracketed ts :=
  ⟨[.sign "("], [.sign ")"], rfl⟩

theorem infix_operandTokens (e : Expr) (ts : List Token) : ts <:+: operandTokens e ts := by
  unfold operandTokens
  split
  · exact infix_bracketed ts
  · exact List.infix_rfl

theorem infix_separated {ts : List Token} {args : List (List Token)} (h : ts ∈ args) :
    ts <:+: separatedTokens args := by
  induction args with
  | nil => cases h
  | cons us args ih =>
    cases args with
    | nil =>
      rw [List.mem_singleton.1 h]
      exact List.infix_rfl
    | cons vs args =>
      rcases List.mem_cons.1 h with rfl | h
      · exact (List.prefix_append ts _).isInfix
      · exact (ih h).trans ((List.suffix_cons _ _).trans (List.suffix_append us _)).isInfix

theorem infix_calling (head : Token) {ts : List Token} {args : List (List Token)} (h : ts ∈ args) :
    ts <:+: calling head args :=
  (infix_separated h).trans ((infix_bracketed _).trans (List.suffix_cons head _).isInfix)

theorem tokens_part {d e : Expr} (h : d ∈ e.parts) : tokens d <:+: tokens e := by
  cases e with
  | var v => cases h
  | const c => cases h
  | bound v => cases h
  | not e =>
    rw [List.mem_singleton.1 h]
    exact (infix_operandTokens e _).trans (List.suffix_cons _ _).isInfix
  | function f arg =>
    rw [List.mem_singleton.1 h]
    exact infix_calling _ List.mem_cons_self
  | relation t l r => exact infix_calling _ (List.mem_map_of_mem (f := tokens) h)
  | operation op l r =>
    rcases List.mem_cons.1 h with rfl | h
    · exact (infix_operandTokens d _).trans (List.prefix_append _ _).isInfix
    · rw [List.mem_singleton.1 h]
      exact (infix_operandTokens r _).trans
        ((List.suffix_cons _ _).trans (List.suffix_append _ _)).isInfix
  | regex arg pattern => exact infix_calling _ (List.mem_map_of_mem (f := tokens) h)
  | regexWith arg pattern flags => exact infix_calling _ (List.mem_map_of_mem (f := tokens) h)
  | call name args =>
    rw [tokens, tokensAll_eq_map]
    exact infix_calling _ (List.mem_map_of_mem h)

theorem tokens_walk {d e : Expr} (h : d ∈ e.walk) : tokens d <:+: tokens e := by
  induction e using Expr.parts_induction with
  | step e ih =>
    rw [Expr.walk_eq] at h
    rcases List.mem_cons.1 h with rfl | h
    · exact List.infix_rfl
    · obtain ⟨c, hc, hd⟩ := Expr.mem_walkAll.1 h
      exact (ih c hc hd).trans (tokens_part hc)

theorem negatesOnce_of_isChain {e : Expr} (h : (tokens e).IsChain Apart) : e.NegatesOnce := by
  intro d hd
  have hchain : (Token.sign "!" :: .sign "!" :: operandTokens d (tokens d)).IsChain Apart :=
    h.infix (tokens_walk hd)
  exact (List.isChain_cons_cons.1 hchain).1 ⟨rfl, rfl⟩

/-! ## Keys of an order -/

def keyTokens (k : SortKey) : List Token :=
  if k.ascending then operandTokens k.expr (tokens k.expr)
  else calling (.word "desc") [tokens k.expr]

theorem lexesTo_sortKeyText {k : SortKey} (hk : k.expr.Lexical) :
    LexesTo (sortKeyText Naming.full k) (keyTokens k) := by
  have hexpr := lexesTo_expr hk
  unfold sortKeyText keyTokens
  split
  · exact hexpr.operand
  · have hdesc : "desc(" = "desc" ++ "(" := by decide
    rw [hdesc]
    exact lexesTo_call (expr Naming.full) tokens [k.expr] (fun _ => rfl)
      (List.forall_mem_singleton.2 hexpr)

theorem DerivesOrder.isChain {k : SortKey} {ts : List Token} (h : DerivesOrder k ts) :
    ts.IsChain Apart := by
  cases h with
  | ascending h => exact isChain_around (by decide) .nil h.isChain
  | descending h => exact isChain_around (by decide) .nil h.isChain
  | constraint hp h => exact h.isChain
  | var v => exact .singleton _

theorem DerivesOrder.head {k : SortKey} {ts : List Token} (h : DerivesOrder k ts) :
    Constrains ts ∨ ∃ name, ts = [.variable name] := by
  cases h with
  | ascending h => exact Or.inl ⟨_, Or.inr (Or.inl ⟨_, rfl⟩)⟩
  | descending h => exact Or.inl ⟨_, Or.inr (Or.inl ⟨_, rfl⟩)⟩
  | constraint hp h => exact Or.inl (h.constrains hp)
  | var v => exact Or.inr ⟨_, rfl⟩

theorem DerivesOrder.head? {k : SortKey} {ts : List Token} (h : DerivesOrder k ts) :
    ts.head? ≠ some (.sign "!") := by
  rcases h.head with h | ⟨name, rfl⟩
  · exact h.head?
  · simp

theorem not_derivesOrder_constant (c : Constant) (k : SortKey) :
    ¬ DerivesOrder k (constantTokens c) := by
  intro h
  have hhead := h.head
  rcases c with i | label | (value | ⟨value, tag⟩ | ⟨value, datatype, proper⟩) <;>
    simp [Constrains, constantTokens, literalTokens] at hhead

theorem derivesOrder_keyTokens {k : SortKey} (hk : k.expr.Lexical) (hplain : k.Plain) :
    DerivesOrder k (keyTokens k) := by
  obtain ⟨e, ascending⟩ := k
  have hderives := derives_tokens hk hplain.negatesOnce
  cases ascending with
  | false => exact .descending (.bracketed hderives.toExpression)
  | true =>
    obtain ⟨hconstant, hnegation⟩ := hplain.ascending rfl
    cases e with
    | var v => exact .var v
    | const c => cases hconstant
    | not e => cases hnegation
    | operation op l r => exact .constraint (by decide) (.bracketed hderives.toExpression)
    | bound v => exact .constraint (p := .builtIn) (by decide) hderives
    | function f arg => exact .constraint (p := .builtIn) (by decide) hderives
    | relation t l r => exact .constraint (p := .builtIn) (by decide) hderives
    | regex arg pattern => exact .constraint (p := .builtIn) (by decide) hderives
    | regexWith arg pattern flags => exact .constraint (p := .builtIn) (by decide) hderives
    | call name args => exact .constraint (p := .functionCall) (by decide) hderives

theorem plain_of_derivesOrder {k k' : SortKey} (h : DerivesOrder k' (keyTokens k)) : k.Plain := by
  obtain ⟨e, ascending⟩ := k
  have hinfix : tokens e <:+: keyTokens ⟨e, ascending⟩ := by
    unfold keyTokens
    split
    · exact infix_operandTokens e _
    · exact infix_calling _ List.mem_cons_self
  have hchain := h.isChain.infix hinfix
  refine ⟨negatesOnce_of_isChain hchain, ?_⟩
  rintro rfl
  cases e with
  | const c => exact absurd h (not_derivesOrder_constant c k')
  | not e => exact absurd rfl h.head?
  | _ => exact ⟨rfl, rfl⟩

/-! ## The texts that are written -/

/-- The text is an `Expression` that has the structure of this one. -/
def IsExpression (text : String) (e : Expr) : Prop :=
  ∃ ts, Lexes text.toList ts ∧ Derives .expression e ts

/-- The text is an `OrderCondition` that orders by this key. -/
def IsCondition (text : String) (k : SortKey) : Prop :=
  ∃ ts, Lexes text.toList ts ∧ DerivesOrder k ts

theorem LexesTo.lexes {text : String} {us : List Token} (h : LexesTo text us) :
    Lexes text.toList us := by
  simpa using h [] [] trivial .nil

theorem isExpression_expr {e : Expr} (he : e.Lexical) (honce : e.NegatesOnce) :
    IsExpression (expr Naming.full e) e :=
  ⟨tokens e, (lexesTo_expr he).lexes, (derives_tokens he honce).toExpression⟩

theorem negatesOnce_of_isExpression {e d : Expr} (he : e.Lexical)
    (h : IsExpression (expr Naming.full e) d) : e.NegatesOnce := by
  obtain ⟨ts, hts, hderives⟩ := h
  rw [hts.unique (lexesTo_expr he).lexes] at hderives
  exact negatesOnce_of_isChain hderives.isChain

theorem isCondition_sortKeyText {k : SortKey} (hk : k.expr.Lexical) (hplain : k.Plain) :
    IsCondition (sortKeyText Naming.full k) k :=
  ⟨keyTokens k, (lexesTo_sortKeyText hk).lexes, derivesOrder_keyTokens hk hplain⟩

theorem plain_of_isCondition {k k' : SortKey} (hk : k.expr.Lexical)
    (h : IsCondition (sortKeyText Naming.full k) k') : k.Plain := by
  obtain ⟨ts, hts, hderives⟩ := h
  rw [hts.unique (lexesTo_sortKeyText hk).lexes] at hderives
  exact plain_of_derivesOrder hderives

/-- The text of an expression in which no negation stands directly below another is derived from
the grammar with the structure of the expression, and so is the text of a key that orders by it,
ascending also not by a negation or a constant. All other texts are not derived at all. -/
theorem texts_derivable {s : Style} (hfull : s.compactIris = false) {e : Expr} (he : e.Lexical) :
    (e.NegatesOnce → IsExpression (expr (Naming.ofStyle s) e) e) ∧
      (∀ d, IsExpression (expr (Naming.ofStyle s) e) d → e.NegatesOnce) ∧
      ∀ k : SortKey, k.expr = e →
        (k.Plain → IsCondition (sortKeyText (Naming.ofStyle s) k) k) ∧
          ∀ k', IsCondition (sortKeyText (Naming.ofStyle s) k) k' → k.Plain := by
  rw [Naming.ofStyle_full hfull]
  refine ⟨isExpression_expr he, fun d => negatesOnce_of_isExpression he, ?_⟩
  rintro k rfl
  exact ⟨isCondition_sortKeyText he, fun k' => plain_of_isCondition he⟩

/-- A negated conjunction, which needs parentheses around it and inside it. -/
def notBelow : Expr :=
  .not (.operation .and (.bound (.user "x"))
    (.operation (.compare .lt) (.function .str (.var (.user "x")))
      (.const (.literal (.simple "a\"b")))))

theorem notBelow_derivable :
    IsExpression "!(bound(?x) && (str(?x) < \"a\\\"b\"))" notBelow ∧
      IsCondition "desc(!(bound(?x) && (str(?x) < \"a\\\"b\")))" ⟨notBelow, false⟩ := by
  have hlexical : notBelow.Lexical := by
    refine ⟨by decide, fun label => ?_⟩
    simp [notBelow, Expr.constants, Expr.walk, Expr.constant?]
  have honce : notBelow.NegatesOnce := by
    simp [Expr.NegatesOnce, notBelow, Expr.walk]
  obtain ⟨hexpr, -, hkeys⟩ := texts_derivable (s := Style.default) rfl hlexical
  have hplain : SortKey.Plain ⟨notBelow, false⟩ := ⟨honce, fun h => absurd h Bool.false_ne_true⟩
  exact ⟨hexpr honce, (hkeys _ rfl).1 hplain⟩

/-- The text of a negation of a negation is no expression at all, and an ascending order cannot be
by a constant. -/
theorem negatedTwice_underivable :
    expr (Naming.ofStyle Style.default) (.not (.not (.var (.user "x")))) = "!!?x" ∧
      (∀ d, ¬ IsExpression "!!?x" d) ∧
      sortKeyText (Naming.ofStyle Style.default) ⟨.const (.literal (.simple "a")), true⟩ =
        "\"a\"" ∧
      ∀ k, ¬ IsCondition "\"a\"" k := by
  have hvariable : (Expr.not (.not (.var (.user "x")))).Lexical := by
    refine ⟨by decide, fun label => ?_⟩
    simp [Expr.constants, Expr.walk, Expr.constant?]
  have hconstant : (Expr.const (.literal (.simple "a"))).Lexical := by
    refine ⟨by decide, fun label => ?_⟩
    simp [Expr.constants, Expr.walk, Expr.constant?]
  refine ⟨rfl, fun d h => ?_, rfl, fun k h => ?_⟩
  · exact negatesOnce_of_isExpression hvariable h (.var (.user "x")) List.mem_cons_self
  · have hplain := plain_of_isCondition (k := ⟨.const (.literal (.simple "a")), true⟩) hconstant h
    cases (hplain.ascending rfl).1

end Sparql

end RdfQuery
