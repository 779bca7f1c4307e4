import RdfQuery.Proofs.Query.Construction

/-!
# Forms of built queries

The kind of a query decides on the form of its text for ask and describe queries. For
select and construct queries the projection decides: a query with templates, or with the
names of the three positions of a template, is written as a construct query and any other
one as a select query, whichever of the two it was meant to be.
-/

set_option autoImplicit false

namespace RdfQuery

/-! ## Names of positions -/

/-- The name with its ASCII letters in lower case. -/
def Position.lowered (name : String) : String := String.ofList (name.toList.map Char.toLower)

theorem Position.named?_eq_some {name : String} {p : Position} :
    named? name = some p ↔ lowered name = p.name := by
  have hnamed : named? name = if lowered name = "subject" then some .subject
      else if lowered name = "predicate" then some .predicate
      else if lowered name = "object" then some .object else none := rfl
  rw [hnamed]
  constructor
  · intro h
    split_ifs at h with hsubject hpredicate hobject
    · cases h
      exact hsubject
    · cases h
      exact hpredicate
    · cases h
      exact hobject
  · intro h
    rw [h]
    cases p <;> decide

/-- Columns that rename nothing are a template if their names are those of the positions. -/
theorem Columns.isTemplate_same {names : List String} :
    Columns.isTemplate (names.map Column.same) = true ↔
      names.map Position.lowered = ["subject", "predicate", "object"] := by
  match names with
  | [] => simp [isTemplate]
  | [_] => simp [isTemplate]
  | [_, _] => simp [isTemplate]
  | [a, b, c] =>
    simp [isTemplate, Column.same, Column.position?, Position.named?_eq_some, Position.name,
      and_assoc]
  | _ :: _ :: _ :: _ :: _ => simp [isTemplate]

namespace QueryCall

/-- There are templates, or the projected names are those of the positions of a template. -/
def readsAsTemplate (calls : List QueryCall) : Bool :=
  !(calls.filterMap statement?).isEmpty ||
    (calls.flatMap names).map Position.lowered = ["subject", "predicate", "object"]

/-- The word that the text of the query begins with. -/
def keyword (kind : QueryKind) (calls : List QueryCall) : String :=
  match kind with
  | .ask => "ask"
  | .describe _ => "describe"
  | _ => if readsAsTemplate calls then "construct" else "select"

theorem shape_of_retold {kind : QueryKind} (hkind : kind = .select ∨ kind = .construct)
    {calls : List QueryCall} {o : Outline} (h : Retold kind calls o) :
    o.shape = if readsAsTemplate calls then .construct else .select := by
  by_cases hstatements : calls.filterMap statement? = []
  · obtain ⟨hlists, -⟩ := h.names hkind hstatements
    have hany : o.lists.any Columns.isTemplate = readsAsTemplate calls := by
      rw [hlists, List.any_cons, List.any_nil, Bool.or_false, readsAsTemplate, hstatements,
        Bool.eq_iff_iff, Columns.isTemplate_same]
      simp
    rw [Outline.shape, hany]
  · obtain ⟨hlength, hpositioned, -⟩ := h.templates hkind _ hstatements rfl
    have hlists : o.lists ≠ [] := by
      rw [← List.length_pos_iff, hlength, List.length_pos_iff]
      exact hstatements
    have hreads : readsAsTemplate calls = true := by
      simp [readsAsTemplate, hstatements]
    rw [Outline.shape_of_positioned hpositioned hlists, hreads]
    rfl

theorem keyword_of_shapeForm {kind : QueryKind} (hkind : kind = .select ∨ kind = .construct)
    {calls : List QueryCall} {o : Outline} (h : Retold kind calls o) {f : Sparql.Form}
    (hf : Sparql.shapeForm o = .ok f) : f.keyword = keyword kind calls := by
  have hkeyword : keyword kind calls = if readsAsTemplate calls then "construct" else "select" := by
    rcases hkind with rfl | rfl <;> rfl
  have hshape := shape_of_retold hkind h
  rw [hkeyword]
  rcases Sparql.shapeForm_eq_ok hf with ⟨hselect, items, -, rfl⟩ | ⟨hconstruct, rfl⟩
  · rw [hselect] at hshape
    split at hshape
    · cases hshape
    · rename_i hreads
      rw [if_neg hreads]
      rfl
  · rw [hconstruct] at hshape
    split at hshape
    · rename_i hreads
      rw [if_pos hreads]
      rfl
    · cases hshape

/-- The head of a select query after its keyword: the names and nothing else. -/
theorem restText_of_names {kind : QueryKind} (hkind : kind = .select ∨ kind = .construct)
    {calls : List QueryCall} {o : Outline} (h : Retold kind calls o)
    (hreads : readsAsTemplate calls = false) (hne : calls.flatMap names ≠ []) {f : Sparql.Form}
    (hf : Sparql.shapeForm o = .ok f) (p : Sparql.Pen) :
    f.restText p = o.repeats.text ++
      Text.concatenated ((calls.flatMap names).map fun name => " ?" ++ name) := by
  have hshape := shape_of_retold hkind h
  rw [hreads] at hshape
  have hstatements : calls.filterMap statement? = [] := by
    by_contra hstatements
    simp [readsAsTemplate, hstatements] at hreads
  obtain ⟨hlists, hbindings⟩ := h.names hkind hstatements
  rcases Sparql.shapeForm_eq_ok hf with ⟨-, items, hitems, rfl⟩ | ⟨hconstruct, -⟩
  · rw [Outline.items, hlists] at hitems
    cases hitems
    have hpieces : (calls.flatMap names).map Sparql.variableText ≠ [] := by
      simpa using hne
    rw [Sparql.Form.restText, Sparql.items_of_unbound hbindings,
      Sparql.listed_of_ne_nil hpieces, List.map_map]
    refine congrArg (fun pieces => o.repeats.text ++ Text.concatenated pieces)
      (List.map_congr_left fun name _ => ?_)
    have hmark : " ?" = " " ++ "?" := by decide
    rw [hmark, String.append_assoc]
    rfl
  · rw [hconstruct] at hshape
    cases hshape

/-- The keyword of the text is that of the kind for ask and describe queries, and otherwise the one
that the projection reads as. A select query whose projection reads as names lists these names. -/
theorem keyword_written {kind : QueryKind} {calls : List QueryCall}
    (hpatterned : ∀ cs ∈ groups calls, GroupCall.Patterned cs) {q : Query}
    (hq : ((QueryDraft.start kind).callAll calls).build = .ok q) {s : Style} {text : String}
    (htext : Sparql.render s q = .ok text) :
    ∃ (declared : List (String × String)) (rest : String),
      text = Text.concatenated (declared.map Sparql.declarationText) ++ keyword kind calls ++ rest ∧
      Text.EndsWord rest ∧
      ((kind = .select ∨ kind = .construct) → readsAsTemplate calls = false →
        calls.flatMap names ≠ [] → ∃ (repeats : Repeats) (below : String),
          rest = repeats.text ++
            Text.concatenated ((calls.flatMap names).map fun name => " ?" ++ name) ++ below ∧
          Text.EndsLine below) := by
  obtain ⟨d, hform, rfl⟩ := Sparql.document_of_render htext
  obtain ⟨hq', -⟩ := compile_of_build hq
  rw [hq'] at hform
  refine ⟨d.declarations, d.form.restText (.ofStyle s) ++ d.belowText (.ofStyle s), ?_,
    Sparql.endsWord_rest _ d, ?_⟩
  · rw [Sparql.text_eq_keyword]
    congr 2
    cases kind with
    | ask =>
      rw [← Except.ok.inj hform]
      rfl
    | describe targets =>
      rw [← Except.ok.inj hform]
      rfl
    | select =>
      obtain ⟨ts, t, -, -, -, -, -, hretold⟩ := peel_build (Or.inl rfl) hpatterned hq
      exact keyword_of_shapeForm (Or.inl rfl) hretold hform
    | construct =>
      obtain ⟨ts, t, -, -, -, -, -, hretold⟩ := peel_build (Or.inr rfl) hpatterned hq
      exact keyword_of_shapeForm (Or.inr rfl) hretold hform
  · intro hkind hreads hne
    obtain ⟨ts, t, -, -, -, -, -, hretold⟩ := peel_build hkind hpatterned hq
    rw [Sparql.form_of_isShaped (isShaped_of_projects hkind)] at hform
    rw [restText_of_names hkind hretold hreads hne hform]
    exact ⟨_, _, rfl, Sparql.endsLine_belowText _ d⟩

/-- Names and no template, of a query that is meant to construct statements. -/
def namedCalls : List QueryCall :=
  [.project ["s"], .project ["o"],
    .group [.pattern ⟨.var (.user "s"), .var (.user "p"), .var (.user "o"), none⟩]]

theorem namedCalls_keyword_written :
    (∀ cs ∈ groups namedCalls, GroupCall.Patterned cs) ∧ readsAsTemplate namedCalls = false ∧
      namedCalls.flatMap names ≠ [] ∧
      ∃ q text, ((QueryDraft.start .construct).callAll namedCalls).build = .ok q ∧
        Sparql.render .default q = .ok text ∧
        ∃ (declared : List (String × String)) (repeats : Repeats) (below : String),
          text = Text.concatenated (declared.map Sparql.declarationText) ++ "select" ++
            (repeats.text ++ Text.concatenated (["s", "o"].map fun name => " ?" ++ name) ++ below) ∧
          Text.EndsLine below := by
  have hpatterned : ∀ cs ∈ groups namedCalls, GroupCall.Patterned cs := by decide
  have hreads : readsAsTemplate namedCalls = false := by decide
  have hne : namedCalls.flatMap names ≠ [] := List.cons_ne_nil _ _
  obtain ⟨q, hq, text, htext⟩ :
      ∃ q, ((QueryDraft.start .construct).callAll namedCalls).build = .ok q ∧
        ∃ text, Sparql.render .default q = .ok text := ⟨_, rfl, _, rfl⟩
  obtain ⟨declared, rest, heq, -, hnames⟩ := keyword_written hpatterned hq htext
  obtain ⟨repeats, below, rfl, hbelow⟩ := hnames (Or.inr rfl) hreads hne
  exact ⟨hpatterned, hreads, hne, q, text, hq, htext, declared, repeats, below, heq, hbelow⟩

/-! ## Queries that do not have the form of their kind -/

/-- After its declarations the text begins with the word. -/
def Opens (word text : String) : Prop :=
  ∃ (declared : List (String × String)) (rest : String),
    text = Text.concatenated (declared.map Sparql.declarationText) ++ word ++ rest

theorem not_opens {word text : String} (hdeclared : ¬ Text.BeginsWith 'P' text)
    (hword : ¬ word.toList <+: text.toList) : ¬ Opens word text := by
  rintro ⟨declared, rest, rfl⟩
  cases declared with
  | nil =>
    refine hword ?_
    rw [List.map_nil, Text.concatenated, String.empty_append, String.toList_append]
    exact List.prefix_append _ _
  | cons d declared =>
    have hbegins : Text.BeginsWith 'P' "PREFIX " := by decide
    exact hdeclared (((((((hbegins.append _).append _).append _).append _).append _).append
      _).append _)

/-- The names of the positions, whatever the case of their letters, and the same as a template. -/
def positionCalls : List QueryCall :=
  [.project ["Subject", "predicate", "OBJECT"],
    .group [.pattern ⟨.var (.user "s"), .var (.user "p"), .var (.user "o"), none⟩]]

def templateCalls : List QueryCall :=
  [.statement ⟨.var (.user "s"), .var (.user "p"), .var (.user "o")⟩,
    .group [.pattern ⟨.var (.user "s"), .var (.user "p"), .var (.user "o"), none⟩]]

/-- A select query is written with another word if its names are those of the positions or if it has
a template, and so is a construct query without a template. -/
theorem kind_not_written :
    (∀ cs ∈ groups (positionCalls ++ templateCalls ++ namedCalls), GroupCall.Patterned cs) ∧
    (∃ q text, ((QueryDraft.start .select).callAll positionCalls).build = .ok q ∧
      Sparql.render .default q = .ok text ∧ ¬ Opens QueryKind.select.name text) ∧
    (∃ q text, ((QueryDraft.start .select).callAll templateCalls).build = .ok q ∧
      Sparql.render .default q = .ok text ∧ ¬ Opens QueryKind.select.name text) ∧
    ∃ q text, ((QueryDraft.start .construct).callAll namedCalls).build = .ok q ∧
      Sparql.render .default q = .ok text ∧ ¬ Opens QueryKind.construct.name text := by
  refine ⟨by decide, ?_, ?_, ?_⟩
  · refine ⟨_, "construct \x7b\n  ?Subject ?predicate ?OBJECT.\n\x7d\nwhere \x7b\n  ?s ?p ?o.\n\x7d",
      rfl, rfl, not_opens ?_ ?_⟩ <;> decide
  · refine ⟨_, "construct \x7b\n  ?s ?p ?o.\n\x7d\nwhere \x7b\n  ?s ?p ?o.\n\x7d", rfl, rfl,
      not_opens ?_ ?_⟩ <;> decide
  · refine ⟨_, "select ?s ?o\nwhere \x7b\n  ?s ?p ?o.\n\x7d", rfl, rfl,
      not_opens ?_ ?_⟩ <;> decide

end QueryCall

end RdfQuery
