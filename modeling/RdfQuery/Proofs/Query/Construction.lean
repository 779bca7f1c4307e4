import RdfQuery.Proofs.Query.Peeling
import RdfQuery.Proofs.Sparql.Heads
import RdfQuery.Proofs.Sparql.Mentions
import RdfQuery.Serql.Document

/-!
# Templates of built queries

A query with statement templates is written as a construct query in both languages,
with a template for each statement and each term as it was given. The names that
stood for constants are in the projection only: no bindings are left to be written,
and no such name is mentioned unless the groups or the sort keys have it.
-/

set_option autoImplicit false

namespace RdfQuery

/-! ## Texts of templates -/

namespace Sparql

theorem templateTermText_of_holds {n : Naming} {u : TemplateTerm} {t : Term}
    (h : Statement.Holds u t) : templateTermText n u = term n t := by
  cases u with
  | name source =>
    cases t with
    | var v => exact congrArg variableText h
    | const c => exact h.elim
  | constant source c =>
    cases t with
    | var v => exact h.elim
    | const d => exact congrArg n.constant h

def statementLine (p : Pen) (s : Statement) : String :=
  p.line 1 (p.triple s.subject s.predicate s.object)

theorem templateText_of_heldBy (p : Pen) (s : Statement) (t : Template) (h : s.HeldBy t) :
    templateText p t = statementLine p s := by
  obtain ⟨hsubject, hpredicate, hobject⟩ := h
  rw [templateText, templateTermText_of_holds hsubject, templateTermText_of_holds hpredicate,
    templateTermText_of_holds hobject]
  rfl

end Sparql

namespace Serql

theorem templateTermText_of_holds {n : Naming} {u : TemplateTerm} {t : Term}
    (h : Statement.Holds u t) : templateTermText n u = term n t := by
  cases u with
  | name source =>
    cases t with
    | var v => exact h
    | const c => exact h.elim
  | constant source c =>
    cases t with
    | var v => exact h.elim
    | const d => exact congrArg n.constant h

def statementText (n : Naming) (s : Statement) : String :=
  "\x7b" ++ term n s.subject ++ "\x7d " ++ term n s.predicate ++ " \x7b" ++ term n s.object ++
    "\x7d"

theorem templateText_of_heldBy (n : Naming) (s : Statement) (t : Template) (h : s.HeldBy t) :
    templateText n t = statementText n s := by
  obtain ⟨hsubject, hpredicate, hobject⟩ := h
  rw [templateText, templateTermText_of_holds hsubject, templateTermText_of_holds hpredicate,
    templateTermText_of_holds hobject]
  rfl

end Serql

/-! ## Documents of construct queries -/

namespace Sparql

theorem names_written (bound : Nat) (ts : List Term) :
    (Statement.written bound ts).flatMap TemplateTerm.names =
      Variable.names (ts.flatMap Term.variables) := by
  induction ts generalizing bound with
  | nil => rfl
  | cons t ts ih =>
    cases t with
    | var v => exact congrArg _ (ih bound)
    | const c => exact ih (bound + 1)

theorem bindingNames_construct (templates : List Template) :
    (Form.construct templates).bindingNames =
      (templates.flatMap Template.terms).filterMap TemplateTerm.bindingName? :=
  List.filterMap_flatMap.symm

/-- Where the head writes out all bindings, the block has none left to write. -/
theorem block_of_written {kind : QueryKind} {o : Outline} {f : Form} {m : GraphMap} {t : Tree}
    {es : List Element} (hbody : o.body = some t) (hes : elements t (m.descend o.depth) = .ok es)
    (hwritten : ∀ b ∈ o.bindings.entries, b.1 ∈ f.bindingNames) :
    block kind o f m = .ok (some ⟨es, []⟩) := by
  have helements : bodyElements o m = .ok es := by
    rw [bodyElements, hbody]
    exact hes
  have hnone : (o.bindings.entries.filter fun b => !f.bindingNames.contains b.1) = [] := by
    rw [List.filter_eq_nil_iff]
    intro b hb
    simp [hwritten b hb]
  unfold block
  split
  · rename_i hnobody
    rw [hbody] at hnobody
    cases hnobody
  · simp only [helements, hnone]
    rfl

/-- A construct query whose head writes out all bindings. -/
theorem document_construct (n : Naming) {q : Query} {t : Tree} (hkind : isShaped q.kind = true)
    (hshape : (Outline.peel q.tree).shape = .construct)
    (hrepeats : (Outline.peel q.tree).repeats = .kept)
    (hbody : (Outline.peel q.tree).body = some t) (hkinds : ∀ u ∈ t.subtrees, u.kind ∈ bodyKinds)
    (hwritten : ∀ b ∈ (Outline.peel q.tree).bindings.entries,
      b.1 ∈ (Form.construct (Outline.peel q.tree).templates).bindingNames) :
    ∃ es, elements t (GraphMap.collect t) = .ok es ∧
      document n q (GraphMap.collect q.tree) = .ok {
        declarations := n.declarations (collected q)
        form := .construct (Outline.peel q.tree).templates
        dataset := q.dataset
        block := some ⟨es, []⟩
        footer := (Outline.peel q.tree).footer } := by
  obtain ⟨es, hes⟩ : ∃ es, elements t (GraphMap.collect t) = .ok es := by
    rw [← Outcome.error?_eq_none, error?_elements, firstMisplaced?_eq_none]
    exact hkinds
  have hform : form (Outline.peel q.tree) q.kind =
      .ok (.construct (Outline.peel q.tree).templates) := by
    rw [form_of_isShaped hkind, shapeForm, hshape]
    exact if_pos hrepeats
  have hdescend : elements t ((GraphMap.collect q.tree).descend (Outline.peel q.tree).depth) =
      .ok es := by
    rw [GraphMap.collect_descend_peel hbody]
    exact hes
  exact ⟨es, hes, Outcome.bind_eq_ok.2 ⟨_, hform,
    Outcome.bind_eq_ok.2 ⟨_, block_of_written hbody hdescend hwritten, rfl⟩⟩⟩

/-- A document without bindings in its block, the templates written as statements. -/
theorem text_construct (p : Pen) {d : Document} {templates : List Template}
    {statements : List Statement} {es : List Element} (hform : d.form = .construct templates)
    (hblock : d.block = some ⟨es, []⟩) (h : List.Forall₂ Statement.HeldBy statements templates) :
    d.text p = Text.concatenated (d.declarations.map declarationText) ++
      ("construct \x7b\n" ++ Text.concatenated (statements.map (statementLine p)) ++ "\x7d") ++
      datasetText p.naming d.dataset ++ ("\nwhere \x7b\n" ++ bodyText p 1 es ++ "\x7d") ++
      d.footer.orderText " " (sortKeyText p.naming) ++ d.footer.boundsText := by
  have hlines := Statement.map_eq_map_of_heldBy (templateText_of_heldBy p) h
  have hbindings : Text.concatenated (([] : List (String × Expr)).map (bindText p)) = "" := rfl
  rw [Document.text, hform, formText, hblock, blockText, hlines, hbindings, String.append_empty]

end Sparql

namespace Serql

theorem renderCollected_of_render {s : Style} {q : Query} {text : String}
    (hkind : Sparql.isShaped q.kind = true) (h : render s q = .ok text) :
    renderCollected s q.tree = .ok text := by
  unfold render at h
  split at h
  · cases h
  cases hq : q.kind with
  | select =>
    rw [hq] at h
    exact h
  | construct =>
    rw [hq] at h
    exact h
  | ask =>
    rw [hq] at hkind
    cases hkind
  | describe targets =>
    rw [hq] at hkind
    cases hkind

theorem head_of_construct {o : Outline} {h : Head} (hshape : o.shape = .construct)
    (hok : head o = .ok h) : h = .construct o.repeats o.templates := by
  unfold head at hok
  rw [hshape] at hok
  split at hok
  · cases hok
  · simp only at hok
    split at hok
    · exact (Except.ok.inj hok).symm
    · cases hok

end Serql

/-! ## What a text has of the templates -/

/-- The document writes each template on a line of the construct block, in the where-block the
elements of the body and nothing else, and among its variables no name of a constant unless an own
variable is called so. -/
structure Sparql.Constructs (s : Style) (q : Query) (statements : List Statement) (body : Tree)
    (own : List Variable) (d : Sparql.Document) (es : List Sparql.Element) : Prop where
  document : Sparql.document (Naming.ofStyle s) q (GraphMap.collect q.tree) = .ok d
  render : Sparql.render s q = .ok (d.text (Sparql.Pen.ofStyle s))
  elements : Sparql.elements body (GraphMap.collect body) = .ok es
  text : d.text (Sparql.Pen.ofStyle s) =
    Text.concatenated (d.declarations.map Sparql.declarationText) ++
      ("construct \x7b\n" ++ Text.concatenated
        (statements.map (Sparql.statementLine (Sparql.Pen.ofStyle s))) ++ "\x7d") ++
      Sparql.datasetText (Naming.ofStyle s) d.dataset ++
      ("\nwhere \x7b\n" ++ Sparql.bodyText (Sparql.Pen.ofStyle s) 1 es ++ "\x7d") ++
      d.footer.orderText " " (Sparql.sortKeyText (Naming.ofStyle s)) ++ d.footer.boundsText
  names : ∀ number, Statement.constantName number ∈ d.names →
    Statement.constantName number ∈ Variable.names own

theorem Sparql.Constructs.mono {s : Style} {q : Query} {statements : List Statement} {body : Tree}
    {own own' : List Variable} {d : Sparql.Document} {es : List Sparql.Element}
    (h : Sparql.Constructs s q statements body own d es) (hsub : own ⊆ own') :
    Sparql.Constructs s q statements body own' d es :=
  ⟨h.document, h.render, h.elements, h.text,
    fun number hnumber => List.map_subset _ hsub (h.names number hnumber)⟩

/-- The head of the document lists the templates. -/
structure Serql.Constructs (s : Style) (q : Query) (statements : List Statement)
    (d : Serql.Document) : Prop where
  document : Serql.document (Naming.ofStyle s) q.tree (GraphMap.collect q.tree) = .ok d
  render : Serql.render s q = .ok (d.text s)
  head : Serql.headText (Naming.ofStyle s) d.head =
    "construct" ++ (Outline.peel q.tree).repeats.text ++ " " ++
      Text.separated ", " (statements.map (Serql.statementText (Naming.ofStyle s)))

/-! ## Built queries -/

namespace QueryCall

theorem isShaped_of_projects {kind : QueryKind} (h : kind = .select ∨ kind = .construct) :
    Sparql.isShaped kind = true := by
  rcases h with rfl | rfl <;> rfl

/-- What can stand in a group of patterns can stand in a body. -/
theorem groupKinds_subset : Tree.groupKinds ⊆ Sparql.bodyKinds := by decide

/-- The outline has the templates, each with the terms it was given, and their constants. -/
structure Stated (statements : List Statement) (o : Outline) : Prop where
  shape : o.shape = .construct
  terms : o.templates.flatMap Template.terms =
    Statement.written 0 (statements.flatMap Statement.terms)
  held : List.Forall₂ Statement.HeldBy statements o.templates
  bindings : o.bindings.entries = Statement.numbered 0 (Statement.constants statements)

theorem Retold.stated {kind : QueryKind} {calls : List QueryCall} {statements : List Statement}
    {o : Outline} (h : Retold kind calls o) (hkind : kind = .select ∨ kind = .construct)
    (hne : statements ≠ []) (hstatements : calls.filterMap statement? = statements)
    (hnames : ∀ s ∈ statements, ∀ u ∈ s.terms, ∀ v ∈ u.variables,
      Statement.isReserved v.name = false) :
    Stated statements o := by
  obtain ⟨hlength, hpositioned, hsources, hentries⟩ := h.templates hkind statements hne hstatements
  have hfree : ∀ v, .var v ∈ statements.flatMap Statement.terms →
      Statement.isReserved v.name = false := by
    intro v hv
    obtain ⟨s, hs, hv⟩ := List.mem_flatMap.1 hv
    exact hnames s hs _ hv v (List.mem_singleton_self v)
  have hterms := Outline.terms_eq_written hpositioned hsources hentries hfree
  have hlists : o.lists ≠ [] := by
    rw [← List.length_pos_iff, hlength, List.length_pos_iff]
    exact hne
  refine ⟨Outline.shape_of_positioned hpositioned hlists, hterms, ?_, hentries⟩
  refine Statement.heldBy_of_terms ?_
  rw [hterms]
  exact Statement.holds_written 0 _

/-- The head writes out the bindings of all constants. -/
theorem Stated.bindings_written {statements : List Statement} {o : Outline}
    (h : Stated statements o) :
    ∀ b ∈ o.bindings.entries, b.1 ∈ (Sparql.Form.construct o.templates).bindingNames := by
  intro b hb
  rw [Sparql.bindingNames_construct, h.terms, Statement.bindingNames_written]
  rw [h.bindings] at hb
  exact List.mem_map_of_mem hb

/-- It mentions the variables of the templates and no other ones, so no names of constants. -/
theorem Stated.not_mem_names {statements : List Statement} {o : Outline}
    (h : Stated statements o)
    (hnames : ∀ s ∈ statements, ∀ u ∈ s.terms, ∀ v ∈ u.variables,
      Statement.isReserved v.name = false)
    (number : Nat) :
    Statement.constantName number ∉ (Sparql.Form.construct o.templates).names := by
  rw [Sparql.Form.names, h.terms, Sparql.names_written]
  intro hmem
  obtain ⟨v, hv, hname⟩ := List.mem_map.1 hmem
  obtain ⟨u, hu, hv⟩ := List.mem_flatMap.1 hv
  obtain ⟨s, hs, hu⟩ := List.mem_flatMap.1 hu
  have hreserved := hnames s hs u hu v hv
  rw [hname, Statement.isReserved_constantName] at hreserved
  cases hreserved

theorem Stated.sparql {statements : List Statement} {q : Query} {t : Tree}
    (h : Stated statements (Outline.peel q.tree))
    (hnames : ∀ s ∈ statements, ∀ u ∈ s.terms, ∀ v ∈ u.variables,
      Statement.isReserved v.name = false)
    (hkind : Sparql.isShaped q.kind = true) (hrepeats : (Outline.peel q.tree).repeats = .kept)
    (hbody : (Outline.peel q.tree).body = some t)
    (hkinds : ∀ u ∈ t.subtrees, u.kind ∈ Sparql.bodyKinds) (s : Style) :
    ∃ d es, Sparql.Constructs s q statements t
      (t.variables ++ (Outline.peel q.tree).order.flatMap fun k => k.expr.variables) d es := by
  obtain ⟨es, hes, hdocument⟩ := Sparql.document_construct (Naming.ofStyle s) hkind h.shape
    hrepeats hbody hkinds h.bindings_written
  refine ⟨_, es, hdocument, Outcome.bind_eq_ok.2 ⟨_, hdocument, rfl⟩, hes,
    Sparql.text_construct _ rfl rfl h.held, ?_⟩
  intro number hnumber
  rw [Variable.names_append]
  rcases List.mem_append.1 hnumber with hform | hrest
  · exact absurd hform (h.not_mem_names hnames number)
  rcases List.mem_append.1 hrest with hblock | hkeys
  · rw [Option.toList_some, List.flatMap_singleton] at hblock
    exact List.mem_append_left _ (Sparql.names_block hes hblock)
  · exact List.mem_append_right _ hkeys

theorem Stated.serql {statements : List Statement} {q : Query}
    (h : Stated statements (Outline.peel q.tree)) (hkind : Sparql.isShaped q.kind = true)
    {s : Style} {text : String} (htext : Serql.render s q = .ok text) :
    ∃ d, Serql.Constructs s q statements d := by
  obtain ⟨d, hd, hrest⟩ := Outcome.bind_eq_ok.1 (Serql.renderCollected_of_render hkind htext)
  cases hrest
  refine ⟨d, hd, htext, ?_⟩
  obtain ⟨hd', hhead, hd⟩ := Outcome.bind_eq_ok.1 hd
  obtain ⟨b, -, hd⟩ := Outcome.bind_eq_ok.1 hd
  cases hd
  rw [Serql.head_of_construct h.shape hhead, Serql.headText,
    Statement.map_eq_map_of_heldBy (Serql.templateText_of_heldBy _) h.held]

/-- The tree of a built query of groups of patterns, and what its outline has. -/
theorem peel_build {kind : QueryKind} (hkind : kind = .select ∨ kind = .construct)
    {calls : List QueryCall} (hpatterned : ∀ cs ∈ groups calls, GroupCall.Patterned cs)
    {q : Query} (hq : ((QueryDraft.start kind).callAll calls).build = .ok q) :
    ∃ ts t, List.Forall₂ GroupCall.CompilesTo (groups calls) ts ∧ Tree.joined? ts = some t ∧
      GroupCall.Makes (groups calls).flatten t ∧ Sparql.isShaped q.kind = true ∧
      (Outline.peel q.tree).body = some t ∧ Retold kind calls (Outline.peel q.tree) := by
  obtain ⟨rfl, hcompile⟩ := compile_of_build hq
  obtain ⟨ts, t, hts, ht, hmakes, -, hpeel⟩ :=
    peel_compile (groups_ne_nil_of_build hkind hq) hpatterned hcompile
  refine ⟨ts, t, hts, ht, hmakes, isShaped_of_projects hkind, ?_, ?_⟩
  · rw [hpeel]
    rfl
  · rw [hpeel]
    exact retold_outline hts ht

end QueryCall

end RdfQuery
