import RdfQuery.Proofs.Naming.Collected
import RdfQuery.Proofs.Naming.Declarations
import RdfQuery.Proofs.Sparql.Block

/-!
# Pieces of SPARQL documents

A document is laid out without regard to the prefixes of the style: apart from
the declarations its text has the same pieces in every style that indents
alike. The IRIs it names are among those that the declarations are made for.
-/

set_option autoImplicit false

namespace RdfQuery.Sparql

/-- The IRIs that declarations are made for. -/
def collected (q : Query) : List Iri := q.tree.iris ++ q.dataset.graphs ++ targetIris q.kind

section

variable {width : Nat} {among : List Iri}

/-- The styles that indent alike. -/
def OfWidth (width : Nat) (s : Style) : Prop := s.indentWidth = width

theorem written_line {text : Style → String} (depth : Nat)
    (h : Written (OfWidth width) among text) :
    Written (OfWidth width) among fun s => (Pen.ofStyle s).line depth (text s) :=
  ((Written.indent (fun _ hs => hs) depth).append h).append (.plain "\n")

/-! ## The where-block -/

theorem written_triple {subject predicate object : Term} (hs : subject.iris ⊆ among)
    (hp : predicate.iris ⊆ among) (ho : object.iris ⊆ among) :
    Written (OfWidth width) among fun s => (Pen.ofStyle s).triple subject predicate object :=
  (((((Written.term hs).append (.plain " ")).append (.term hp)).append (.plain " ")).append
    (.term ho)).append (.plain ".")

theorem written_filter {condition : Expr} (h : condition.iris ⊆ among) :
    Written (OfWidth width) among fun s => (Pen.ofStyle s).filter condition :=
  ((Written.plain "filter (").append (.expr h)).append (.plain ").")

theorem written_graph {name : Term} (h : name.iris ⊆ among) :
    Written (OfWidth width) among fun s => (Line.graph name).text (Pen.ofStyle s) :=
  ((Written.plain "GRAPH ").append (.term h)).append (.plain " \x7b")

theorem written_blocks {t : Tree} {m : GraphMap} (ht : t.iris ⊆ among)
    (hm : ∀ g ∈ m.graphs, g.iris ⊆ among) (depth : Nat) :
    Written (OfWidth width) among fun s => bodyText (Pen.ofStyle s) depth (blocks t m) := by
  have hlines : EachLine (fun l => Written (OfWidth width) among fun s => l.text (Pen.ofStyle s))
      (blocks t m) := by
    refine blocks_eachLine (fun sign => .plain sign.text) ?_ ?_ ?_
    · exact fun g hg => written_graph (hm g hg)
    · intro p hp
      have hterm {u : Term} (hu : u ∈ p.terms) : u.iris ⊆ among :=
        List.Subset.trans (Tree.iris_of_mem_patterns hp hu) ht
      exact written_triple (hterm (by simp [TriplePattern.terms]))
        (hterm (by simp [TriplePattern.terms])) (hterm (by simp [TriplePattern.terms]))
    · intro e he
      exact written_filter fun i hi => ht (Tree.iris_of_mem_conditions he hi)
  refine Written.congr (fun s _ => (linesText_bodyLines (Pen.ofStyle s) depth (blocks t m)).symm) ?_
  exact Written.concatenated fun l hl => written_line l.1 (hlines depth l hl)

theorem written_bodyElements {o : Outline} {m : GraphMap} {es : List Element}
    (ho : o.Within among) (hm : ∀ g ∈ m.graphs, g.iris ⊆ among)
    (h : bodyElements o m = .ok es) :
    Written (OfWidth width) among fun s => bodyText (Pen.ofStyle s) 1 es := by
  unfold bodyElements at h
  split at h
  · rename_i body hbody
    rw [elements_eq_blocks h]
    have hdescend := fun g hg => hm g (m.graphs_descend o.depth hg)
    exact written_blocks (ho.body body hbody) hdescend 1
  · cases h
    exact .plain ""

theorem written_bind {b : String × Expr} (h : b.2.iris ⊆ among) :
    Written (OfWidth width) among fun s => bindText (Pen.ofStyle s) b :=
  written_line 1 (((((Written.plain "bind (").append (.expr h)).append (.plain " as ")).append
    (.plain (variableText b.1))).append (.plain ")."))

theorem written_block {kind : QueryKind} {o : Outline} {f : Form} {m : GraphMap}
    {b : Option Block} (ho : o.Within among) (hm : ∀ g ∈ m.graphs, g.iris ⊆ among)
    (h : block kind o f m = .ok b) :
    Written (OfWidth width) among fun s => blockText (Pen.ofStyle s) b := by
  unfold block at h
  split at h
  · cases h
    exact .plain ""
  · obtain ⟨es, hes, h⟩ := Outcome.bind_eq_ok.1 h
    cases h
    have hbind : ∀ b ∈ o.bindings.entries.filter fun b => !f.bindingNames.contains b.1,
        Written (OfWidth width) among fun s => bindText (Pen.ofStyle s) b :=
      fun b hb => written_bind (ho.bindings b (List.mem_of_mem_filter hb))
    exact (((Written.plain "\nwhere \x7b\n").append (written_bodyElements ho hm hes)).append
      (.concatenated hbind)).append (.plain "\x7d")

/-! ## The head and the foot -/

theorem written_listed {α : Type} {xs : List α} {text : Style → α → String}
    (h : ∀ x ∈ xs, Written (OfWidth width) among fun s => text s x) :
    Written (OfWidth width) among fun s => listed (xs.map (text s)) := by
  cases xs with
  | nil => exact .plain " *"
  | cons x xs =>
    refine Written.congr ?_ (Written.concatenated fun y hy => (Written.plain " ").append (h y hy))
    intro s _
    show Text.concatenated (((x :: xs).map (text s)).map fun piece => " " ++ piece) = _
    rw [List.map_map]
    rfl

theorem written_item {item : SelectItem} (h : ∀ e ∈ item.exprs, e.iris ⊆ among) :
    Written (OfWidth width) among fun s => itemText (Naming.ofStyle s) item := by
  cases item with
  | plain name => exact .plain _
  | renamed source target => exact .plain _
  | computed source e target =>
    have he := h e (List.mem_singleton_self e)
    exact ((((Written.plain "(").append (.expr he)).append (.plain " as ")).append
      (.plain (variableText target))).append (.plain ")")

theorem written_templateTerm {u : TemplateTerm} (h : ∀ c ∈ u.constants, c.iris ⊆ among) :
    Written (OfWidth width) among fun s => templateTermText (Naming.ofStyle s) u := by
  cases u with
  | name source => exact .plain _
  | constant source c => exact .constant (h c (List.mem_singleton_self c))

theorem written_template {t : Template} (h : ∀ u ∈ t.terms, ∀ c ∈ u.constants, c.iris ⊆ among) :
    Written (OfWidth width) among fun s => templateText (Pen.ofStyle s) t := by
  have hterm {u : TemplateTerm} (hu : u ∈ t.terms) :
      Written (OfWidth width) among fun s => templateTermText (Naming.ofStyle s) u :=
    written_templateTerm (h u hu)
  have hs := hterm (show t.subject ∈ t.terms by simp [Template.terms])
  have hp := hterm (show t.predicate ∈ t.terms by simp [Template.terms])
  have ho := hterm (show t.object ∈ t.terms by simp [Template.terms])
  have htriple := (((hs.append (.plain " ")).append hp).append (.plain " ")).append ho
  exact written_line 1 (htriple.append (.plain "."))

theorem written_shapeForm {o : Outline} {f : Form} (ho : o.Within among)
    (h : shapeForm o = .ok f) :
    Written (OfWidth width) among fun s => formText (Pen.ofStyle s) f := by
  unfold shapeForm at h
  split at h
  · obtain ⟨items, hitems, h⟩ := Outcome.bind_eq_ok.1 h
    cases h
    have hitem : ∀ item ∈ items,
        Written (OfWidth width) among fun s => itemText (Naming.ofStyle s) item :=
      fun item hitem => written_item (ho.items hitems item hitem)
    exact ((Written.plain "select").append (.plain o.repeats.text)).append (written_listed hitem)
  · unfold constructForm at h
    split at h
    · cases h
      have htemplate : ∀ t ∈ o.templates,
          Written (OfWidth width) among fun s => templateText (Pen.ofStyle s) t :=
        fun t ht => written_template (ho.templates t ht)
      exact ((Written.plain "construct \x7b\n").append (.concatenated htemplate)).append
        (.plain "\x7d")
    · cases h

theorem written_form {kind : QueryKind} {o : Outline} {f : Form} (ho : o.Within among)
    (hkind : targetIris kind ⊆ among) (h : form o kind = .ok f) :
    Written (OfWidth width) among fun s => formText (Pen.ofStyle s) f := by
  cases kind with
  | select => exact written_shapeForm ho h
  | construct => exact written_shapeForm ho h
  | ask =>
    cases h
    exact .plain "ask"
  | describe targets =>
    cases h
    have htargets : ∀ target ∈ targets, target.iris ⊆ among :=
      fun target ht i hi => hkind (List.mem_flatMap.2 ⟨target, ht, hi⟩)
    exact (Written.plain "describe").append
      (written_listed fun target ht => .term (htargets target ht))

theorem written_dataset {d : Dataset} (h : d.graphs ⊆ among) :
    Written (OfWidth width) among fun s => datasetText (Naming.ofStyle s) d := by
  have hdefault : ∀ g ∈ d.defaultGraphs, g ∈ among := fun g hg => h (List.mem_append_left _ hg)
  have hnamed : ∀ g ∈ d.namedGraphs, g ∈ among := fun g hg => h (List.mem_append_right _ hg)
  refine Written.append (.concatenated ?_) (.concatenated ?_)
  · exact fun g hg => (Written.plain "\nfrom ").append (.name (hdefault g hg))
  · exact fun g hg => (Written.plain "\nfrom named ").append (.name (hnamed g hg))

theorem written_sortKey {k : SortKey} (h : k.expr.iris ⊆ among) :
    Written (OfWidth width) among fun s => sortKeyText (Naming.ofStyle s) k := by
  obtain ⟨e, ascending⟩ := k
  cases ascending with
  | true => exact .nested h
  | false => exact ((Written.plain "desc(").append (.expr h)).append (.plain ")")

end

/-! ## Whole documents -/

/-- What follows the declarations. -/
def Document.mainText (p : Pen) (d : Document) : String :=
  formText p d.form ++ datasetText p.naming d.dataset ++ blockText p d.block ++
    d.footer.orderText " " (sortKeyText p.naming) ++ d.footer.boundsText

theorem Document.text_eq (p : Pen) (d : Document) :
    d.text p = Text.concatenated (d.declarations.map declarationText) ++ d.mainText p := by
  simp only [text, mainText, String.append_assoc]

/-- The naming decides on the declarations of a document and on nothing else. -/
theorem document_eq_ok {n : Naming} {q : Query} {m : GraphMap} {d : Document}
    (h : document n q m = .ok d) (n' : Naming) :
    document n' q m = .ok { d with declarations := n'.declarations (collected q) } := by
  obtain ⟨f, hform, h⟩ := Outcome.bind_eq_ok.1 h
  obtain ⟨b, hblock, h⟩ := Outcome.bind_eq_ok.1 h
  cases h
  exact Outcome.bind_eq_ok.2 ⟨f, hform, Outcome.bind_eq_ok.2 ⟨b, hblock, rfl⟩⟩

theorem written_mainText {n : Naming} {q : Query} {d : Document} (width : Nat)
    (h : document n q (GraphMap.collect q.tree) = .ok d) :
    Written (OfWidth width) (collected q) fun s => d.mainText (Pen.ofStyle s) := by
  have htree : q.tree.iris ⊆ collected q :=
    fun i hi => List.mem_append_left _ (List.mem_append_left _ hi)
  have hdataset : q.dataset.graphs ⊆ collected q :=
    fun i hi => List.mem_append_left _ (List.mem_append_right _ hi)
  have hkind : targetIris q.kind ⊆ collected q := fun i hi => List.mem_append_right _ hi
  have houtline : (Outline.peel q.tree).Within (collected q) :=
    Outline.within_peelFrom [] htree
  have hgraphs : ∀ g ∈ (GraphMap.collect q.tree).graphs, g.iris ⊆ collected q :=
    fun g hg => List.Subset.trans (GraphMap.iris_of_mem_collect hg) htree
  obtain ⟨f, hform, h⟩ := Outcome.bind_eq_ok.1 h
  obtain ⟨b, hblock, h⟩ := Outcome.bind_eq_ok.1 h
  cases h
  have hkey : ∀ k ∈ (Outline.peel q.tree).footer.order,
      Written (OfWidth width) (collected q) fun s => sortKeyText (Naming.ofStyle s) k :=
    fun k hk => written_sortKey (houtline.order k hk)
  exact (((((written_form houtline hkind hform).append (written_dataset hdataset)).append
    (written_block houtline hgraphs hblock)).append (.orderText " " hkey)).append (.plain _))

/-- The text of a document that is made of these pieces and declares the prefixes they need. -/
def SelfContained (s : Style) (pieces : List Piece) (text : String) : Prop :=
  ∃ declared, text = Text.concatenated (declared.map declarationText) ++
    piecesText (Naming.ofStyle s) pieces ∧ Declares s declared pieces

/-- A query that has a text in one style has texts of the same pieces in all styles that indent
alike. -/
theorem render_selfContained {s : Style} {q : Query} {text : String} (h : render s q = .ok text) :
    ∃ pieces, ∀ s', s'.indentWidth = s.indentWidth →
      ∃ text', render s' q = .ok text' ∧ SelfContained s' pieces text' := by
  obtain ⟨d, hd, -⟩ := Outcome.bind_eq_ok.1 h
  obtain ⟨pieces, hpieces, htext⟩ := written_mainText s.indentWidth hd
  refine ⟨pieces, ?_⟩
  intro s' hs'
  have hdocument := document_eq_ok hd (Naming.ofStyle s')
  refine ⟨_, Outcome.bind_eq_ok.2 ⟨_, hdocument, rfl⟩, _, ?_, declares_declarations s' hpieces⟩
  rw [Document.text_eq, ← htext s' hs']
  rfl

end RdfQuery.Sparql
