import RdfQuery.Proofs.Naming.Collected
import RdfQuery.Proofs.Naming.Declarations
import RdfQuery.Proofs.Serql.Contexts

/-!
# Pieces of SeRQL documents

In styles that indent alike and tell the graphs of a tree apart alike, the text
of a document has the same pieces apart from its declarations. The IRIs it
names are among those of the tree, for which the declarations are made.
-/

set_option autoImplicit false

namespace RdfQuery.Serql

section

variable {styles : Style → Prop} {among : List Iri}

/-! ## Clauses -/

theorem written_conjunction {es : List Expr} (h : ∀ e ∈ es, e.iris ⊆ among) :
    Written styles among fun s => conjunction (Naming.ofStyle s) es := by
  have hseparated : Written styles among fun s =>
      Text.separated " and " (es.map (nested (Naming.ofStyle s))) :=
    .separated " and " fun e he => .nested (h e he)
  cases es with
  | nil => exact hseparated
  | cons e es =>
    cases es with
    | nil => exact .expr (h e (List.mem_singleton_self e))
    | cons d es => exact hseparated

/-- Conditions behind a word, if there are any. -/
theorem written_conditions (word : String) {es : List Expr} (h : ∀ e ∈ es, e.iris ⊆ among) :
    Written styles among fun s =>
      if es.isEmpty then "" else word ++ conjunction (Naming.ofStyle s) es := by
  cases es with
  | nil => exact .plain ""
  | cons e es => exact (Written.plain word).append (written_conjunction h)

theorem itemTexts_eq_map (n : Naming) (items : List Item) :
    itemTexts n items = items.map (Item.text n) := by
  induction items with
  | nil => rfl
  | cons i is ih => rw [itemTexts, ih, List.map_cons]

theorem written_path {p : TriplePattern} (h : ∀ u ∈ p.terms, u.iris ⊆ among) :
    Written styles among fun s => (pathOf p).text (Naming.ofStyle s) := by
  have hs := h p.subject (by simp [TriplePattern.terms])
  have hp := h p.predicate (by simp [TriplePattern.terms])
  have ho := h p.object (by simp [TriplePattern.terms])
  simp only [pathOf, Item.text]
  exact ((((((Written.plain "\x7b").append (.term hs)).append (.plain "\x7d ")).append
    (.term hp)).append (.plain " \x7b")).append (.term ho)).append (.plain "\x7d")

theorem written_optional {items : List Item} {conditions : List Expr}
    (hitems : ∀ i ∈ items, Written styles among fun s => i.text (Naming.ofStyle s))
    (hconditions : ∀ e ∈ conditions, e.iris ⊆ among) :
    Written styles among fun s => (Item.optional items conditions).text (Naming.ofStyle s) := by
  simp only [Item.text, itemTexts_eq_map]
  exact (((Written.plain "[").append (.separated ", " hitems)).append
    (written_conditions " where " hconditions)).append (.plain "]")

/-- Every item that is filed for a tree names IRIs of the tree. -/
theorem written_filed {t : Tree} {m : GraphMap} {outer : Option Term} (ht : t.iris ⊆ among) :
    ∀ i ∈ (filed t m outer).map Prod.snd,
      Written styles among fun s => i.text (Naming.ofStyle s) := by
  induction t generalizing m outer with
  | unit => exact List.forall_mem_nil _
  | pattern p =>
    intro i hi
    cases List.mem_singleton.1 hi
    have hp : p ∈ (Tree.pattern p).patterns := List.mem_singleton_self p
    exact written_path fun u hu => List.Subset.trans (Tree.iris_of_mem_patterns hp hu) ht
  | combine op left right ihl ihr =>
    have hleft : ∀ i ∈ (filed left m.left (m.graph?.or outer)).map Prod.snd,
        Written styles among fun s => i.text (Naming.ofStyle s) :=
      ihl (List.Subset.trans (Tree.iris_left op left right) ht)
    have hright : ∀ i ∈ (filed right m.right (m.graph?.or outer)).map Prod.snd,
        Written styles among fun s => i.text (Naming.ofStyle s) :=
      ihr (List.Subset.trans (Tree.iris_right op left right) ht)
    have hboth : ∀ i ∈ (filed left m.left (m.graph?.or outer) ++
        filed right m.right (m.graph?.or outer)).map Prod.snd,
        Written styles among fun s => i.text (Naming.ofStyle s) := by
      rw [List.map_append, List.forall_mem_append]
      exact ⟨hleft, hright⟩
    cases op with
    | leftJoin condition =>
      have hconditions : ∀ e ∈ right.ownConditions ++ condition.toList, e.iris ⊆ among := by
        intro e he
        refine List.Subset.trans (Tree.iris_of_mem_conditions ?_) ht
        rcases List.mem_append.1 he with he | he
        · exact List.mem_append_left _ (List.mem_append_right _ (Tree.mem_conditions_of_own he))
        · exact List.mem_append_right _ he
      rw [filed, List.map_append, List.forall_mem_append]
      exact ⟨hleft, List.forall_mem_singleton.2 (written_optional hright hconditions)⟩
    | join => exact hboth
    | union => exact hboth
    | difference => exact hboth
    | intersection => exact hboth
  | filter arg e ih => exact ih (List.Subset.trans (Tree.iris_arg arg e) ht)
  | modify mo arg ih => exact ih (List.Subset.trans (Tree.iris_modified mo arg) ht)
  | bare s => exact List.forall_mem_nil _

theorem written_from {graph : Option Term} (h : ∀ g ∈ graph, g.iris ⊆ among) :
    Written styles among fun s => fromText (contextOf (Naming.ofStyle s) graph) := by
  cases graph with
  | none => exact .plain _
  | some g =>
    exact ((Written.plain "\nfrom context ").append (.term (h g rfl))).append (.plain "\n")

variable {width : Nat} (hwidth : ∀ s, styles s → s.indentWidth = width)

include hwidth

theorem written_clause {graph : Option Term} {items : List Item}
    (hgraph : ∀ g ∈ graph, g.iris ⊆ among)
    (hitems : ∀ i ∈ items, Written styles among fun s => i.text (Naming.ofStyle s)) :
    Written styles among fun s =>
      clauseText (s.indent 1) (Naming.ofStyle s) (contextOf (Naming.ofStyle s) graph, items) := by
  simp only [clauseText, itemTexts_eq_map, List.map_map]
  exact (written_from hgraph).append
    (.separated ",\n" fun i hi => (Written.indent hwidth 1).append (hitems i hi))

/-! ## Bodies -/

variable {n : Naming} {m : GraphMap} {outer : Option Term}

theorem written_clauses {t : Tree} (ht : t.iris ⊆ among)
    (hgraphs : ∀ use ∈ t.uses m outer, ∀ g ∈ use, g.iris ⊆ among)
    (halike : ∀ s, styles s →
      TellAlike (t.uses m outer) (contextOf n) (contextOf (Naming.ofStyle s))) :
    Written styles among fun s =>
      (Clauses.mk (OrderedMap.gather (parts (Naming.ofStyle s) t m outer)) t.ownConditions).text
        (s.indent 1) (Naming.ofStyle s) := by
  -- one grouping of the items serves every style of the class
  obtain ⟨groups, hgroups, hgather⟩ :=
    OrderedMap.exists_gather_map (contextOf n) (filed t m outer)
  have hclauses : Written styles among fun s =>
      Text.concatenated (groups.map fun group =>
        clauseText (s.indent 1) (Naming.ofStyle s)
          (contextOf (Naming.ofStyle s) group.1, group.2)) := by
    refine .concatenated fun group hgroup => written_clause hwidth ?_ ?_
    · exact hgraphs _ (filed_uses t m outer (hgroups group hgroup).1)
    · exact fun i hi => written_filed ht i ((hgroups group hgroup).2 hi)
  have hconditions : ∀ e ∈ t.ownConditions, e.iris ⊆ among := fun e he =>
    List.Subset.trans (Tree.iris_of_mem_conditions (Tree.mem_conditions_of_own he)) ht
  refine Written.congr ?_ (hclauses.append (written_conditions "\nwhere " hconditions))
  intro s hs
  have hentries := hgather _ ((halike s hs).mono (filed_uses t m outer))
  rw [Clauses.text, parts_eq_map, hentries, List.map_map]
  rfl

/-- Set operations combine sub-queries under one head. -/
theorem written_laidOut {head : Style → String} (hhead : Written styles among head) {t : Tree}
    (ht : t.iris ⊆ among) (hgraphs : ∀ use ∈ t.uses m outer, ∀ g ∈ use, g.iris ⊆ among)
    (halike : ∀ s, styles s →
      TellAlike (t.uses m outer) (contextOf n) (contextOf (Naming.ofStyle s))) :
    Written styles among fun s =>
      bodyText (s.indent 1) (Naming.ofStyle s) (head s)
        (laidOut (Naming.ofStyle s) t m outer) := by
  induction t generalizing m outer with
  | combine c left right ihl ihr =>
    have hbase := hhead.append (written_clauses hwidth ht hgraphs halike)
    have hboth (hsplit : (Tree.combine c left right).uses m outer =
        left.uses m.left (m.graph?.or outer) ++ right.uses m.right (m.graph?.or outer))
        (op : SetOperation) :
        Written styles among fun s => bodyText (s.indent 1) (Naming.ofStyle s) (head s)
          (.operation op (laidOut (Naming.ofStyle s) left m.left (m.graph?.or outer))
            (laidOut (Naming.ofStyle s) right m.right (m.graph?.or outer))) := by
      rw [hsplit] at hgraphs
      simp only [hsplit] at halike
      have hgraphs := List.forall_mem_append.1 hgraphs
      have hl := ihl (List.Subset.trans (Tree.iris_left c left right) ht) hgraphs.1
        fun s hs => (halike s hs).mono (List.subset_append_left _ _)
      have hr := ihr (List.Subset.trans (Tree.iris_right c left right) ht) hgraphs.2
        fun s hs => (halike s hs).mono (List.subset_append_right _ _)
      exact ((((((Written.plain "(").append hl).append (.plain ")\n")).append
        (.plain op.word)).append (.plain "\n(")).append hr).append (.plain ")")
    cases c with
    | union => exact hboth rfl .union
    | difference => exact hboth rfl .minus
    | intersection => exact hboth rfl .intersect
    | join => exact hbase
    | leftJoin condition => exact hbase
  | unit => exact hhead.append (written_clauses hwidth ht hgraphs halike)
  | pattern p => exact hhead.append (written_clauses hwidth ht hgraphs halike)
  | filter arg e ih => exact hhead.append (written_clauses hwidth ht hgraphs halike)
  | modify mo arg ih => exact hhead.append (written_clauses hwidth ht hgraphs halike)
  | bare s => exact hhead.append (written_clauses hwidth ht hgraphs halike)

omit hwidth

/-! ## The head and the foot -/

theorem written_listed {α : Type} {xs : List α} {text : Style → α → String}
    (h : ∀ x ∈ xs, Written styles among fun s => text s x) :
    Written styles among fun s => listed (xs.map (text s)) := by
  cases xs with
  | nil => exact .plain " *"
  | cons x xs => exact (Written.plain " ").append (.separated ", " h)

theorem written_item {item : SelectItem} (h : ∀ e ∈ item.exprs, e.iris ⊆ among) :
    Written styles among fun s => itemText (Naming.ofStyle s) item := by
  cases item with
  | plain name => exact .plain _
  | renamed source target => exact .plain _
  | computed source e target =>
    have he := h e (List.mem_singleton_self e)
    exact ((Written.expr he).append (.plain " as ")).append (.plain target)

theorem written_templateTerm {u : TemplateTerm} (h : ∀ c ∈ u.constants, c.iris ⊆ among) :
    Written styles among fun s => templateTermText (Naming.ofStyle s) u := by
  cases u with
  | name source => exact .plain _
  | constant source c => exact .constant (h c (List.mem_singleton_self c))

theorem written_template {t : Template} (h : ∀ u ∈ t.terms, ∀ c ∈ u.constants, c.iris ⊆ among) :
    Written styles among fun s => templateText (Naming.ofStyle s) t := by
  have hterm {u : TemplateTerm} (hu : u ∈ t.terms) :
      Written styles among fun s => templateTermText (Naming.ofStyle s) u :=
    written_templateTerm (h u hu)
  have hs := hterm (show t.subject ∈ t.terms by simp [Template.terms])
  have hp := hterm (show t.predicate ∈ t.terms by simp [Template.terms])
  have ho := hterm (show t.object ∈ t.terms by simp [Template.terms])
  exact ((((((Written.plain "\x7b").append hs).append (.plain "\x7d ")).append hp).append
    (.plain " \x7b")).append ho).append (.plain "\x7d")

theorem written_head {o : Outline} {hd : Head} (ho : o.Within among) (h : head o = .ok hd) :
    Written styles among fun s => headText (Naming.ofStyle s) hd := by
  unfold head at h
  split at h
  · cases h
  · split at h
    · obtain ⟨items, hitems, h⟩ := Outcome.bind_eq_ok.1 h
      cases h
      have hitem : ∀ item ∈ items,
          Written styles among fun s => itemText (Naming.ofStyle s) item :=
        fun item hitem => written_item (ho.items hitems item hitem)
      exact ((Written.plain "select").append (.plain o.repeats.text)).append (written_listed hitem)
    · split at h
      · cases h
        have htemplate : ∀ t ∈ o.templates,
            Written styles among fun s => templateText (Naming.ofStyle s) t :=
          fun t ht => written_template (ho.templates t ht)
        exact (((Written.plain "construct").append (.plain o.repeats.text)).append
          (.plain " ")).append (.separated ", " htemplate)
      · cases h

theorem written_sortKey {k : SortKey} (h : k.expr.iris ⊆ among) :
    Written styles among fun s => sortKeyText (Naming.ofStyle s) k :=
  (Written.nested h).append (.plain _)

end

/-! ## Whole documents -/

/-- What stands before the declarations. -/
def Document.mainText (s : Style) (d : Document) : String :=
  (match d.body with
    | some b => bodyText (s.indent 1) (Naming.ofStyle s) (headText (Naming.ofStyle s) d.head) b
    | none => headText (Naming.ofStyle s) d.head) ++
    d.footer.orderText ", " (sortKeyText (Naming.ofStyle s)) ++ d.footer.boundsText

/-- The styles that indent like this one and tell the graphs of the tree apart like it. -/
def SameLayout (s : Style) (t : Tree) (s' : Style) : Prop :=
  s'.indentWidth = s.indentWidth ∧
    TellAlike (t.patterns.map TriplePattern.graph) (contextOf (Naming.ofStyle s))
      (contextOf (Naming.ofStyle s'))

instance (s : Style) (t : Tree) (s' : Style) : Decidable (SameLayout s t s') :=
  inferInstanceAs (Decidable (_ ∧ _))

theorem written_mainText {s : Style} {t : Tree} {d : Document}
    (h : document (Naming.ofStyle s) t (GraphMap.collect t) = .ok d) :
    Written (SameLayout s t) t.iris fun s' => Document.mainText s'
      { d with body := laidOutBody (Naming.ofStyle s') (Outline.peel t) (GraphMap.collect t) } := by
  obtain ⟨hd, hhead, h⟩ := Outcome.bind_eq_ok.1 h
  obtain ⟨b, -, h⟩ := Outcome.bind_eq_ok.1 h
  cases h
  have houtline := Outline.within_peel t
  have hwritten : Written (SameLayout s t) t.iris fun s' => headText (Naming.ofStyle s') hd :=
    written_head houtline hhead
  have hkey : ∀ k ∈ (Outline.peel t).footer.order,
      Written (SameLayout s t) t.iris fun s' => sortKeyText (Naming.ofStyle s') k :=
    fun k hk => written_sortKey (houtline.order k hk)
  simp only [Document.mainText, laidOutBody]
  refine Written.append (Written.append ?_ (.orderText ", " hkey)) (.plain _)
  cases hbody : (Outline.peel t).body with
  | none => exact hwritten
  | some u =>
    have halike := fun s' (hs' : SameLayout s t s') =>
      tellAlike_uses hs'.2 u (Outline.peel t).depth
    exact written_laidOut (fun s' hs' => hs'.1) hwritten (houtline.body u hbody)
      (fun use huse g hg => GraphMap.iris_of_mem_collect (graph_of_mem_uses huse hg).1) halike

/-- The text of a document that is made of these pieces and declares the prefixes they need. -/
def SelfContained (s : Style) (pieces : List Piece) (text : String) : Prop :=
  ∃ declared, text = piecesText (Naming.ofStyle s) pieces ++
    declarationsText (s.indent 1) declared ∧ Declares s declared pieces

theorem renderCollected_selfContained {s : Style} {t : Tree} {text : String}
    (h : renderCollected s t = .ok text) :
    ∃ pieces, ∀ s', SameLayout s t s' →
      ∃ text', renderCollected s' t = .ok text' ∧ SelfContained s' pieces text' := by
  obtain ⟨d, hd, -⟩ := Outcome.bind_eq_ok.1 h
  obtain ⟨pieces, hpieces, htext⟩ := written_mainText hd
  refine ⟨pieces, ?_⟩
  intro s' hs'
  have hdocument := document_of_tellAlike hd hs'.2
  refine ⟨_, Outcome.bind_eq_ok.2 ⟨_, hdocument, rfl⟩, _, ?_, declares_declarations s' hpieces⟩
  rw [← htext s' hs']
  rfl

end RdfQuery.Serql
