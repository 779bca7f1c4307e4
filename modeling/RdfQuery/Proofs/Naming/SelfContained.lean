import RdfQuery.Proofs.Serql.Pieces
import RdfQuery.Proofs.Sparql.Pieces

/-!
# Texts that declare their prefixes

Both languages write an IRI with a prefix only if the same text declares the
prefix for the namespace that the name stands for, wherever the IRI is written.
-/

set_option autoImplicit false

namespace RdfQuery

/-! ## The tree of a describe query -/

namespace Tree

/-- Where one node is amended, the rest of the patterns stay. -/
theorem patterns_amendFirst? {f : Tree → Option Tree} {added : List TriplePattern}
    (hf : ∀ u u', f u = some u' → u'.patterns ⊆ u.patterns ++ added) {t t' : Tree}
    (h : t.amendFirst? f = some t') : t'.patterns ⊆ t.patterns ++ added := by
  induction t generalizing t' with
  | unit => exact hf _ _ h
  | pattern p => exact hf _ _ h
  | combine c left right ihl ihr =>
    simp only [amendFirst?] at h
    split at h
    · rename_i u hu
      cases h
      exact hf _ _ hu
    · split at h
      · rename_i left' hleft
        cases h
        have hrest := ihl hleft
        intro p hp
        rcases List.mem_append.1 hp with hp | hp
        · have hold := hrest hp
          simp only [patterns, List.mem_append] at hold ⊢
          tauto
        · simp [patterns, hp]
      · obtain ⟨right', hright, rfl⟩ := Option.map_eq_some_iff.1 h
        have hrest := ihr hright
        intro p hp
        rcases List.mem_append.1 hp with hp | hp
        · simp [patterns, hp]
        · have hold := hrest hp
          simp only [patterns, List.mem_append] at hold ⊢
          tauto
  | filter arg e ih =>
    simp only [amendFirst?] at h
    split at h
    · rename_i u hu
      cases h
      exact hf _ _ hu
    · obtain ⟨arg', harg, rfl⟩ := Option.map_eq_some_iff.1 h
      have hrest := ih harg
      exact hrest
  | modify mo arg ih =>
    simp only [amendFirst?] at h
    split at h
    · rename_i u hu
      cases h
      exact hf _ _ hu
    · obtain ⟨arg', harg, rfl⟩ := Option.map_eq_some_iff.1 h
      have hrest := ih harg
      exact hrest
  | bare s => exact hf _ _ h

theorem patterns_describe {t t' : Tree} {targets : List Term} {scope : Scope}
    (h : t.describe targets scope = .ok t') :
    t'.patterns ⊆ t.patterns ++ [Describe.statement scope] := by
  unfold describe at h
  split at h
  · cases h
  · simp only at h
    split at h
    · rename_i hamend
      cases h
      refine patterns_amendFirst? ?_ hamend
      intro u u' hu
      unfold Describe.extend? at hu
      split at hu
      · split at hu <;> cases hu
        exact List.Subset.refl _
      · split at hu <;> cases hu
        exact List.Subset.refl _
      · cases hu
    · cases h

end Tree

namespace Serql

/-- What is written for a query is a tree whose patterns lie in graphs of the query. -/
theorem render_eq_collected {s : Style} {q : Query} {text : String} (h : render s q = .ok text) :
    ∃ t, (∀ s', render s' q = renderCollected s' t) ∧
      ∀ p ∈ t.patterns, p.graph = none ∨ p ∈ q.tree.patterns := by
  obtain ⟨kind, tree, dataset⟩ := q
  unfold render at h
  split at h
  · cases h
  · rename_i hdataset
    cases kind with
    | ask => cases h
    | select =>
      refine ⟨tree, ?_, fun p hp => Or.inr hp⟩
      intro s'
      rw [render, if_neg hdataset]
    | construct =>
      refine ⟨tree, ?_, fun p hp => Or.inr hp⟩
      intro s'
      rw [render, if_neg hdataset]
    | describe targets =>
      simp only [Query.describedByConstruct] at h
      cases hdescribe : tree.describe targets .defaultGraph with
      | error e =>
        simp only [hdescribe] at h
        cases h
      | ok t =>
        refine ⟨t, ?_, ?_⟩
        · intro s'
          simp only [render, if_neg hdataset, Query.describedByConstruct, hdescribe]
        · intro p hp
          rcases List.mem_append.1 (Tree.patterns_describe hdescribe hp) with hp | hp
          · exact Or.inr hp
          · cases List.mem_singleton.1 hp
            exact Or.inl rfl

theorem render_selfContained {s : Style} {q : Query} {text : String} (h : render s q = .ok text) :
    ∃ pieces, ∀ s', SameLayout s q.tree s' →
      ∃ text', render s' q = .ok text' ∧ SelfContained s' pieces text' := by
  obtain ⟨t, hrender, hpatterns⟩ := render_eq_collected h
  rw [hrender s] at h
  obtain ⟨pieces, hpieces⟩ := renderCollected_selfContained h
  refine ⟨pieces, ?_⟩
  rintro s' ⟨hwidth, halike⟩
  rw [hrender s']
  refine hpieces s' ⟨hwidth, tellAlike_of_subset halike ?_⟩
  intro use huse g hg
  obtain ⟨p, hp, rfl⟩ := List.mem_map.1 huse
  rcases hpatterns p hp with hnone | hp
  · rw [hnone] at hg
    cases hg
  · exact List.mem_map_of_mem hp

end Serql

/-! ## Both languages -/

/-- A text is made of pieces, some of which name IRIs, and of declarations. Each prefix of a name
is declared, once and in the order of registration, for a namespace that together with the rest of
the name is the IRI. No name is hidden in the other pieces: under any other prefixes the query has
a text of the same pieces, in SeRQL as long as they give one text to the same graphs. -/
theorem compact_names_declared (s : Style) (q : Query) :
    (∀ text, Sparql.render s q = .ok text →
      ∃ pieces, Sparql.SelfContained s pieces text ∧
        ∀ s', s'.indentWidth = s.indentWidth →
          ∃ text', Sparql.render s' q = .ok text' ∧ Sparql.SelfContained s' pieces text') ∧
    ∀ text, Serql.render s q = .ok text →
      ∃ pieces, Serql.SelfContained s pieces text ∧
        ∀ s', Serql.SameLayout s q.tree s' →
          ∃ text', Serql.render s' q = .ok text' ∧ Serql.SelfContained s' pieces text' := by
  constructor
  · intro text h
    obtain ⟨pieces, hpieces⟩ := Sparql.render_selfContained h
    obtain ⟨text', h', hself⟩ := hpieces s rfl
    cases Except.ok.inj (h.symm.trans h')
    exact ⟨pieces, hself, hpieces⟩
  · intro text h
    obtain ⟨pieces, hpieces⟩ := Serql.render_selfContained h
    obtain ⟨text', h', hself⟩ := hpieces s ⟨rfl, fun _ _ _ _ => Iff.rfl⟩
    cases Except.ok.inj (h.symm.trans h')
    exact ⟨pieces, hself, hpieces⟩

/-- The last namespace lies inside the one before it. -/
def nestedNamespaces : Style where
  compactIris := true
  wellKnownPrefixes := false
  prefixes := OrderedMap.ofList
    [("xsd", "http://www.w3.org/2001/XMLSchema#"), ("ex", "http://e.org/"),
      ("deep", "http://e.org/a/")]

/-- A function and the types of literals in conditions, a sort key and a binding, and an IRI that
is a graph as well. -/
def compactedPlaces : Query :=
  let p : Iri := ⟨"http://e.org/p", by decide +kernel⟩
  let f : Iri := ⟨"http://e.org/a/f", by decide +kernel⟩
  let number (digit : String) : Constant := .literal (.ofTyped digit Iri.xsdInteger)
  let test : Expr := .call f [.not (.var (.user "x")), .const (number "1")]
  let pattern (object : Term) : Tree :=
    .pattern ⟨.var (.user "x"), .const (.iri p), object, some (.const (.iri p))⟩
  { kind := .select
    dataset := Dataset.none
    tree :=
      .modify (.select (.single [Column.same "x", ⟨"y", "z"⟩]))
        (.modify (.order [⟨test, false⟩])
          (.modify (.extend [⟨"y", .function .datatype (.const (number "2"))⟩])
            (.leftJoin (pattern (.var (.user "x"))) (pattern (.const (number "3")))
              (some test)))) }

theorem compactedPlaces_declared :
    Serql.SameLayout nestedNamespaces compactedPlaces.tree Style.default ∧
    (∃ pieces, Sparql.SelfContained nestedNamespaces pieces
      ("PREFIX xsd: <http://www.w3.org/2001/XMLSchema#>\n" ++
        "PREFIX ex: <http://e.org/>\n" ++
        "PREFIX deep: <http://e.org/a/>\n" ++
        "select ?x (datatype(\"2\"^^xsd:integer) as ?z)\n" ++
        "where \x7b\n" ++
        "  GRAPH ex:p \x7b\n" ++
        "    ?x ex:p ?x.\n" ++
        "    OPTIONAL \x7b\n" ++
        "      ?x ex:p \"3\"^^xsd:integer.\n" ++
        "      filter (deep:f(!?x, \"1\"^^xsd:integer)).\n" ++
        "    \x7d.\n" ++
        "  \x7d.\n" ++
        "\x7d\n" ++
        "order by desc(deep:f(!?x, \"1\"^^xsd:integer))")) ∧
    ∃ pieces, Serql.SelfContained nestedNamespaces pieces
      ("select x, datatype(\"2\"^^xsd:integer) as z\n" ++
        "from context ex:p\n" ++
        "  \x7bx\x7d ex:p \x7bx\x7d,\n" ++
        "  [\x7bx\x7d ex:p \x7b\"3\"^^xsd:integer\x7d where deep:f(not x, \"1\"^^xsd:integer)]\n" ++
        "order by deep:f(not x, \"1\"^^xsd:integer) desc\n" ++
        "using namespace\n" ++
        "  xsd = <http://www.w3.org/2001/XMLSchema#>,\n" ++
        "  ex = <http://e.org/>,\n" ++
        "  deep = <http://e.org/a/>") ∧
      ∃ text, Serql.render Style.default compactedPlaces = .ok text ∧
        Serql.SelfContained Style.default pieces text := by
  have hlayout : Serql.SameLayout nestedNamespaces compactedPlaces.tree Style.default := by
    decide +kernel
  obtain ⟨hsparql, hserql⟩ := compact_names_declared nestedNamespaces compactedPlaces
  refine ⟨hlayout, ?_, ?_⟩
  · refine Exists.imp (fun _ h => h.1) (hsparql _ (Outcome.toOption_eq_some.1 ?_))
    decide +kernel
  · refine Exists.imp (fun _ h => ⟨h.1, h.2 _ hlayout⟩) (hserql _ (Outcome.toOption_eq_some.1 ?_))
    decide +kernel

end RdfQuery
