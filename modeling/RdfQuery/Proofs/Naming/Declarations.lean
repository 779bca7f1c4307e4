import RdfQuery.Proofs.Naming.Pieces

/-!
# Prefix declarations

A prefixed name is a prefix of the table and what is left of the IRI behind
the namespace of that prefix. The declarations made for a list of IRIs have
the prefix of every name that a member of the list is written with.
-/

set_option autoImplicit false

namespace RdfQuery

namespace PrefixTable

theorem longest_spec {iri : String} {es : List (String × String)} {d : String × String}
    (h : longest iri es = some d) : d ∈ es ∧ covers d.2 iri = true := by
  induction es generalizing d with
  | nil => cases h
  | cons e es ih =>
    obtain ⟨name, ns⟩ := e
    simp only [longest] at h
    split at h
    · rename_i found hfound
      split at h
      · rename_i hlonger
        cases h
        exact ⟨List.mem_cons_self .., (Bool.and_eq_true_iff.1 hlonger).1⟩
      · cases h
        exact ⟨List.mem_cons_of_mem _ (ih hfound).1, (ih hfound).2⟩
    · split at h
      · rename_i hcovers
        cases h
        exact ⟨List.mem_cons_self .., hcovers⟩
      · cases h

theorem append_remainder {ns iri : String} (h : covers ns iri = true) :
    ns ++ String.ofList (remainder ns iri) = iri := by
  obtain ⟨rest, hrest⟩ := List.isPrefixOf_iff_prefix.1 h
  apply String.toList_injective
  rw [String.toList_append, String.toList_ofList, remainder, ← hrest, ← String.length_toList,
    List.drop_left]

theorem mem_of_namespaceFor {t : PrefixTable} {iri : String} {d : String × String}
    (h : t.namespaceFor iri = some d) :
    d ∈ t.entries ∧ d.2 ++ String.ofList (remainder d.2 iri) = iri := by
  unfold namespaceFor at h
  split at h
  · rename_i name ns hlongest
    split at h
    · cases h
      have hspec := longest_spec hlongest
      exact ⟨hspec.1, append_remainder hspec.2⟩
    · cases h
  · cases h

/-- A prefixed name tells its prefix and what follows the namespace in the IRI. -/
theorem compact_spec {t : PrefixTable} {iri name : String} (h : t.compact iri = some name) :
    ∃ d, t.namespaceFor iri = some d ∧
      name = d.1 ++ ":" ++ String.ofList (remainder d.2 iri) := by
  unfold compact at h
  split at h
  · rename_i p ns hnamespace
    cases h
    exact ⟨(p, ns), hnamespace, rfl⟩
  · cases h

end PrefixTable

namespace Naming

theorem declarations_sublist (s : Style) (iris : List Iri) :
    ((ofStyle s).declarations iris).Sublist s.prefixTable.entries := by
  unfold declarations ofStyle
  cases s.compactIris with
  | true => exact List.filter_sublist
  | false => exact List.nil_sublist _

/-- The prefix an IRI is compacted with is declared for every list that has the IRI. -/
theorem mem_declarations {s : Style} (hcompact : s.compactIris = true) {iris : List Iri} {i : Iri}
    (hi : i ∈ iris) {d : String × String} (h : s.prefixTable.namespaceFor i.text = some d) :
    d ∈ (ofStyle s).declarations iris := by
  unfold declarations ofStyle
  rw [if_pos hcompact]
  refine List.mem_filter.2 ⟨(PrefixTable.mem_of_namespaceFor h).1, ?_⟩
  rw [List.contains_iff_mem]
  exact List.mem_filterMap.2 ⟨i, hi, by rw [h, Option.map_some]⟩

/-- An IRI is written in full or with the prefix that its namespace has in the table. -/
theorem iri_cases (s : Style) (i : Iri) :
    (ofStyle s).iri i = NTriples.iri i ∨
      s.compactIris = true ∧ ∃ d, s.prefixTable.namespaceFor i.text = some d ∧
        (ofStyle s).iri i = d.1 ++ ":" ++ String.ofList (PrefixTable.remainder d.2 i.text) := by
  cases hcompact : s.compactIris with
  | false => exact Or.inl (by rw [ofStyle_full hcompact]; rfl)
  | true =>
    have hiri : (ofStyle s).iri i = (s.prefixTable.compact i.text).getD (NTriples.iri i) := by
      rw [ofStyle, if_pos hcompact]
      rfl
    rw [hiri]
    cases hname : s.prefixTable.compact i.text with
    | none => exact Or.inl rfl
    | some name =>
      obtain ⟨d, hd, hname⟩ := PrefixTable.compact_spec hname
      exact Or.inr ⟨rfl, d, hd, hname⟩

end Naming

/-- The declarations that the names in a text of these pieces need, if they are written in this
style. -/
structure Declares (s : Style) (declared : List (String × String)) (pieces : List Piece) :
    Prop where
  /-- An IRI is written in full, or behind the colon of its name stands what is left of the IRI
  after the namespace that is declared for the prefix. -/
  named : ∀ i, Piece.name i ∈ pieces → (Naming.ofStyle s).iri i = NTriples.iri i ∨
    ∃ d ∈ declared, ∃ rest, (Naming.ofStyle s).iri i = d.1 ++ ":" ++ rest ∧ d.2 ++ rest = i.text
  once : (declared.map Prod.fst).Nodup
  /-- The declarations stand in the order in which the prefixes were registered. -/
  in_order : declared.Sublist s.prefixTable.entries
  full : s.compactIris = false →
    declared = [] ∧ ∀ i, Piece.name i ∈ pieces → (Naming.ofStyle s).iri i = NTriples.iri i

theorem declares_declarations (s : Style) {iris : List Iri} {pieces : List Piece}
    (h : ∀ i, Piece.name i ∈ pieces → i ∈ iris) :
    Declares s ((Naming.ofStyle s).declarations iris) pieces where
  named := by
    intro i hi
    rcases Naming.iri_cases s i with hfull | ⟨hcompact, d, hd, hname⟩
    · exact Or.inl hfull
    · exact Or.inr ⟨d, Naming.mem_declarations hcompact (h i hi) hd, _, hname,
        (PrefixTable.mem_of_namespaceFor hd).2⟩
  once := ((Naming.declarations_sublist s iris).map Prod.fst).nodup s.prefixTable.distinct
  in_order := Naming.declarations_sublist s iris
  full := by
    intro hfull
    rw [Naming.ofStyle_full hfull]
    exact ⟨rfl, fun i _ => rfl⟩

end RdfQuery
