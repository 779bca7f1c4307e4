import RdfQuery.Iri.Grammar

/-!
# Absolute IRIs

An IRI is a text in which the grammar finds no fault. It is kept as it was given.
-/

set_option autoImplicit false

namespace RdfQuery

structure Iri where
  text : String
  valid : Iri.Grammar.fault? text.toList = none
  deriving DecidableEq

namespace Iri

def ofString (text : String) : Except Fault Iri :=
  match h : Grammar.fault? text.toList with
  | some fault => .error fault
  | none => .ok ⟨text, h⟩

theorem ofString_text (i : Iri) : ofString i.text = .ok i := by
  unfold ofString
  split
  · rename_i fault h
    rw [i.valid] at h
    cases h
  · rfl

def xsdString : Iri := ⟨"http://www.w3.org/2001/XMLSchema#string", by decide +kernel⟩
def xsdInteger : Iri := ⟨"http://www.w3.org/2001/XMLSchema#integer", by decide +kernel⟩
def xsdDouble : Iri := ⟨"http://www.w3.org/2001/XMLSchema#double", by decide +kernel⟩
def xsdBoolean : Iri := ⟨"http://www.w3.org/2001/XMLSchema#boolean", by decide +kernel⟩
def rdfLangString : Iri := ⟨"http://www.w3.org/1999/02/22-rdf-syntax-ns#langString", by decide +kernel⟩

end Iri

end RdfQuery
