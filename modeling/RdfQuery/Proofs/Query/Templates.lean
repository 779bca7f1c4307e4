import Mathlib.Data.List.Forall2
import Mathlib.Data.List.Nodup
import RdfQuery.Header
import RdfQuery.Proofs.Gathering
import RdfQuery.Query.Calls

/-!
# Statement templates and their constants

A projection has names only, so the constants of templates are bound to numbered
names, counted through all templates. The numbered names are distinct, so each
one leads back to its constant; a variable that is not named like them stands
for itself.
-/

set_option autoImplicit false

namespace RdfQuery

/-! ## Columns that are a template -/

theorem Position.named?_name (p : Position) : Position.named? p.name = some p := by
  cases p <;> decide

theorem Columns.isTemplate_template (subject predicate object : String) :
    (template subject predicate object).isTemplate = true := by
  simp [template, isTemplate, Column.position?, Position.named?_name]

/-- Columns that are called subject, predicate and object, in this order. -/
def Columns.Positioned (columns : Columns) : Prop :=
  columns.map Column.target = ["subject", "predicate", "object"]

theorem Columns.Positioned.eq_template {columns : Columns} (h : columns.Positioned) :
    ∃ subject predicate object, columns = template subject predicate object := by
  match columns, h with
  | [⟨subject, _⟩, ⟨predicate, _⟩, ⟨object, _⟩], h =>
    cases h
    exact ⟨subject, predicate, object, rfl⟩

theorem Columns.Positioned.isTemplate {columns : Columns} (h : columns.Positioned) :
    columns.isTemplate = true := by
  obtain ⟨subject, predicate, object, rfl⟩ := h.eq_template
  exact isTemplate_template subject predicate object

def Binding.entry (b : Binding) : String × Expr := (b.name, b.expr)

namespace Statement

def terms (s : Statement) : List Term := [s.subject, s.predicate, s.object]

/-- The constants of templates in the order in which they stand there. -/
def constants (statements : List Statement) : List Constant :=
  (statements.flatMap terms).filterMap Term.constant?

/-! ## Numbered names -/

theorem constantName_injective : Function.Injective constantName := by
  intro a b h
  have htext : toString a = toString b := (String.append_right_inj _).1 h
  rw [Nat.toString_eq_ofList_toDigits, Nat.toString_eq_ofList_toDigits] at htext
  have hdigits : Nat.toDigits 10 a = Nat.toDigits 10 b := String.ofList_injective htext
  rw [← Nat.ofDigitChars_ten_toDigits (n := a), hdigits, Nat.ofDigitChars_ten_toDigits]

/-- Names that constants are bound to begin like this, whatever their number. -/
def isReserved (name : String) : Bool := "_const_".toList.isPrefixOf name.toList

theorem isReserved_constantName (number : Nat) : isReserved (constantName number) = true := by
  rw [isReserved, constantName, String.toList_append]
  exact List.isPrefixOf_iff_prefix.2 (List.prefix_append _ _)

/-- Each constant with its name, the first number coming after `bound`. -/
def numbered (bound : Nat) (cs : List Constant) : List (String × Expr) :=
  (cs.zipIdx bound).map fun c => (constantName (c.2 + 1), .const c.1)

theorem numbered_append (bound : Nat) (cs ds : List Constant) :
    numbered bound (cs ++ ds) = numbered bound cs ++ numbered (bound + cs.length) ds := by
  rw [numbered, List.zipIdx_append, List.map_append, numbered, numbered]

theorem keys_numbered_nodup (bound : Nat) (cs : List Constant) :
    ((numbered bound cs).map Prod.fst).Nodup := by
  have hkeys : (numbered bound cs).map Prod.fst =
      (List.range' bound cs.length).map fun i => constantName (i + 1) := by
    rw [numbered, List.map_map, ← List.zipIdx_map_snd, List.map_map]
    rfl
  rw [hkeys]
  exact (List.nodup_range' 1).map fun a b h => Nat.succ.inj (constantName_injective h)

theorem exists_number {bound : Nat} {cs : List Constant} {name : String}
    (h : name ∈ (numbered bound cs).map Prod.fst) : ∃ number, name = constantName number := by
  obtain ⟨e, he, rfl⟩ := List.mem_map.1 h
  obtain ⟨c, -, rfl⟩ := List.mem_map.1 he
  exact ⟨c.2 + 1, rfl⟩

/-! ## Encoded templates -/

/-- What a projection of the terms refers to: a variable by its own name, a constant by the name
of its number. -/
def references (bound : Nat) : List Term → List String
  | [] => []
  | .var v :: ts => v.name :: references bound ts
  | .const _ :: ts => constantName (bound + 1) :: references (bound + 1) ts

theorem entries_encoded (bound : Nat) (s : Statement) :
    (encoded bound s).bindings.map Binding.entry =
      numbered bound (s.terms.filterMap Term.constant?) := by
  obtain ⟨subject, predicate, object⟩ := s
  cases subject <;> cases predicate <;> cases object <;> rfl

theorem sources_encoded (bound : Nat) (s : Statement) :
    (encoded bound s).columns.sources = references bound s.terms := by
  obtain ⟨subject, predicate, object⟩ := s
  cases subject <;> cases predicate <;> cases object <;> rfl

theorem references_append (bound : Nat) (ts us : List Term) :
    references bound (ts ++ us) =
      references bound ts ++ references (bound + (ts.filterMap Term.constant?).length) us := by
  induction ts generalizing bound with
  | nil => rfl
  | cons t ts ih =>
    cases t with
    | var v => exact congrArg _ (ih bound)
    | const c =>
      have hlength : bound + 1 + (ts.filterMap Term.constant?).length =
          bound + ((Term.const c :: ts).filterMap Term.constant?).length := by
        simp [Term.constant?]
        omega
      rw [List.cons_append, references, ih, hlength]
      rfl

/-- As many numbers are used up as there are constants. -/
theorem length_bindings_encoded (bound : Nat) (s : Statement) :
    (encoded bound s).bindings.length = (s.terms.filterMap Term.constant?).length := by
  have h := congrArg List.length (entries_encoded bound s)
  simpa [numbered] using h

theorem entries_encodedAll (bound : Nat) (statements : List Statement) :
    ((encodedAll bound statements).flatMap Encoded.bindings).map Binding.entry =
      numbered bound (constants statements) := by
  induction statements generalizing bound with
  | nil => rfl
  | cons s statements ih =>
    rw [encodedAll, List.flatMap_cons, List.map_append, entries_encoded, ih,
      length_bindings_encoded, ← numbered_append, constants, constants, List.flatMap_cons,
      List.filterMap_append]

theorem sources_encodedAll (bound : Nat) (statements : List Statement) :
    ((encodedAll bound statements).map Encoded.columns).flatMap Columns.sources =
      references bound (statements.flatMap terms) := by
  induction statements generalizing bound with
  | nil => rfl
  | cons s statements ih =>
    rw [encodedAll, List.map_cons, List.flatMap_cons, sources_encoded, ih,
      length_bindings_encoded, ← references_append, List.flatMap_cons]

theorem length_encodedAll (bound : Nat) (statements : List Statement) :
    (encodedAll bound statements).length = statements.length := by
  induction statements generalizing bound with
  | nil => rfl
  | cons s statements ih => exact congrArg Nat.succ (ih _)

theorem positioned_encodedAll (bound : Nat) (statements : List Statement) :
    ∀ columns ∈ (encodedAll bound statements).map Encoded.columns, columns.Positioned := by
  induction statements generalizing bound with
  | nil => exact List.forall_mem_nil _
  | cons s statements ih => exact List.forall_mem_cons.2 ⟨rfl, ih _⟩

/-! ## From the names back to the terms -/

/-- The positions as they are written: a variable by its name, a constant in place of the name that
it is bound to. -/
def written (bound : Nat) : List Term → List TemplateTerm
  | [] => []
  | .var v :: ts => .name v.name :: written bound ts
  | .const c :: ts => .constant (constantName (bound + 1)) c :: written (bound + 1) ts

/-- Among the bindings of the constants every name leads to its term, unless a variable has the name
of a constant. -/
theorem map_references {o : Outline} {bound : Nat} {ts : List Term}
    (hbound : numbered bound (ts.filterMap Term.constant?) ⊆ o.bindings.entries)
    (hfree : ∀ v, .var v ∈ ts → v.name ∉ o.bindings.keys) :
    (references bound ts).map o.templateTerm = written bound ts := by
  induction ts generalizing bound with
  | nil => rfl
  | cons t ts ih =>
    have hrest := fun v hv => hfree v (List.mem_cons_of_mem t hv)
    cases t with
    | var v =>
      have hnone : o.binding? v.name = none :=
        Entries.find?_eq_none (hfree v List.mem_cons_self)
      rw [references, List.map_cons, ih hbound hrest, Outline.templateTerm, hnone]
      rfl
    | const c =>
      obtain ⟨hc, hts⟩ := List.cons_subset.1 hbound
      have hsome : o.binding? (constantName (bound + 1)) = some (.const c) :=
        Entries.find?_of_mem o.bindings.distinct hc
      rw [references, List.map_cons, ih hts hrest, Outline.templateTerm, hsome]
      rfl

theorem bindingNames_written (bound : Nat) (ts : List Term) :
    (written bound ts).filterMap TemplateTerm.bindingName? =
      (numbered bound (ts.filterMap Term.constant?)).map Prod.fst := by
  induction ts generalizing bound with
  | nil => rfl
  | cons t ts ih =>
    cases t with
    | var v => exact ih bound
    | const c => exact congrArg _ (ih (bound + 1))

/-- The position holds the term, and is written as the term is. -/
def Holds : TemplateTerm → Term → Prop
  | .name name, .var v => name = v.name
  | .constant _ c, .const d => c = d
  | _, _ => False

theorem holds_written (bound : Nat) (ts : List Term) :
    List.Forall₂ Holds (written bound ts) ts := by
  induction ts generalizing bound with
  | nil => exact .nil
  | cons t ts ih =>
    cases t with
    | var v => exact .cons rfl (ih bound)
    | const c => exact .cons rfl (ih (bound + 1))

/-- Position by position. -/
def HeldBy (s : Statement) (t : Template) : Prop :=
  Holds t.subject s.subject ∧ Holds t.predicate s.predicate ∧ Holds t.object s.object

/-- Terms that are held one after the other are held template by template. -/
theorem heldBy_of_terms {templates : List Template} {statements : List Statement}
    (h : List.Forall₂ Holds (templates.flatMap Template.terms) (statements.flatMap terms)) :
    List.Forall₂ HeldBy statements templates := by
  induction templates generalizing statements with
  | nil =>
    cases statements with
    | nil => exact .nil
    | cons s statements => cases h
  | cons t templates ih =>
    cases statements with
    | nil => cases h
    | cons s statements =>
      obtain ⟨hsubject, h⟩ := List.forall₂_cons.1 h
      obtain ⟨hpredicate, h⟩ := List.forall₂_cons.1 h
      obtain ⟨hobject, h⟩ := List.forall₂_cons.1 h
      exact .cons ⟨hsubject, hpredicate, hobject⟩ (ih h)

/-- Texts that agree on templates and the statements they hold. -/
theorem map_eq_map_of_heldBy {text : Template → String} {text' : Statement → String}
    (htext : ∀ s t, HeldBy s t → text t = text' s) {templates : List Template}
    {statements : List Statement} (h : List.Forall₂ HeldBy statements templates) :
    templates.map text = statements.map text' := by
  induction h with
  | nil => rfl
  | cons hhead _ ih => rw [List.map_cons, List.map_cons, htext _ _ hhead, ih]

end Statement

namespace Outline

theorem terms_of_template? (o : Outline) (columns : Columns) :
    (o.template? columns).map Template.terms =
      if columns.isTemplate then some (columns.sources.map o.templateTerm) else none := by
  rcases columns with _ | ⟨s, _ | ⟨p, _ | ⟨object, _ | ⟨next, rest⟩⟩⟩⟩
  case cons.cons.cons.nil =>
    rw [template?]
    split <;> rfl
  all_goals rfl

/-- One template for each list that is one, with a term for each of its columns. -/
theorem terms_of_templates (o : Outline) :
    o.templates.map Template.terms =
      (o.lists.filter Columns.isTemplate).map fun columns => columns.sources.map o.templateTerm := by
  rw [templates, List.map_filterMap]
  simp only [terms_of_template?]
  induction o.lists with
  | nil => rfl
  | cons columns lists ih =>
    rw [List.filterMap_cons, List.filter_cons, ih]
    cases columns.isTemplate <;> rfl

theorem terms_templates {o : Outline} (h : ∀ columns ∈ o.lists, columns.Positioned) :
    o.templates.flatMap Template.terms = (o.lists.flatMap Columns.sources).map o.templateTerm := by
  have hall : o.lists.filter Columns.isTemplate = o.lists :=
    List.filter_eq_self.2 fun columns hcolumns => (h columns hcolumns).isTemplate
  rw [List.flatMap_def, terms_of_templates, hall, ← List.flatMap_def, List.map_flatMap]

theorem shape_of_positioned {o : Outline} (h : ∀ columns ∈ o.lists, columns.Positioned)
    (hne : o.lists ≠ []) : o.shape = .construct := by
  obtain ⟨columns, hcolumns⟩ := List.exists_mem_of_ne_nil _ hne
  have hany : o.lists.any Columns.isTemplate = true :=
    List.any_eq_true.2 ⟨columns, hcolumns, (h columns hcolumns).isTemplate⟩
  rw [shape, if_pos hany]

/-- Templates are written as they were given, unless a variable has the name of a constant. -/
theorem terms_eq_written {o : Outline} {statements : List Statement}
    (hpositioned : ∀ columns ∈ o.lists, columns.Positioned)
    (hsources : o.lists.flatMap Columns.sources =
      Statement.references 0 (statements.flatMap Statement.terms))
    (hentries : o.bindings.entries = Statement.numbered 0 (Statement.constants statements))
    (hnames : ∀ v, .var v ∈ statements.flatMap Statement.terms →
      Statement.isReserved v.name = false) :
    o.templates.flatMap Template.terms =
      Statement.written 0 (statements.flatMap Statement.terms) := by
  rw [terms_templates hpositioned, hsources]
  refine Statement.map_references ?_ ?_
  · rw [hentries]
    exact List.Subset.refl _
  · intro v hv hmem
    rw [OrderedMap.keys, hentries] at hmem
    obtain ⟨number, hnumber⟩ := Statement.exists_number hmem
    have hreserved := hnames v hv
    rw [hnumber, Statement.isReserved_constantName] at hreserved
    cases hreserved

end Outline

end RdfQuery
