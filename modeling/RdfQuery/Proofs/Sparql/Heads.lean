import RdfQuery.Proofs.Sparql.Refusal

/-!
# Heads of SPARQL documents

A document begins, after its declarations, with the keyword of its form. A blank or
the end of the line follows it, and what stands below the head begins on a line of its
own. The head of a select query without bindings has the names of its columns.
-/

set_option autoImplicit false

namespace RdfQuery

/-! ## Ends of words and lines -/

namespace Text

def BeginsWith (c : Char) (text : String) : Prop := text.toList.head? = some c

instance (c : Char) (text : String) : Decidable (BeginsWith c text) :=
  inferInstanceAs (Decidable (_ = _))

theorem BeginsWith.append {c : Char} {a : String} (h : BeginsWith c a) (b : String) :
    BeginsWith c (a ++ b) := by
  rw [BeginsWith, String.toList_append, List.head?_append, h]
  rfl

/-- Nothing, or a text that begins on a line of its own. -/
def EndsLine (rest : String) : Prop := rest = "" ∨ BeginsWith '\n' rest

theorem EndsLine.append {a b : String} (ha : EndsLine a) (hb : EndsLine b) : EndsLine (a ++ b) := by
  rcases ha with rfl | ha
  · rw [String.empty_append]
    exact hb
  · exact Or.inr (ha.append b)

theorem EndsLine.pieces {α : Type} {first : String} (hfirst : BeginsWith '\n' first)
    (text : α → String) (xs : List α) :
    EndsLine (concatenated (xs.map fun x => first ++ text x)) := by
  induction xs with
  | nil => exact Or.inl rfl
  | cons x xs ih => exact EndsLine.append (Or.inr (hfirst.append _)) ih

/-- What can follow a word: nothing, a blank or the end of the line. -/
def EndsWord (rest : String) : Prop := EndsLine rest ∨ BeginsWith ' ' rest

end Text

/-! ## Keywords -/

namespace Footer

theorem endsLine_orderText (f : Footer) (separator : String) (key : SortKey → String) :
    Text.EndsLine (f.orderText separator key) := by
  unfold orderText
  split
  · exact Or.inl rfl
  · exact Or.inr (Text.BeginsWith.append (by decide) _)

theorem endsLine_boundText (word : String) (count : Option Nat) :
    Text.EndsLine (boundText word count) := by
  cases count with
  | none => exact Or.inl rfl
  | some count =>
    have hline : Text.BeginsWith '\n' "\n" := by decide
    exact Or.inr (((hline.append word).append " ").append (toString count))

end Footer

namespace Sparql

def Form.keyword : Form → String
  | .ask => "ask"
  | .describe _ => "describe"
  | .select _ _ => "select"
  | .construct _ => "construct"

theorem listed_of_ne_nil {pieces : List String} (h : pieces ≠ []) :
    listed pieces = Text.concatenated (pieces.map fun piece => " " ++ piece) := by
  cases pieces with
  | nil => exact absurd rfl h
  | cons piece pieces => rfl

theorem beginsWith_listed (pieces : List String) : Text.BeginsWith ' ' (listed pieces) := by
  have hblank : Text.BeginsWith ' ' " " := by decide
  cases pieces with
  | nil => exact hblank.append "*"
  | cons piece pieces => exact (hblank.append piece).append _

/-- The head without its keyword. -/
def Form.restText (p : Pen) : Form → String
  | .ask => ""
  | .describe targets => listed (targets.map (term p.naming))
  | .select repeats items => repeats.text ++ listed (items.map (itemText p.naming))
  | .construct templates =>
    " \x7b\n" ++ Text.concatenated (templates.map (templateText p)) ++ "\x7d"

theorem formText_eq_keyword (p : Pen) (f : Form) : formText p f = f.keyword ++ f.restText p := by
  cases f with
  | ask => rfl
  | describe targets => rfl
  | select repeats items => exact String.append_assoc ..
  | construct templates =>
    have hword : "construct \x7b\n" = "construct" ++ " \x7b\n" := by decide
    simp only [formText, Form.keyword, Form.restText, hword, String.append_assoc]

theorem beginsWith_restText (p : Pen) (f : Form) :
    f.restText p = "" ∨ Text.BeginsWith ' ' (f.restText p) := by
  cases f with
  | ask => exact Or.inl rfl
  | describe targets => exact Or.inr (beginsWith_listed _)
  | select repeats items =>
    refine Or.inr ?_
    cases repeats with
    | kept =>
      rw [Form.restText, Repeats.text, String.empty_append]
      exact beginsWith_listed _
    | distinct => exact Text.BeginsWith.append (by decide) _
    | reduced => exact Text.BeginsWith.append (by decide) _
  | construct templates =>
    exact Or.inr (Text.BeginsWith.append (Text.BeginsWith.append (by decide) _) _)

/-- What stands below the head. -/
def Document.belowText (p : Pen) (d : Document) : String :=
  datasetText p.naming d.dataset ++ blockText p d.block ++
    d.footer.orderText " " (sortKeyText p.naming) ++ d.footer.boundsText

theorem endsLine_belowText (p : Pen) (d : Document) : Text.EndsLine (d.belowText p) := by
  have hdataset : Text.EndsLine (datasetText p.naming d.dataset) :=
    (Text.EndsLine.pieces (by decide) _ _).append (Text.EndsLine.pieces (by decide) _ _)
  have hblock : Text.EndsLine (blockText p d.block) := by
    cases d.block with
    | none => exact Or.inl rfl
    | some b =>
      have hwhere : Text.BeginsWith '\n' "\nwhere \x7b\n" := by decide
      exact Or.inr (((hwhere.append _).append _).append _)
  have hbounds : Text.EndsLine d.footer.boundsText :=
    (Footer.endsLine_boundText _ _).append (Footer.endsLine_boundText _ _)
  exact ((hdataset.append hblock).append (d.footer.endsLine_orderText _ _)).append hbounds

/-- After the declarations a document begins with the keyword of its form. -/
theorem text_eq_keyword (p : Pen) (d : Document) :
    d.text p = Text.concatenated (d.declarations.map declarationText) ++ d.form.keyword ++
      (d.form.restText p ++ d.belowText p) := by
  simp only [Document.text, Document.belowText, formText_eq_keyword, String.append_assoc]

theorem endsWord_rest (p : Pen) (d : Document) :
    Text.EndsWord (d.form.restText p ++ d.belowText p) := by
  rcases beginsWith_restText p d.form with hrest | hrest
  · rw [hrest, String.empty_append]
    exact Or.inl (endsLine_belowText p d)
  · exact Or.inr (hrest.append _)

theorem document_of_render {s : Style} {q : Query} {text : String} (h : render s q = .ok text) :
    ∃ d : Document, form (Outline.peel q.tree) q.kind = .ok d.form ∧
      text = d.text (Pen.ofStyle s) := by
  obtain ⟨d, hd, h⟩ := Outcome.bind_eq_ok.1 h
  cases h
  obtain ⟨f, hform, hd⟩ := Outcome.bind_eq_ok.1 hd
  obtain ⟨b, -, hd⟩ := Outcome.bind_eq_ok.1 hd
  cases hd
  exact ⟨_, hform, rfl⟩

theorem form_of_isShaped {kind : QueryKind} (h : isShaped kind = true) (o : Outline) :
    form o kind = shapeForm o := by
  cases kind with
  | select => rfl
  | construct => rfl
  | ask => cases h
  | describe targets => cases h

theorem shapeForm_eq_ok {o : Outline} {f : Form} (h : shapeForm o = .ok f) :
    (o.shape = .select ∧ ∃ items, o.items .sparql = .ok items ∧ f = .select o.repeats items) ∨
      (o.shape = .construct ∧ f = .construct o.templates) := by
  unfold shapeForm at h
  cases hshape : o.shape with
  | select =>
    rw [hshape] at h
    obtain ⟨items, hitems, h⟩ := Outcome.bind_eq_ok.1 h
    exact Or.inl ⟨rfl, items, hitems, (Except.ok.inj h).symm⟩
  | construct =>
    rw [hshape] at h
    simp only [constructForm] at h
    split at h
    · exact Or.inr ⟨rfl, (Except.ok.inj h).symm⟩
    · cases h

/-- Names that nothing is bound to are written as they are. -/
theorem items_of_unbound {o : Outline} (h : o.bindings.entries = []) (names : List String)
    (n : Naming) :
    ((names.map Column.same).map o.item).map (itemText n) = names.map variableText := by
  rw [List.map_map, List.map_map]
  refine List.map_congr_left fun name _ => ?_
  have hnone : o.binding? name = none := by
    rw [Outline.binding?, OrderedMap.get?, h]
    rfl
  have hitem : o.item (Column.same name) = .plain name := by
    simp [Outline.item, Column.same, hnone]
  exact congrArg (itemText n) hitem

end Sparql

end RdfQuery
