import RdfQuery.Proofs.Location
import RdfQuery.Proofs.Query.Amendments
import RdfQuery.Proofs.Query.Outlines
import RdfQuery.Proofs.Sparql.Refusal

/-!
# Bounds in SPARQL texts

Bounds written to a query are written to the footer of its document; nothing
else in the document changes, and a query without a document still has none.
-/

set_option autoImplicit false

namespace RdfQuery.Sparql

variable (limit offset : Option Nat)

theorem elements_rebound (t : Tree) (m : GraphMap) :
    elements (t.rebound limit offset) m = elements t m := by
  induction t generalizing m with
  | combine c l r ihl ihr => simp only [Tree.rebound, elements, ihl, ihr]
  | filter arg e ih => simp only [Tree.rebound, elements, ih]
  | modify mo arg ih => simp only [Tree.rebound, elements, mo.kind_rebound]
  | _ => rfl

theorem bodyElements_peel (t : Tree) :
    bodyElements (Outline.peel t) (GraphMap.collect t) =
      (Outline.peel t).body.elim (.ok []) fun b => elements b (GraphMap.collect b) := by
  unfold bodyElements
  cases hbody : (Outline.peel t).body with
  | none => rfl
  | some b =>
    rw [GraphMap.collect_descend_peel hbody]
    rfl

theorem bodyElements_withBounds (t : Tree) :
    bodyElements (Outline.peel (t.withBounds limit offset))
        (GraphMap.collect (t.withBounds limit offset)) =
      bodyElements (Outline.peel t) (GraphMap.collect t) := by
  rw [bodyElements_peel, bodyElements_peel, (Outline.peel_withBounds limit offset t).body]
  cases (Outline.peel t).body with
  | none => rfl
  | some b =>
    show elements (b.rebound limit offset) (GraphMap.collect (b.rebound limit offset)) = _
    rw [GraphMap.collect_rebound, elements_rebound]
    rfl

theorem form_of_rebounds {o o' : Outline} (h : Outline.Rebounds limit offset o o')
    (kind : QueryKind) : form o' kind = form o kind := by
  rw [h.eq]
  rfl

theorem block_withBounds (kind : QueryKind) (f : Form) (t : Tree) :
    block kind (Outline.peel (t.withBounds limit offset)) f
        (GraphMap.collect (t.withBounds limit offset)) =
      block kind (Outline.peel t) f (GraphMap.collect t) := by
  have hrebounds := Outline.peel_withBounds limit offset t
  unfold block
  rw [bodyElements_withBounds, hrebounds.bindings, hrebounds.body]
  cases (Outline.peel t).body with
  | none => rfl
  | some b => cases kind <;> rfl

/-- A body with a slice in it has no elements. -/
theorem unsliced_of_block {kind : QueryKind} {o : Outline} {f : Form} {m : GraphMap}
    {b : Option Block} (h : block kind o f m = .ok b) : o.Unsliced := by
  have hbody : o.body.bind firstMisplaced? = none := by
    rw [← error?_block kind o f m, h]
    rfl
  intro body hsome
  rw [hsome] at hbody
  exact Tree.count_eq_zero_of_kinds (by decide) (firstMisplaced?_eq_none.1 hbody)

/-- Bounds are written to the footer of the document. -/
theorem document_bounded (n : Naming) {q : Query} (h : q.tree.count .slice ≤ 1) :
    document n (q.bounded limit offset) (GraphMap.collect (q.bounded limit offset).tree) =
      (document n q (GraphMap.collect q.tree)).map fun d =>
        { d with footer := d.footer.bounded limit offset } := by
  have hform := form_of_rebounds limit offset (Outline.peel_withBounds limit offset q.tree) q.kind
  simp only [document, Query.bounded, hform, block_withBounds, Tree.iris_withBounds]
  cases form (Outline.peel q.tree) q.kind with
  | error e => rfl
  | ok f =>
    cases hblock : block q.kind (Outline.peel q.tree) f (GraphMap.collect q.tree) with
    | error e => simp only [bind, Except.bind, hblock, Except.map]
    | ok b =>
      -- only now is it known that no slice was left in the body
      have hfooter := Outline.footer_withBounds limit offset h (unsliced_of_block hblock)
      simp only [bind, Except.bind, hblock, hfooter, Except.map]

def Document.framed (p : Pen) (d : Document) : Framed where
  above := Text.concatenated (d.declarations.map declarationText) ++ formText p d.form ++
    datasetText p.naming d.dataset ++ blockText p d.block ++
    d.footer.orderText " " (sortKeyText p.naming)
  limit := d.footer.limit
  offset := d.footer.offset
  below := ""

theorem Document.framed_text (p : Pen) (d : Document) : (d.framed p).text = d.text p := by
  simp only [Framed.text, framed, text, Footer.boundsText, String.append_assoc, String.append_empty]

def frame (s : Style) (q : Query) : Except RenderError Framed :=
  (document (Naming.ofStyle s) q (GraphMap.collect q.tree)).map (Document.framed (Pen.ofStyle s))

theorem render_eq_frame (s : Style) (q : Query) : render s q = (frame s q).map Framed.text := by
  show (document (Naming.ofStyle s) q (GraphMap.collect q.tree) >>=
    fun d => .ok (d.text (Pen.ofStyle s))) = _
  unfold frame
  cases document (Naming.ofStyle s) q (GraphMap.collect q.tree) with
  | error e => rfl
  | ok d => exact congrArg Except.ok (d.framed_text _).symm

theorem frame_bounded (s : Style) {q : Query} (h : q.tree.count .slice ≤ 1) :
    frame s (q.bounded limit offset) = (frame s q).map (Framed.bounded limit offset) := by
  unfold frame
  rw [document_bounded limit offset _ h]
  cases document (Naming.ofStyle s) q (GraphMap.collect q.tree) <;> rfl

theorem closed_of_frame {s : Style} {q : Query} {f : Framed} (h : frame s q = .ok f) :
    f.Closed := by
  obtain ⟨d, -, rfl⟩ := Outcome.map_eq_ok.1 h
  exact Or.inl rfl

end RdfQuery.Sparql
