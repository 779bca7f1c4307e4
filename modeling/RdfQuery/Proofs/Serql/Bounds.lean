import RdfQuery.Proofs.Query.Amendments
import RdfQuery.Proofs.Query.Outlines
import RdfQuery.Proofs.Serql.Acceptance

/-!
# Bounds in SeRQL texts

Bounds written to a query are written to the footer of its document, also where
a describe query is rewritten for the text. Nothing else in the document
changes, and a query without a document still has none.
-/

set_option autoImplicit false

namespace RdfQuery.Serql

variable (limit offset : Option Nat)

theorem collect_rebound (n : Naming) (t : Tree) (m : GraphMap) (outer : Option Term)
    (c : Clauses) : collect n (t.rebound limit offset) m outer c = collect n t m outer c := by
  induction t generalizing m outer c with
  | combine op l r ihl ihr => cases op <;> simp only [Tree.rebound, collect, ihl, ihr]
  | filter arg e ih => simp only [Tree.rebound, collect, ih]
  | modify mo arg ih => simp only [Tree.rebound, collect, mo.kind_rebound]
  | _ => rfl

theorem body_rebound (n : Naming) (t : Tree) (m : GraphMap) (outer : Option Term) :
    body n (t.rebound limit offset) m outer = body n t m outer := by
  have hclauses (t : Tree) (m : GraphMap) (outer : Option Term) :
      collectBody n (t.rebound limit offset) m outer = collectBody n t m outer := by
    simp only [collectBody, collect_rebound]
  induction t generalizing m outer with
  | combine c l r ihl ihr =>
    have hwhole := hclauses (.combine c l r) m outer
    simp only [Tree.rebound] at hwhole
    simp only [Tree.rebound, body, ihl, ihr, hwhole]
  | filter arg e ih => exact hclauses _ m outer
  | modify mo arg ih => exact hclauses _ m outer
  | _ => rfl

theorem outlineBody_withBounds (n : Naming) (t : Tree) :
    outlineBody n (Outline.peel (t.withBounds limit offset))
        (GraphMap.collect (t.withBounds limit offset)) =
      outlineBody n (Outline.peel t) (GraphMap.collect t) := by
  rw [outlineBody_peel, outlineBody_peel, (Outline.peel_withBounds limit offset t).body]
  cases (Outline.peel t).body with
  | none => rfl
  | some b => simp only [Option.map_some, Option.elim_some, GraphMap.collect_rebound, body_rebound]

theorem head_of_rebounds {o o' : Outline} (h : Outline.Rebounds limit offset o o') :
    head o' = head o := by
  rw [h.eq]
  rfl

theorem slices_of_operands {t : Tree} {m : GraphMap} {outer : Option Term}
    (h : ∀ o ∈ operands t m outer, o.tree.count .slice = 0) : t.count .slice = 0 := by
  induction t generalizing m outer with
  | combine c l r ihl ihr =>
    have hboth (h : ∀ o ∈ operands l m.left (m.graph?.or outer) ++
        operands r m.right (m.graph?.or outer), o.tree.count .slice = 0) :
        (Tree.combine c l r).count .slice = 0 := by
      rw [List.forall_mem_append] at h
      rw [Tree.slices_combine, ihl h.1, ihr h.2]
    cases c with
    | union => exact hboth h
    | difference => exact hboth h
    | intersection => exact hboth h
    | join => exact h _ (List.mem_singleton_self _)
    | leftJoin condition => exact h _ (List.mem_singleton_self _)
  | _ => exact h _ (List.mem_singleton_self _)

/-- A body with a slice in it has no clauses. -/
theorem unsliced_of_outlineBody {n : Naming} {t : Tree} {b : Option Body}
    (h : outlineBody n (Outline.peel t) (GraphMap.collect t) = .ok b) :
    (Outline.peel t).Unsliced := by
  intro body hbody
  have htop := (outlineBody_isOk.1 ⟨b, h⟩ body hbody).1
  exact slices_of_operands fun o ho => Tree.count_eq_zero_of_kinds (by decide) (htop o ho)

/-- Bounds are written to the footer of the document. -/
theorem document_withBounds (n : Naming) {t : Tree} (h : t.count .slice ≤ 1) :
    document n (t.withBounds limit offset) (GraphMap.collect (t.withBounds limit offset)) =
      (document n t (GraphMap.collect t)).map fun d =>
        { d with footer := d.footer.bounded limit offset } := by
  have hhead := head_of_rebounds limit offset (Outline.peel_withBounds limit offset t)
  simp only [document, hhead, outlineBody_withBounds, Tree.iris_withBounds]
  cases head (Outline.peel t) with
  | error e => rfl
  | ok hd =>
    cases hbody : outlineBody n (Outline.peel t) (GraphMap.collect t) with
    | error e => simp only [bind, Except.bind, Except.map]
    | ok b =>
      -- only now is it known that no slice was left in the body
      have hfooter := Outline.footer_withBounds limit offset h (unsliced_of_outlineBody hbody)
      simp only [bind, Except.bind, hfooter, Except.map]

def Document.framed (s : Style) (d : Document) : Framed :=
  let n := Naming.ofStyle s
  let head := headText n d.head
  { above := (match d.body with
      | some b => bodyText (s.indent 1) n head b
      | none => head) ++ d.footer.orderText ", " (sortKeyText n)
    limit := d.footer.limit
    offset := d.footer.offset
    below := declarationsText (s.indent 1) d.declarations }

theorem Document.framed_text (s : Style) (d : Document) : (d.framed s).text = d.text s := by
  obtain ⟨head, body, footer, declarations⟩ := d
  cases body <;> simp only [Framed.text, framed, text, Footer.boundsText, String.append_assoc]

theorem Document.framed_closed (s : Style) (d : Document) : (d.framed s).Closed := by
  show declarationsText (s.indent 1) d.declarations = "" ∨
    ∃ rest, declarationsText (s.indent 1) d.declarations = "\n" ++ rest
  cases d.declarations with
  | nil => exact Or.inl rfl
  | cons declaration rest =>
    have hline : "\nusing namespace\n" = "\n" ++ "using namespace\n" := rfl
    rw [declarationsText, hline, String.append_assoc]
    · exact Or.inr ⟨_, rfl⟩
    · nofun

/-- The tree whose text a query has, if it has one. -/
def written (q : Query) : Except RenderError Tree :=
  if !q.dataset.isEmpty then .error (.feature .serql .datasets)
  else match q.kind with
    | .ask => .error (.feature .serql .askQueries)
    | .describe _ =>
      match q.describedByConstruct .defaultGraph with
      | (true, construct) => .ok construct.tree
      | (false, _) => .error (.feature .serql .describeWithoutTargets)
    | _ => .ok q.tree

theorem render_eq_written (s : Style) (q : Query) :
    render s q = written q >>= renderCollected s := by
  obtain ⟨kind, tree, dataset⟩ := q
  unfold render written
  split
  · rfl
  · cases kind with
    | describe targets =>
      simp only
      rcases Query.describedByConstruct ⟨.describe targets, tree, dataset⟩ .defaultGraph with
        ⟨_ | _, construct⟩ <;> rfl
    | _ => rfl

theorem written_bounded (q : Query) :
    written (q.bounded limit offset) = (written q).map (Tree.withBounds limit offset) := by
  have hdescribed := q.described_bounded limit offset .defaultGraph
  unfold written
  rw [hdescribed]
  by_cases hdataset : (!q.dataset.isEmpty) = true
  · have hdataset' : (!(q.bounded limit offset).dataset.isEmpty) = true := hdataset
    rw [if_pos hdataset, if_pos hdataset']
    rfl
  · have hdataset' : ¬ (!(q.bounded limit offset).dataset.isEmpty) = true := hdataset
    rw [if_neg hdataset, if_neg hdataset']
    obtain ⟨kind, tree, dataset⟩ := q
    cases kind with
    | describe targets =>
      generalize Query.describedByConstruct ⟨.describe targets, tree, dataset⟩ .defaultGraph = answer
      obtain ⟨_ | _, construct⟩ := answer <;> rfl
    | _ => rfl

theorem slices_written {q : Query} {t : Tree} (h : written q = .ok t) :
    t.count .slice = q.tree.count .slice := by
  have hdescribed := q.slices_described .defaultGraph
  unfold written at h
  split at h
  · cases h
  · split at h
    · cases h
    · split at h
      · rename_i hconstruct
        cases h
        rw [hconstruct] at hdescribed
        exact hdescribed
      · cases h
    · cases h
      rfl

def frame (s : Style) (q : Query) : Except RenderError Framed := do
  let t ← written q
  (document (Naming.ofStyle s) t (GraphMap.collect t)).map (Document.framed s)

theorem render_eq_frame (s : Style) (q : Query) : render s q = (frame s q).map Framed.text := by
  rw [render_eq_written]
  unfold frame
  cases written q with
  | error e => rfl
  | ok t =>
    show (document (Naming.ofStyle s) t (GraphMap.collect t) >>= fun d => .ok (d.text s)) =
      ((document (Naming.ofStyle s) t (GraphMap.collect t)).map (Document.framed s)).map Framed.text
    cases document (Naming.ofStyle s) t (GraphMap.collect t) with
    | error e => rfl
    | ok d => exact congrArg Except.ok (d.framed_text s).symm

theorem frame_bounded (s : Style) {q : Query} (h : q.tree.count .slice ≤ 1) :
    frame s (q.bounded limit offset) = (frame s q).map (Framed.bounded limit offset) := by
  unfold frame
  rw [written_bounded]
  cases hwritten : written q with
  | error e => rfl
  | ok t =>
    have hcount : t.count .slice ≤ 1 := le_of_eq_of_le (slices_written hwritten) h
    simp only [Except.map, bind, Except.bind, document_withBounds limit offset _ hcount]
    cases document (Naming.ofStyle s) t (GraphMap.collect t) <;> rfl

theorem closed_of_frame {s : Style} {q : Query} {f : Framed} (h : frame s q = .ok f) :
    f.Closed := by
  unfold frame at h
  obtain ⟨t, -, h⟩ := Outcome.bind_eq_ok.1 h
  obtain ⟨d, -, rfl⟩ := Outcome.map_eq_ok.1 h
  exact d.framed_closed s

end RdfQuery.Serql
