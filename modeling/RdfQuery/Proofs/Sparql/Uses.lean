import RdfQuery.Proofs.Sparql.Bindings
import RdfQuery.Proofs.Sparql.Mentions

/-!
# Uses of bound names

A binding that the head writes has no line in the block, whatever the head calls
its value. Where its name is used in a sort key or in another binding, it is
bound only if some column has this value under this name, and stands before the
use. Lines stand in the order of the extension and use what is bound before them.
-/

set_option autoImplicit false

namespace RdfQuery

def Expr.Uses (e : Expr) (name : String) : Prop := name ∈ Variable.names e.variables

instance (e : Expr) (name : String) : Decidable (e.Uses name) :=
  inferInstanceAs (Decidable (name ∈ Variable.names e.variables))

/-- The column has the value of a binding under the name of the binding. -/
def SelectItem.Yields (b : String × Expr) : SelectItem → Prop
  | .plain _ => False
  | .renamed source target => target = b.1 ∧ ∃ v : Variable, b.2 = .var v ∧ v.name = source
  | .computed _ e target => target = b.1 ∧ e = b.2

namespace Outline

/-- The head writes what is bound to the name, and the block does not. -/
def Inlines (o : Outline) (name : String) : Prop :=
  name ∈ o.headNames ∧ (o.inHead? name).isSome = true

/-- The column refers to what is bound to the name, or to a variable that is bound to it. -/
def Supplies (o : Outline) (c : Column) (b : String × Expr) : Prop :=
  c.target = b.1 ∧
    (o.binding? c.source = some b.2 ∨
      o.binding? c.source = none ∧ c.source ≠ c.target ∧
        ∃ v : Variable, b.2 = .var v ∧ v.name = c.source)

/-- Names that the head writes are used only where a column supplies them, and other names only
behind the places where they are bound. -/
structure Available (o : Outline) : Prop where
  in_keys : ∀ k ∈ o.order, ∀ b ∈ o.bindings.entries, k.expr.Uses b.1 → o.Inlines b.1 →
    o.shape = .select ∧ ∃ c ∈ o.lists.flatten, o.Supplies c b
  in_lines : ∀ before line after, o.bindings.entries = before ++ line :: after →
    ¬ o.Inlines line.1 → ∀ b ∈ o.bindings.entries, b.1 ≠ line.1 → line.2.Uses b.1 →
      b ∈ before ∧ ¬ o.Inlines b.1
  in_columns : o.shape = .select → ∀ before c after, o.lists.flatten = before ++ c :: after →
    ∀ e, o.binding? c.source = some e → ∀ b ∈ o.bindings.entries, b.1 ≠ c.source → e.Uses b.1 →
      o.Inlines b.1 → ∃ d ∈ before, o.Supplies d b

variable {o : Outline}

theorem mem_unwritten_iff {b : String × Expr} (hb : b ∈ o.bindings.entries) :
    b ∈ o.unwritten ↔ ¬ o.Inlines b.1 := by
  rw [mem_unwritten, and_iff_right hb, Inlines]

theorem yields_item {c : Column} {b : String × Expr} : (o.item c).Yields b ↔ o.Supplies c b := by
  unfold item Supplies
  cases o.binding? c.source with
  | some e => simp [SelectItem.Yields]
  | none =>
    by_cases h : c.source = c.target
    · simp [SelectItem.Yields, h]
    · simp [SelectItem.Yields, h]

/-- What is needed before a member that is kept must be kept, too. -/
theorem forall_split_filter {α : Type} (xs : List α) (keep : α → Bool) (needs : α → α → Prop) :
    (∀ before x after, xs.filter keep = before ++ x :: after → ∀ y, needs x y → y ∈ before) ↔
      ∀ before x after, xs = before ++ x :: after → keep x = true →
        ∀ y, needs x y → y ∈ before ∧ keep y = true := by
  constructor
  · intro h before x after hxs hx y hneeds
    have hsplit : xs.filter keep = before.filter keep ++ x :: after.filter keep := by
      rw [hxs, List.filter_append, List.filter_cons_of_pos hx]
    exact List.mem_filter.1 (h _ x _ hsplit y hneeds)
  · intro h before x after hsplit y hneeds
    obtain ⟨kept, rest, hxs, rfl, hrest⟩ := List.filter_eq_append_iff.1 hsplit
    obtain ⟨skipped, as, rfl, hskipped, hx, rfl⟩ := List.filter_eq_cons_iff.1 hrest
    rw [← List.append_assoc] at hxs
    obtain ⟨hbefore, hy⟩ := h _ x as hxs hx y hneeds
    rcases List.mem_append.1 hbefore with hkept | hskip
    · exact List.mem_filter.2 ⟨hkept, hy⟩
    · exact absurd hy (hskipped y hskip)

theorem lines_available :
    (∀ before line after, o.unwritten = before ++ line :: after →
      ∀ b ∈ o.bindings.entries, b.1 ≠ line.1 → line.2.Uses b.1 → b ∈ before) ↔
    ∀ before line after, o.bindings.entries = before ++ line :: after → ¬ o.Inlines line.1 →
      ∀ b ∈ o.bindings.entries, b.1 ≠ line.1 → line.2.Uses b.1 → b ∈ before ∧ ¬ o.Inlines b.1 := by
  have hsplit := forall_split_filter o.bindings.entries
    (fun b => !(o.headNames.contains b.1 && (o.inHead? b.1).isSome))
    (fun line b => b ∈ o.bindings.entries ∧ b.1 ≠ line.1 ∧ line.2.Uses b.1)
  have hkeep {b : String × Expr} :
      (!(o.headNames.contains b.1 && (o.inHead? b.1).isSome)) = true ↔ ¬ o.Inlines b.1 := by
    simp only [Bool.not_eq_true', ← Bool.not_eq_true, Bool.and_eq_true, List.contains_iff_mem,
      Inlines]
  simp only [hkeep, and_imp] at hsplit
  exact hsplit

end Outline

namespace Sparql

def Form.items : Form → List SelectItem
  | .select _ items => items
  | _ => []

def Document.lines (d : Document) : List (String × Expr) := d.block.elim [] Block.bindings

/-- Wherever a bound name is used, what is bound to it is written with the name: for a sort key on
a line of the block or in a column, for a line on a line before it, for a column on a line or in a
column before it. What a binding says of its own name is left aside. -/
structure Document.BindsUses (d : Document) (bound : List (String × Expr)) : Prop where
  in_keys : ∀ k ∈ d.footer.order, ∀ b ∈ bound, k.expr.Uses b.1 →
    b ∈ d.lines ∨ ∃ i ∈ d.form.items, i.Yields b
  in_lines : ∀ before line after, d.lines = before ++ line :: after →
    ∀ b ∈ bound, b.1 ≠ line.1 → line.2.Uses b.1 → b ∈ before
  in_items : ∀ before source e target after,
    d.form.items = before ++ SelectItem.computed source e target :: after →
    ∀ b ∈ bound, b.1 ≠ source → e.Uses b.1 → b ∈ d.lines ∨ ∃ i ∈ before, i.Yields b

/-- The column is written as `(e as ?name)`. -/
theorem itemText_of_yields {n : Naming} {i : SelectItem} {b : String × Expr} (h : i.Yields b) :
    itemText n i = aliased (expr n b.2) b.1 := by
  cases i with
  | plain name => exact h.elim
  | renamed source target =>
    obtain ⟨rfl, v, hv, rfl⟩ := h
    rw [itemText, hv]
    rfl
  | computed source e target =>
    obtain ⟨rfl, rfl⟩ := h
    rfl

theorem items_of_select {o : Outline} {f : Form} (hshape : o.shape = .select)
    (h : shapeForm o = .ok f) : f.items = o.lists.flatten.map o.item := by
  rcases shapeForm_eq_ok h with ⟨-, items, hitems, rfl⟩ | ⟨hconstruct, -⟩
  · exact Outline.items_eq hitems
  · exact nomatch hshape.symm.trans hconstruct

theorem items_of_construct {o : Outline} {f : Form} (hshape : o.shape = .construct)
    (h : shapeForm o = .ok f) : f.items = [] := by
  rcases shapeForm_eq_ok h with ⟨hselect, -⟩ | ⟨-, rfl⟩
  · exact nomatch hshape.symm.trans hselect
  · rfl

/-- What a document of a tree consists of. -/
structure Document.Of (d : Document) (o : Outline) : Prop where
  form : shapeForm o = .ok d.form
  lines : d.lines = o.unwritten
  footer : d.footer = o.footer

theorem document_of_tree {n : Naming} {t : Tree} {m : GraphMap} {d : Document}
    (h : document n (treeQuery t) m = .ok d) : d.Of (Outline.peel t) := by
  have hkind : (treeQuery t).kind = .select ∨ (treeQuery t).kind = .construct := by
    unfold treeQuery
    cases (Outline.peel t).shape
    · exact Or.inl rfl
    · exact Or.inr rfl
  obtain ⟨f, hform, h⟩ := Outcome.bind_eq_ok.1 h
  obtain ⟨b, hblock, h⟩ := Outcome.bind_eq_ok.1 h
  cases h
  have hshape : shapeForm (Outline.peel t) = .ok f := by
    rcases hkind with hkind | hkind <;> rwa [hkind] at hform
  have hlines : b.elim [] Block.bindings = (Outline.peel t).unwritten := by
    unfold block at hblock
    split at hblock
    · rename_i hdescribe _
      rcases hkind with hkind | hkind <;> exact nomatch hkind.symm.trans hdescribe
    · obtain ⟨elements, -, hblock⟩ := Outcome.bind_eq_ok.1 hblock
      cases hblock
      exact lines_eq_unwritten hshape
  exact ⟨hshape, hlines, rfl⟩

variable {d : Document} {o : Outline}

/-- A name that has no line is one that the head writes. -/
theorem mem_lines_or (hd : d.Of o) {b : String × Expr} (hb : b ∈ o.bindings.entries) {p : Prop} :
    b ∈ d.lines ∨ p ↔ (o.Inlines b.1 → p) := by
  rw [hd.lines, Outline.mem_unwritten_iff hb, ← imp_iff_not_or]

theorem exists_item_yields (hd : d.Of o) {b : String × Expr} :
    (∃ i ∈ d.form.items, i.Yields b) ↔
      o.shape = .select ∧ ∃ c ∈ o.lists.flatten, o.Supplies c b := by
  cases hshape : o.shape with
  | select =>
    rw [items_of_select hshape hd.form]
    simp only [List.mem_map, exists_exists_and_eq_and, Outline.yields_item, true_and]
  | construct =>
    rw [items_of_construct hshape hd.form]
    simp

theorem items_available (hd : d.Of o) :
    (∀ before source e target after,
      d.form.items = before ++ SelectItem.computed source e target :: after →
      ∀ b ∈ o.bindings.entries, b.1 ≠ source → e.Uses b.1 →
        b ∈ d.lines ∨ ∃ i ∈ before, i.Yields b) ↔
    (o.shape = .select → ∀ before c after, o.lists.flatten = before ++ c :: after →
      ∀ e, o.binding? c.source = some e → ∀ b ∈ o.bindings.entries, b.1 ≠ c.source → e.Uses b.1 →
        o.Inlines b.1 → ∃ c' ∈ before, o.Supplies c' b) := by
  constructor
  · intro h hshape before c after hcolumns e he b hb hne huses
    have hitem : o.item c = .computed c.source e c.target := by rw [Outline.item, he]
    have hsplit : d.form.items =
        before.map o.item ++ .computed c.source e c.target :: after.map o.item := by
      rw [items_of_select hshape hd.form, hcolumns, List.map_append, List.map_cons, hitem]
    have hyields := (mem_lines_or hd hb).1 (h _ _ _ _ _ hsplit b hb hne huses)
    simpa [Outline.yields_item] using hyields
  · intro h before source e target after hsplit b hb hne huses
    cases hshape : o.shape with
    | construct =>
      rw [items_of_construct hshape hd.form] at hsplit
      simp at hsplit
    | select =>
      rw [items_of_select hshape hd.form] at hsplit
      obtain ⟨bs, rest, hcolumns, rfl, hrest⟩ := List.map_eq_append_iff.1 hsplit
      obtain ⟨c, cs, rfl, hitem, rfl⟩ := List.map_eq_cons_iff.1 hrest
      obtain ⟨rfl, he⟩ : c.source = source ∧ o.binding? c.source = some e := by
        unfold Outline.item at hitem
        split at hitem
        · rename_i he
          cases hitem
          exact ⟨rfl, he⟩
        · split at hitem <;> cases hitem
      rw [mem_lines_or hd hb]
      intro hinlines
      obtain ⟨c', hc', hsupplies⟩ := h hshape _ c cs hcolumns e he b hb hne huses hinlines
      exact ⟨o.item c', List.mem_map_of_mem hc', Outline.yields_item.2 hsupplies⟩

theorem bindsUses_iff (hd : d.Of o) : d.BindsUses o.bindings.entries ↔ o.Available := by
  have hkeys : (∀ k ∈ d.footer.order, ∀ b ∈ o.bindings.entries, k.expr.Uses b.1 →
      b ∈ d.lines ∨ ∃ i ∈ d.form.items, i.Yields b) ↔
      ∀ k ∈ o.order, ∀ b ∈ o.bindings.entries, k.expr.Uses b.1 → o.Inlines b.1 →
        o.shape = .select ∧ ∃ c ∈ o.lists.flatten, o.Supplies c b := by
    rw [hd.footer]
    refine forall₂_congr fun k _ => forall₂_congr fun b hb => forall_congr' fun _ => ?_
    rw [mem_lines_or hd hb, exists_item_yields hd]
  constructor
  · rintro ⟨hk, hl, hi⟩
    rw [hd.lines] at hl
    exact ⟨hkeys.1 hk, Outline.lines_available.1 hl, (items_available hd).1 hi⟩
  · rintro ⟨hk, hl, hi⟩
    refine ⟨hkeys.2 hk, ?_, (items_available hd).2 hi⟩
    rw [hd.lines]
    exact Outline.lines_available.2 hl

/-- All uses of bound names are bound exactly if the names that the head writes are used only
where a column supplies them, and the others only behind their lines. -/
theorem uses_bound {s : Style} {t : Tree} {m : GraphMap} {text : String}
    (h : renderTree s t m = .ok text) :
    ∃ bindings d, Outline.Extends t bindings ∧
      (Outline.peel t).bindings = OrderedMap.ofList (bindings.map Binding.entry) ∧
      document (Naming.ofStyle s) (treeQuery t) m = .ok d ∧ text = d.text (Pen.ofStyle s) ∧
      (d.BindsUses (Outline.peel t).bindings.entries ↔ (Outline.peel t).Available) := by
  obtain ⟨bindings, hextends, hbindings⟩ := Outline.exists_extends t
  obtain ⟨d, hd, h⟩ := Outcome.bind_eq_ok.1 h
  cases h
  exact ⟨bindings, d, hextends, hbindings, hd, rfl, bindsUses_iff (document_of_tree hd)⟩

/-- Rows sorted by a label, from which a tag is made. -/
def labelled (columns : Columns) : Tree :=
  .modify (.select (.single columns)) (.modify (.order [⟨.var (.user "label"), true⟩])
    (.modify (.extend [⟨"label", .function .str (.var (.user "o"))⟩,
        ⟨"tag", .function .lang (.var (.user "label"))⟩])
      (.pattern ⟨.var (.user "s"), .var (.user "p"), .var (.user "o"), none⟩)))

def labelThenTag : Tree := labelled [Column.same "label", Column.same "tag"]

def labelRenamed : Tree := labelled [⟨"label", "name"⟩]

/-- The column of the label comes first and has its name. -/
theorem labelThenTag_uses_bound :
    ∃ text d, renderTree Style.default labelThenTag .empty = .ok text ∧
      document (Naming.ofStyle Style.default) (treeQuery labelThenTag) .empty = .ok d ∧
      text = d.text (Pen.ofStyle Style.default) ∧
      d.BindsUses (Outline.peel labelThenTag).bindings.entries := by
  obtain ⟨text, htext⟩ : ∃ text, renderTree Style.default labelThenTag .empty = .ok text :=
    ⟨_, rfl⟩
  obtain ⟨-, d, -, -, hd, hdocument, hiff⟩ := uses_bound htext
  have hentries : (Outline.peel labelThenTag).bindings.entries =
      [("label", .function .str (.var (.user "o"))),
        ("tag", .function .lang (.var (.user "label")))] := rfl
  have hinlines : ∀ b ∈ (Outline.peel labelThenTag).bindings.entries,
      (Outline.peel labelThenTag).Inlines b.1 := by
    rw [hentries, List.forall_mem_cons, List.forall_mem_singleton]
    exact ⟨⟨by decide, rfl⟩, by decide, rfl⟩
  have hsupplies : (Outline.peel labelThenTag).Supplies (Column.same "label")
      ("label", .function .str (.var (.user "o"))) := ⟨rfl, Or.inl rfl⟩
  refine ⟨text, d, htext, hd, hdocument, hiff.2 ⟨?_, ?_, ?_⟩⟩
  · intro k hk b hb huses _
    cases List.mem_singleton.1 hk
    rw [hentries, List.mem_cons, List.mem_singleton] at hb
    rcases hb with rfl | rfl
    · exact ⟨rfl, Column.same "label", List.mem_cons_self, hsupplies⟩
    · exact absurd huses (by decide)
  · intro before line after hsplit hnot
    exact absurd (hinlines line (by rw [hsplit]; simp)) hnot
  · intro _ before c after hcolumns e he b hb hne huses _
    change [Column.same "label", Column.same "tag"] = _ at hcolumns
    rw [hentries, List.mem_cons, List.mem_singleton] at hb
    rcases before with _ | ⟨first, _ | ⟨second, _⟩⟩
    · cases hcolumns
      cases he
      rcases hb with rfl | rfl <;> exact absurd huses (by decide)
    · cases hcolumns
      cases he
      rcases hb with rfl | rfl
      · exact ⟨_, List.mem_cons_self, hsupplies⟩
      · exact absurd huses (by decide)
    · simp at hcolumns

/-- The label has another name in the head and no line in the block, so the sort key and the tag
use a name that nothing is bound to. -/
theorem labelRenamed_uses_unbound :
    renderTree Style.default labelRenamed .empty =
        .ok ("select (str(?o) as ?name)\nwhere \x7b\n  ?s ?p ?o.\n" ++
          "  bind (lang(?label) as ?tag).\n\x7d\norder by ?label") ∧
      ∀ d, document (Naming.ofStyle Style.default) (treeQuery labelRenamed) .empty = .ok d →
        ¬ d.BindsUses (Outline.peel labelRenamed).bindings.entries := by
  refine ⟨rfl, fun d hd h => ?_⟩
  cases hd
  rcases h.in_keys _ List.mem_cons_self ("label", .function .str (.var (.user "o")))
    List.mem_cons_self (by decide) with hline | ⟨i, hi, hyields⟩
  · have hname : "label" ∈ ["tag"] := List.mem_map_of_mem (f := Prod.fst) hline
    exact absurd hname (by decide)
  · cases List.mem_singleton.1 hi
    exact absurd hyields.1 (by decide)

end Sparql

end RdfQuery
