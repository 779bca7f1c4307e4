import RdfQuery.Proofs.Sparql.Layout
import RdfQuery.Proofs.Sparql.Scoping

/-!
# Nestings that groups can say

The nesting of a tree is the tree without its patterns and conditions. Some
nestings keep every tree to its scope: no filter stands beside another operand
in its group, and no optional part or minus stands after one.
-/

set_option autoImplicit false

namespace RdfQuery.Sparql

/-- How the operators of a body are nested. A left join has a condition or not. -/
inductive Nesting where
  | pattern
  | join (left right : Nesting)
  | leftJoin (conditioned : Bool) (left right : Nesting)
  | union (left right : Nesting)
  | difference (left right : Nesting)
  | filter (arg : Nesting)
  deriving DecidableEq, Repr

namespace Nesting

/-- The trees of a nesting. None of them names a graph. -/
inductive Of : Nesting → Tree → Prop where
  | pattern {p : TriplePattern} (h : p.graph = none) : Of .pattern (.pattern p)
  | join {m n : Nesting} {left right : Tree} (hl : Of m left) (hr : Of n right) :
    Of (.join m n) (.combine .join left right)
  | leftJoin {conditioned : Bool} {m n : Nesting} {left right : Tree} {condition : Option Expr}
    (hc : condition.isSome = conditioned) (hl : Of m left) (hr : Of n right) :
    Of (.leftJoin conditioned m n) (.combine (.leftJoin condition) left right)
  | union {m n : Nesting} {left right : Tree} (hl : Of m left) (hr : Of n right) :
    Of (.union m n) (.combine .union left right)
  | difference {m n : Nesting} {left right : Tree} (hl : Of m left) (hr : Of n right) :
    Of (.difference m n) (.combine .difference left right)
  | filter {m : Nesting} {arg : Tree} {condition : Expr} (h : Of m arg) :
    Of (.filter m) (.filter arg condition)

/-- Written into a group, every tree of the nesting keeps its meaning; `before` and `around` tell
whether a variable may be bound by what stands before the tree there, and by anything else. -/
def keeps : (before around : Bool) → Nesting → Bool
  | _, _, .pattern => true
  | before, _, .join m n => keeps before true m && keeps true true n
  | before, _, .leftJoin _ m n => !before && keeps before true m && keeps false true n
  | _, _, .union m n => keeps false false m && keeps false false n
  | before, around, .difference m n =>
    !before && keeps before around m && keeps false false n
  | before, around, .filter m => !around && keeps before around m

theorem Of.graphless {n : Nesting} {t : Tree} (h : n.Of t) : t.Graphless := by
  induction h with
  | pattern h =>
    intro p hp
    cases List.mem_singleton.1 hp
    exact h
  | filter _ ih => exact ih
  | _ =>
    rename_i ihl ihr
    intro p hp
    rcases List.mem_append.1 hp with hp | hp
    · exact ihl p hp
    · exact ihr p hp

theorem Of.tree_keeps {n : Nesting} {t : Tree} (h : n.Of t) :
    ∀ {before around : Bool} {xs ys : List String}, n.keeps before around = true →
      (before = false → xs = []) → (around = false → ys = []) → t.Keeps xs ys := by
  induction h with
  | pattern => exact fun _ _ _ => trivial
  | join _ _ ihl ihr =>
    intro before around xs ys hkeeps hxs _
    rw [keeps, Bool.and_eq_true] at hkeeps
    have hseen {zs : List String} : true = false → zs = [] := fun h => nomatch h
    exact ⟨ihl hkeeps.1 hxs hseen, ihr hkeeps.2 hseen hseen⟩
  | leftJoin _ _ _ ihl ihr =>
    intro before around xs ys hkeeps hxs _
    simp only [keeps, Bool.and_eq_true, Bool.not_eq_true'] at hkeeps
    obtain ⟨⟨hbefore, hl⟩, hr⟩ := hkeeps
    have hseen {zs : List String} : true = false → zs = [] := fun h => nomatch h
    cases hxs hbefore
    refine ⟨ihl hl hxs hseen, ihr hr (fun _ => rfl) hseen, ?_, ?_⟩
    · exact fun _ h => nomatch h
    · exact fun _ _ _ h => nomatch h
  | union _ _ ihl ihr =>
    intro before around xs ys hkeeps _ _
    rw [keeps, Bool.and_eq_true] at hkeeps
    exact ⟨ihl hkeeps.1 (fun _ => rfl) fun _ => rfl, ihr hkeeps.2 (fun _ => rfl) fun _ => rfl⟩
  | difference _ _ ihl ihr =>
    intro before around xs ys hkeeps hxs hys
    simp only [keeps, Bool.and_eq_true, Bool.not_eq_true'] at hkeeps
    obtain ⟨⟨hbefore, hl⟩, hr⟩ := hkeeps
    cases hxs hbefore
    exact ⟨ihl hl hxs hys, ihr hr (fun _ => rfl) fun _ => rfl, fun _ h => nomatch h⟩
  | filter _ ih =>
    intro before around xs ys hkeeps hxs hys
    simp only [keeps, Bool.and_eq_true, Bool.not_eq_true'] at hkeeps
    cases hys hkeeps.1
    exact ⟨ih hkeeps.2 hxs hys, fun _ _ h => nomatch h⟩

end Nesting

/-! ## The text of a body without graphs -/

theorem elements_eq_written {n : Nesting} {t : Tree} (h : n.Of t) :
    ∀ {m : GraphMap}, m.graphs = [] → elements t m = .ok (written t) := by
  induction h with
  | pattern =>
    intro m hm
    rw [elements, (GraphMap.graphs_eq_nil hm).1]
    rfl
  | filter _ ih =>
    intro m hm
    obtain ⟨hgraph, hbelow, -⟩ := GraphMap.graphs_eq_nil hm
    rw [elements, ih hbelow, hgraph]
    rfl
  | _ =>
    rename_i ihl ihr
    intro m hm
    obtain ⟨hgraph, hleft, hright⟩ := GraphMap.graphs_eq_nil hm
    rw [elements, ihl hleft, ihr hright, hgraph]
    rfl

theorem Nesting.Of.isBody {n : Nesting} {t : Tree} (h : n.Of t) : t.isBody = true := by
  induction h with
  | pattern => rfl
  | filter _ ih => exact ih
  | _ =>
    rename_i ihl ihr
    exact Bool.and_eq_true_iff.2 ⟨ihl, ihr⟩

/-- The text of the tree is that of a document whose where-block has these elements and no other
lines. -/
def Writes (s : Style) (t : Tree) (es : List Element) : Prop :=
  ∃ d, document (Naming.ofStyle s) (treeQuery t) (GraphMap.collect t) = .ok d ∧
    d.block = some ⟨es, []⟩ ∧ renderTree s t (GraphMap.collect t) = .ok (d.text (Pen.ofStyle s))

theorem Nesting.Of.writes {n : Nesting} {t : Tree} (h : n.Of t) (s : Style) :
    Writes s t (written t) := by
  have hgraphs : (GraphMap.collect t).graphs = [] := by
    rw [List.eq_nil_iff_forall_not_mem]
    intro g hg
    obtain ⟨p, hp, hpg⟩ := GraphMap.exists_pattern_of_mem_graphs hg
    rw [h.graphless p hp] at hpg
    cases hpg
  have hpeel := peel_body h.isBody
  have hkind : (treeQuery t).kind = .select := by
    rw [treeQuery, hpeel]
    rfl
  have hform : form (Outline.peel t) .select = .ok (.select .kept []) := by
    rw [hpeel]
    rfl
  have hblock : block .select (Outline.peel t) (.select .kept []) (GraphMap.collect t) =
      .ok (some ⟨written t, []⟩) := by
    have hbody : bodyElements (Outline.peel t) (GraphMap.collect t) = .ok (written t) := by
      rw [hpeel]
      exact elements_eq_written h hgraphs
    rw [block]
    · rw [hbody, hpeel]
      rfl
    · intro _ h
      cases h
  have hdocument : document (Naming.ofStyle s) (treeQuery t) (GraphMap.collect t) = .ok {
      declarations := (Naming.ofStyle s).declarations
        (t.iris ++ (treeQuery t).dataset.graphs ++ targetIris (treeQuery t).kind)
      form := .select .kept []
      dataset := (treeQuery t).dataset
      block := some ⟨written t, []⟩
      footer := (Outline.peel t).footer } := by
    have htree : (treeQuery t).tree = t := rfl
    rw [document, htree, hkind, hform]
    show (block _ _ _ _).bind _ = _
    rw [hblock]
    rfl
  refine ⟨_, hdocument, rfl, ?_⟩
  rw [renderTree, renderIn]
  show (document (Naming.ofStyle s) _ _).bind _ = _
  rw [hdocument]
  rfl

end RdfQuery.Sparql
