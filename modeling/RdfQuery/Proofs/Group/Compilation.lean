import RdfQuery.Group.Basic
import RdfQuery.Proofs.Outcome

/-!
# What compilation keeps of a group

A group holds pattern leaves and conditions. Its tree has the leaves in order,
those of its own trees before those of its children, and every condition
guards the leaves its group means. Only what is added to a union beside its
two sides is lost.
-/

set_option autoImplicit false

namespace RdfQuery

/-- A condition with the pattern leaves it is tested on. -/
structure Guard where
  condition : Expr
  scope : List TriplePattern

/-- Every one of the conditions guards the same leaves. -/
def Guard.over (scope : List TriplePattern) (conditions : List Expr) : List Guard :=
  conditions.map fun e => ⟨e, scope⟩

namespace Tree

/-- The conditions of filters and left joins, those of the operands first. A filter guards the
leaves below it, and a left join's condition those of the optional operand. -/
def guards : Tree → List Guard
  | .unit => []
  | .pattern _ => []
  | .combine (.leftJoin condition) left right =>
    guards left ++ guards right ++ Guard.over right.patterns condition.toList
  | .combine _ left right => guards left ++ guards right
  | .filter arg condition => guards arg ++ Guard.over arg.patterns [condition]
  | .modify _ arg => guards arg
  | .bare _ => []

/-- The leaves and the guards of a tree, both in order. -/
structure Has (t : Tree) (leaves : List TriplePattern) (guards : List Guard) : Prop where
  patterns_eq : t.patterns = leaves
  guards_eq : t.guards = guards

section

variable {left right : Tree} {ps qs : List TriplePattern} {gs hs : List Guard}

theorem Has.join (hl : left.Has ps gs) (hr : right.Has qs hs) :
    (join left right).Has (ps ++ qs) (gs ++ hs) := by
  obtain ⟨rfl, rfl⟩ := hl
  obtain ⟨rfl, rfl⟩ := hr
  exact ⟨rfl, rfl⟩

theorem Has.union (hl : left.Has ps gs) (hr : right.Has qs hs) :
    (union left right).Has (ps ++ qs) (gs ++ hs) := by
  obtain ⟨rfl, rfl⟩ := hl
  obtain ⟨rfl, rfl⟩ := hr
  exact ⟨rfl, rfl⟩

theorem Has.leftJoin (hl : left.Has ps gs) (hr : right.Has qs hs) (condition : Option Expr) :
    (leftJoin left right condition).Has (ps ++ qs)
      (gs ++ (hs ++ Guard.over qs condition.toList)) := by
  obtain ⟨rfl, rfl⟩ := hl
  obtain ⟨rfl, rfl⟩ := hr
  exact ⟨rfl, List.append_assoc ..⟩

/-- Filters around a tree guard all of its leaves. -/
theorem Has.filtered {t : Tree} (h : t.Has ps gs) (filters : List Expr) :
    (t.filtered filters).Has ps (gs ++ Guard.over ps filters) := by
  induction filters generalizing t gs with
  | nil => simpa [Tree.filtered, Guard.over] using h
  | cons e filters ih =>
    have hinner : (Tree.filter t e).Has ps (gs ++ Guard.over ps [e]) :=
      ⟨h.patterns_eq, by rw [guards, h.guards_eq, h.patterns_eq]⟩
    simpa [Tree.filtered, Guard.over] using ih hinner

theorem has_foldl_join {t : Tree} (h : t.Has ps gs) (ts : List Tree) :
    (ts.foldl Tree.join t).Has (ps ++ ts.flatMap patterns) (gs ++ ts.flatMap guards) := by
  induction ts generalizing t ps gs with
  | nil => simpa using h
  | cons u ts ih => simpa using ih (h.join ⟨rfl, rfl⟩)

/-- Trees joined have the leaves and the guards of all of them. -/
theorem has_joined {t : Tree} {ts : List Tree} (h : joined? ts = some t) :
    t.Has (ts.flatMap patterns) (ts.flatMap guards) := by
  cases ts with
  | nil => cases h
  | cons u ts =>
    cases h
    exact has_foldl_join ⟨rfl, rfl⟩ ts

end

end Tree

namespace Group

/-- What a group of the given kind compiles of its trees. A union is made of its sides only. -/
def compiledTrees (isUnion : Bool) (body : List Tree) : List Tree := if isUnion then [] else body

mutual

/-- The leaves that are compiled: those of the group's own trees, then those of its children. -/
def leaves : Group → List TriplePattern
  | ⟨isUnion, _, body, children, _⟩ =>
    (compiledTrees isUnion body).flatMap Tree.patterns ++ leavesAll children

def leavesAll : List Group → List TriplePattern
  | [] => []
  | g :: gs => leaves g ++ leavesAll gs

end

mutual

/-- The conditions of a group with what they are meant to guard. Those inside its own trees come
first, then its filters, which guard its own trees, then those of its children. The filters of a
group without trees of its own come last and guard its children. -/
def guards : Group → List Guard
  | ⟨isUnion, _, body, children, filters⟩ =>
    if (compiledTrees isUnion body).isEmpty then
      guardsAll children ++ Guard.over (leavesAll children) filters
    else
      (compiledTrees isUnion body).flatMap Tree.guards ++
        Guard.over ((compiledTrees isUnion body).flatMap Tree.patterns) filters ++
        guardsAll children

def guardsAll : List Group → List Guard
  | [] => []
  | g :: gs => guards g ++ guardsAll gs

end

/-! ## One step -/

/-- What the tree built so far has; before the first tree there is nothing. -/
def Gathered (acc : Option Tree) (leaves : List TriplePattern) (guards : List Guard) : Prop :=
  match acc with
  | none => leaves = [] ∧ guards = []
  | some t => t.Has leaves guards

/-- An attached child adds its leaves and guards. A condition is passed for optional ones only. -/
theorem gathered_attach {acc : Option Tree} {right : Tree} {ps qs : List TriplePattern}
    {gs hs : List Guard} (hacc : Gathered acc ps gs) (hright : right.Has qs hs)
    (optional : Bool) (condition : Option Expr) (hoptional : optional = false → condition = none) :
    Gathered (some (attach acc optional right condition)) (ps ++ qs)
      (gs ++ (hs ++ Guard.over qs condition.toList)) := by
  cases acc with
  | none =>
    obtain ⟨rfl, rfl⟩ := hacc
    cases optional with
    | true =>
      have hunit : Tree.unit.Has [] [] := ⟨rfl, rfl⟩
      exact hunit.leftJoin hright condition
    | false =>
      rw [hoptional rfl]
      simpa [Gathered, attach, Guard.over] using hright
  | some left =>
    have hleft : left.Has ps gs := hacc
    cases optional with
    | true => exact hleft.leftJoin hright condition
    | false =>
      rw [hoptional rfl]
      simpa [Gathered, attach, Guard.over] using hleft.join hright

/-- A lifted filter guards the group's leaves like any other. -/
theorem has_lifted {g : Group} {right : Tree} {condition : Expr}
    (h : g.lifted? = some (right, condition)) :
    g.optional = true ∧
      ∃ hs, right.Has g.leaves hs ∧ g.guards = hs ++ Guard.over g.leaves [condition] := by
  unfold lifted? at h
  split at h
  · rename_i body filter
    split at h
    · rename_i hall
      obtain ⟨t, ht, heq⟩ := Option.map_eq_some_iff.1 h
      cases heq
      have hbody : body.isEmpty = false := by
        cases body with
        | nil => cases ht
        | cons u us => rfl
      have hleaves : leaves ⟨false, true, body, [], [condition]⟩ =
          body.flatMap Tree.patterns := by
        simp [leaves, leavesAll, compiledTrees]
      refine ⟨rfl, body.flatMap Tree.guards, ?_, ?_⟩
      · rw [hleaves]
        exact Tree.has_joined ht
      · rw [hleaves]
        simp [guards, guardsAll, compiledTrees, hbody]
    · cases h
  · cases h

/-! ## A whole run -/

mutual

theorem has_compile : ∀ (g : Group) {t : Tree}, g.compile = .ok t → t.Has g.leaves g.guards
  | ⟨isUnion, optional, body, children, filters⟩, t, h => by
    rw [compile] at h
    split at h
    · cases h
    split at h
    · rename_i hunion
      obtain ⟨sides, hsides, h⟩ := Outcome.bind_eq_ok.1 h
      cases h
      have hfiltered := (has_compileSides _ children hsides).filtered filters
      simpa [leaves, guards, compiledTrees, hunion] using hfiltered
    · rename_i hbasic
      obtain ⟨acc, hacc, h⟩ := Outcome.bind_eq_ok.1 h
      cases body with
      | nil =>
        have hgathered : Gathered acc (leavesAll children) (guardsAll children) :=
          has_compileChildren none children ⟨rfl, rfl⟩ hacc
        cases acc with
        | none => cases h
        | some u =>
          cases h
          have hfiltered := Tree.Has.filtered hgathered filters
          simpa [leaves, guards, compiledTrees] using hfiltered
      | cons first rest =>
        have hjoined : Tree.joined? (first :: rest) = some (rest.foldl Tree.join first) := rfl
        have hown : Gathered (some ((rest.foldl Tree.join first).filtered filters)) _ _ :=
          (Tree.has_joined hjoined).filtered filters
        have hgathered := has_compileChildren _ children hown hacc
        cases acc with
        | none => cases h
        | some u =>
          cases h
          simpa [leaves, guards, compiledTrees, hbasic, Gathered] using hgathered

theorem has_compileSides : ∀ (given : Nat) (gs : List Group) {t : Tree},
    compileSides given gs = .ok t → t.Has (leavesAll gs) (guardsAll gs)
  | _, [left, right], t, h => by
    obtain ⟨l, hl, h⟩ := Outcome.bind_eq_ok.1 h
    obtain ⟨r, hr, h⟩ := Outcome.bind_eq_ok.1 h
    cases h
    simpa [leavesAll, guardsAll] using (has_compile left hl).union (has_compile right hr)
  | _, [], t, h => by cases h
  | _, [_], t, h => by cases h
  | _, _ :: _ :: _ :: _, t, h => by cases h

theorem has_compileChildren : ∀ (acc : Option Tree) (gs : List Group) {acc' : Option Tree}
    {ps : List TriplePattern} {hs : List Guard}, Gathered acc ps hs →
    compileChildren acc gs = .ok acc' →
    Gathered acc' (ps ++ leavesAll gs) (hs ++ guardsAll gs)
  | acc, [], acc', ps, hs, hacc, h => by
    cases h
    simpa [leavesAll, guardsAll] using hacc
  | acc, g :: gs, acc', ps, hs, hacc, h => by
    rw [compileChildren] at h
    rw [leavesAll, guardsAll, ← List.append_assoc, ← List.append_assoc]
    split at h
    · rename_i right condition hlifted
      obtain ⟨hoptional, inner, hright, hguards⟩ := has_lifted hlifted
      have hnext := gathered_attach hacc hright g.optional (some condition)
        fun h => absurd (hoptional.symm.trans h) (by decide)
      rw [hguards]
      exact has_compileChildren _ gs hnext h
    · obtain ⟨right, hright, h⟩ := Outcome.bind_eq_ok.1 h
      have hnext := gathered_attach hacc (has_compile g hright) g.optional none fun _ => rfl
      have hnone : Guard.over g.leaves (none : Option Expr).toList = [] := rfl
      rw [hnone, List.append_nil] at hnext
      exact has_compileChildren _ gs hnext h

end

/-! ## Leaves that are lost -/

mutual

/-- No union in the group has pattern leaves beside its sides. -/
def keepsLeaves : Group → Bool
  | ⟨isUnion, _, body, children, _⟩ =>
    (!isUnion || (body.flatMap Tree.patterns).isEmpty) && keepsLeavesAll children

def keepsLeavesAll : List Group → Bool
  | [] => true
  | g :: gs => keepsLeaves g && keepsLeavesAll gs

end

theorem compiledTrees_sublist (isUnion : Bool) (body : List Tree) :
    ((compiledTrees isUnion body).flatMap Tree.patterns).Sublist (body.flatMap Tree.patterns) := by
  cases isUnion with
  | true => exact List.nil_sublist _
  | false => exact List.Sublist.refl _

theorem compiledTrees_eq_iff (isUnion : Bool) (body : List Tree) :
    (compiledTrees isUnion body).flatMap Tree.patterns = body.flatMap Tree.patterns ↔
      (!isUnion || (body.flatMap Tree.patterns).isEmpty) = true := by
  cases isUnion with
  | true =>
    rw [Bool.not_true, Bool.false_or, List.isEmpty_iff]
    exact eq_comm
  | false => simp [compiledTrees]

theorem append_eq_append_iff_of_sublist {α : Type} {xs xs' ys ys' : List α}
    (hx : xs.Sublist xs') (hy : ys.Sublist ys') :
    xs ++ ys = xs' ++ ys' ↔ xs = xs' ∧ ys = ys' := by
  constructor
  · intro h
    have hlength : xs.length = xs'.length := by
      have hx := hx.length_le
      have hy := hy.length_le
      have := congrArg List.length h
      simp only [List.length_append] at this
      omega
    exact List.append_inj h hlength
  · rintro ⟨rfl, rfl⟩
    rfl

mutual

theorem leaves_sublist : ∀ g : Group, g.leaves.Sublist g.patterns
  | ⟨isUnion, _, body, children, _⟩ => by
    rw [leaves, patterns]
    exact (compiledTrees_sublist isUnion body).append (leavesAll_sublist children)

theorem leavesAll_sublist : ∀ gs : List Group, (leavesAll gs).Sublist (patternsAll gs)
  | [] => List.Sublist.slnil
  | g :: gs => by
    rw [leavesAll, patternsAll]
    exact (leaves_sublist g).append (leavesAll_sublist gs)

end

mutual

theorem leaves_eq_iff : ∀ g : Group, g.leaves = g.patterns ↔ g.keepsLeaves = true
  | ⟨isUnion, _, body, children, _⟩ => by
    rw [leaves, patterns, keepsLeaves, Bool.and_eq_true, ← compiledTrees_eq_iff,
      ← leavesAll_eq_iff children]
    exact append_eq_append_iff_of_sublist (compiledTrees_sublist isUnion body)
      (leavesAll_sublist children)

theorem leavesAll_eq_iff : ∀ gs : List Group,
    leavesAll gs = patternsAll gs ↔ keepsLeavesAll gs = true
  | [] => by simp [leavesAll, patternsAll, keepsLeavesAll]
  | g :: gs => by
    rw [leavesAll, patternsAll, keepsLeavesAll, Bool.and_eq_true, ← leaves_eq_iff g,
      ← leavesAll_eq_iff gs]
    exact append_eq_append_iff_of_sublist (leaves_sublist g) (leavesAll_sublist gs)

end

/-- However the group was put together, the tree has the leaves of its own trees and then those of
its children, without what a union has beside its sides. These are all the patterns given to the
group, in order, just if no union in it was given patterns of its own; then they are as many, too. -/
theorem compile_keeps_patterns {g : Group} {t : Tree} (h : g.compile = .ok t) :
    t.patterns = g.leaves ∧ (t.patterns = g.patterns ↔ g.keepsLeaves = true) ∧
      (t.patterns.length = g.patterns.length ↔ g.keepsLeaves = true) := by
  rw [(has_compile g h).patterns_eq]
  refine ⟨rfl, leaves_eq_iff g, ?_⟩
  rw [← leaves_eq_iff g]
  exact ⟨(leaves_sublist g).eq_of_length, congrArg List.length⟩

/-- The group with more patterns, whose subjects have the given names. -/
def withPatterns (g : Group) (subjects : List String) : Group :=
  subjects.foldl (fun g subject => g.addTree (.pattern ⟨.var (.user subject), .var (.user "p"),
    .var (.user "o"), none⟩)) g

/-- A union between an optional part, whose filter is lifted, and a filtered group. -/
def unionBetween : Except BuildError Group := do
  let sides ← startUnion.addChild ((start false).withPatterns ["a", "b"])
  let sides ← sides.addChild ((start false).withPatterns ["c"])
  let g ← ((start false).withPatterns ["d"]).addChild
    (((start true).withPatterns ["e", "f"]).addFilter (.bound (.user "e")))
  let g ← g.addChild sides
  g.addChild (((start false).withPatterns ["g"]).addFilter (.bound (.user "g")))

theorem unionBetween_keeps_patterns :
    ∃ g t, unionBetween = .ok g ∧ g.compile = .ok t ∧ g.keepsLeaves = true ∧
      t.patterns = g.patterns ∧ g.patterns.length = 7 := by
  refine ⟨_, _, rfl, rfl, rfl, ?_, rfl⟩
  exact (compile_keeps_patterns rfl).2.1.2 rfl

/-- A union with a pattern of its own. -/
def patternedUnion : Except BuildError Group := do
  let g ← (startUnion.withPatterns ["a"]).addChild ((start false).withPatterns ["b"])
  g.addChild ((start false).withPatterns ["c"])

theorem patternedUnion_loses_pattern :
    ∃ g t, patternedUnion = .ok g ∧ g.compile = .ok t ∧
      t.patterns.length = 2 ∧ g.patterns.length = 3 ∧ t.patterns ≠ g.patterns := by
  refine ⟨_, _, rfl, rfl, rfl, rfl, ?_⟩
  intro h
  exact absurd (congrArg List.length h) (by decide)

end Group

end RdfQuery
