import RdfQuery.Proofs.Query.Describes

/-!
# What calls make of a query

After any calls a query with at most one slice is the query it was, rewritten
by the first call for it and with the bounds that were written last. Hence
writing bounds commutes with writing other bounds and with the rewriting. A
query with several slices refuses all bounds.
-/

set_option autoImplicit false

namespace RdfQuery

namespace Amendment

def isSlice : Amendment → Bool
  | .slice _ => true
  | .describe _ => false

def limit? : Amendment → Option Nat
  | .slice c => c.limit?
  | .describe _ => none

def offset? : Amendment → Option Nat
  | .slice c => c.offset?
  | .describe _ => none

def scope? : Amendment → Option Scope
  | .slice _ => none
  | .describe scope => some scope

end Amendment

namespace Query

/-! ## One call -/

/-- The query with these bounds in its slice. -/
def bounded (q : Query) (limit offset : Option Nat) : Query :=
  { q with tree := q.tree.withBounds limit offset }

/-- The query describes targets and its tree has a describe projection. -/
def rewritable (q : Query) : Bool :=
  match q.kind with
  | .describe targets => !targets.isEmpty && q.tree.isDescribe
  | _ => false

theorem bounded_bounded (q : Query) (limit offset limit' offset' : Option Nat) :
    (q.bounded limit offset).bounded limit' offset' =
      q.bounded (limit'.or limit) (offset'.or offset) := by
  simp only [bounded, Tree.withBounds_withBounds]

theorem write_eq_ok {q : Query} (h : q.tree.count .slice ≤ 1) (c : SliceCall) :
    q.write c = .ok (if q.tree.count .slice = 0 then .inserted else .updated,
      q.bounded c.limit? c.offset?) := by
  rw [write, setSlice, Tree.setSlice_eq_ok _ _ h]
  rfl

theorem write_eq_error {q : Query} (h : 1 < q.tree.count .slice) (c : SliceCall) :
    q.write c = .error (.severalSlices (q.tree.count .slice)) := by
  rw [write, setSlice, Tree.setSlice_eq_error _ _ h]

/-- A call that is not refused found at most one slice. -/
theorem write_cases {q q' : Query} {c : SliceCall} {change : SliceChange}
    (h : q.write c = .ok (change, q')) :
    q.tree.count .slice ≤ 1 ∧ q' = q.bounded c.limit? c.offset? := by
  by_cases hcount : q.tree.count .slice ≤ 1
  · rw [write_eq_ok hcount] at h
    cases h
    exact ⟨hcount, rfl⟩
  · rw [write_eq_error (by omega)] at h
    cases h

theorem amend_slice {q : Query} (h : q.tree.count .slice ≤ 1) (c : SliceCall) :
    q.amend (.slice c) =
      (.slice (.ok (if q.tree.count .slice = 0 then .inserted else .updated)),
        q.bounded c.limit? c.offset?) := by
  rw [amend, write_eq_ok h]

theorem amend_refused {q : Query} (h : 1 < q.tree.count .slice) (c : SliceCall) :
    q.amend (.slice c) = (.slice (.error (.severalSlices (q.tree.count .slice))), q) := by
  rw [amend, write_eq_error h]

/-- What a call for the rewriting does: all or nothing. -/
theorem described_cases (q : Query) (scope : Scope) :
    (q.rewritable = false ∧ q.describedByConstruct scope = (false, q)) ∨
    (q.rewritable = true ∧ ∃ targets t, q.kind = .describe targets ∧
      q.tree.describe targets scope = .ok t ∧
      q.describedByConstruct scope = (true, { q with kind := .construct, tree := t })) := by
  obtain ⟨kind, tree, dataset⟩ := q
  cases kind with
  | describe targets =>
    have hok := @Tree.describe_isOk tree targets scope
    simp only [rewritable, describedByConstruct]
    cases hdescribe : tree.describe targets scope with
    | ok t =>
      obtain ⟨htargets, htree⟩ := hok.1 ⟨t, hdescribe⟩
      exact Or.inr ⟨by simp [htargets, htree], targets, t, rfl, hdescribe, rfl⟩
    | error e =>
      rw [hdescribe] at hok
      refine Or.inl ⟨?_, rfl⟩
      rw [← Bool.not_eq_true, Bool.and_eq_true, Bool.not_eq_true', List.isEmpty_eq_false_iff]
      exact fun hboth => nomatch hok.2 hboth
  | select => exact Or.inl ⟨rfl, rfl⟩
  | construct => exact Or.inl ⟨rfl, rfl⟩
  | ask => exact Or.inl ⟨rfl, rfl⟩

theorem described_applied (q : Query) (scope : Scope) :
    (q.describedByConstruct scope).1 = q.rewritable := by
  rcases q.described_cases scope with ⟨hq, h⟩ | ⟨hq, targets, t, -, -, h⟩ <;> rw [h, hq]

theorem slices_described (q : Query) (scope : Scope) :
    (q.describedByConstruct scope).2.tree.count .slice = q.tree.count .slice := by
  rcases q.described_cases scope with ⟨-, h⟩ | ⟨-, targets, t, -, ht, h⟩
  · rw [h]
  · rw [h]
    exact Tree.slices_describe ht

theorem rewritable_described (q : Query) (scope : Scope) :
    (q.describedByConstruct scope).2.rewritable = false := by
  rcases q.described_cases scope with ⟨hq, h⟩ | ⟨-, targets, t, -, -, h⟩
  · rw [h, hq]
  · rw [h]
    rfl

/-- A second rewriting does nothing, whether the first one did something or not. -/
theorem described_described (q : Query) (scope scope' : Scope) :
    ((q.describedByConstruct scope).2.describedByConstruct scope').2 =
      (q.describedByConstruct scope).2 := by
  rcases (q.describedByConstruct scope).2.described_cases scope' with ⟨-, h⟩ | ⟨hq, -⟩
  · rw [h]
  · rw [rewritable_described] at hq
    cases hq

theorem described_bounded (q : Query) (limit offset : Option Nat) (scope : Scope) :
    (q.bounded limit offset).describedByConstruct scope =
      ((q.describedByConstruct scope).1, (q.describedByConstruct scope).2.bounded limit offset) := by
  obtain ⟨kind, tree, dataset⟩ := q
  cases kind with
  | describe targets =>
    simp only [describedByConstruct, bounded, Tree.describe_withBounds]
    cases tree.describe targets scope <;> rfl
  | select => rfl
  | construct => rfl
  | ask => rfl

theorem rewritable_bounded (q : Query) (limit offset : Option Nat) :
    (q.bounded limit offset).rewritable = q.rewritable := by
  rw [← described_applied _ .defaultGraph, described_bounded, described_applied]

/-! ## All calls -/

theorem amendAll_append (q : Query) (calls rest : List Amendment) :
    q.amendAll (calls ++ rest) = (q.amendAll calls).amendAll rest := by
  induction calls generalizing q with
  | nil => rfl
  | cons a calls ih => exact ih _

/-- The query as the first call for the rewriting leaves it. -/
def rewritten (q : Query) (calls : List Amendment) : Query :=
  match (calls.filterMap Amendment.scope?).head? with
  | some scope => (q.describedByConstruct scope).2
  | none => q

/-- The rewritten query, with the limit and the offset that were written last. -/
def amended (q : Query) (calls : List Amendment) : Query :=
  if calls.any Amendment.isSlice then
    (q.rewritten calls).bounded (calls.filterMap Amendment.limit?).getLast?
      (calls.filterMap Amendment.offset?).getLast?
  else q.rewritten calls

theorem getLast?_filterMap_cons {α β : Type} (f : α → Option β) (a : α) (as : List α) :
    ((a :: as).filterMap f).getLast? = ((as.filterMap f).getLast?).or (f a) := by
  cases h : f a with
  | none => rw [List.filterMap_cons_none h, Option.or_none]
  | some b =>
    rw [List.filterMap_cons_some h, List.getLast?_cons]
    cases (as.filterMap f).getLast? <;> rfl

theorem rewritten_bounded (q : Query) (limit offset : Option Nat) (calls : List Amendment) :
    (q.bounded limit offset).rewritten calls = (q.rewritten calls).bounded limit offset := by
  unfold rewritten
  cases (calls.filterMap Amendment.scope?).head? with
  | none => rfl
  | some scope => simp only [described_bounded]

theorem amended_slice (q : Query) (c : SliceCall) (calls : List Amendment) :
    q.amended (.slice c :: calls) = (q.bounded c.limit? c.offset?).amended calls := by
  have hrewritten : q.rewritten (.slice c :: calls) = q.rewritten calls := rfl
  simp only [amended, hrewritten, rewritten_bounded, bounded_bounded, getLast?_filterMap_cons,
    Amendment.limit?, Amendment.offset?, List.any_cons, Amendment.isSlice, Bool.true_or, if_true]
  split
  · rfl
  · rename_i hnone
    have hno (f : Amendment → Option Nat) (hf : ∀ scope, f (.describe scope) = none) :
        calls.filterMap f = [] := by
      rw [List.filterMap_eq_nil_iff]
      intro a ha
      cases a with
      | slice c => exact absurd (List.any_eq_true.2 ⟨_, ha, rfl⟩) hnone
      | describe scope => exact hf scope
    rw [hno _ fun _ => rfl, hno _ fun _ => rfl]
    rfl

theorem amended_describe (q : Query) (scope : Scope) (calls : List Amendment) :
    q.amended (.describe scope :: calls) = (q.describedByConstruct scope).2.amended calls := by
  have hrewritten : q.rewritten (.describe scope :: calls) =
      (q.describedByConstruct scope).2.rewritten calls := by
    have hfirst : ((.describe scope :: calls).filterMap Amendment.scope?).head? = some scope := rfl
    rw [rewritten, rewritten, hfirst]
    cases (calls.filterMap Amendment.scope?).head? with
    | none => rfl
    | some scope' => exact (q.described_described scope scope').symm
  simp only [amended, hrewritten, List.any_cons, Amendment.isSlice, Bool.false_or,
    getLast?_filterMap_cons, Amendment.limit?, Amendment.offset?, Option.or_none]

/-- Calls made one after the other come to the same as the closed form. -/
theorem amendAll_eq_amended {q : Query} (h : q.tree.count .slice ≤ 1) (calls : List Amendment) :
    q.amendAll calls = q.amended calls := by
  induction calls generalizing q with
  | nil => rfl
  | cons a calls ih =>
    cases a with
    | slice c =>
      have hcount : (q.bounded c.limit? c.offset?).tree.count .slice ≤ 1 := by
        rw [bounded, Tree.count_withBounds]
        omega
      rw [amendAll, amend_slice h, ih hcount, amended_slice]
    | describe scope =>
      have hcount : (q.describedByConstruct scope).2.tree.count .slice ≤ 1 := by
        rw [slices_described]
        exact h
      exact (ih hcount).trans (q.amended_describe scope calls).symm

/-! ## What the calls answer -/

theorem slices_rewritten (q : Query) (calls : List Amendment) :
    (q.rewritten calls).tree.count .slice = q.tree.count .slice := by
  unfold rewritten
  cases (calls.filterMap Amendment.scope?).head? with
  | none => rfl
  | some scope => exact q.slices_described scope

theorem slices_amended (q : Query) (calls : List Amendment) :
    (q.amended calls).tree.count .slice =
      if calls.any Amendment.isSlice then max 1 (q.tree.count .slice)
      else q.tree.count .slice := by
  unfold amended
  split
  · rw [bounded, Tree.count_withBounds, slices_rewritten]
  · exact q.slices_rewritten calls

theorem rewritable_rewritten (q : Query) (calls : List Amendment) :
    (q.rewritten calls).rewritable = (q.rewritable && calls.all Amendment.isSlice) := by
  have hscopes : (calls.filterMap Amendment.scope?).head? = none ↔
      calls.all Amendment.isSlice = true := by
    rw [List.head?_eq_none_iff, List.filterMap_eq_nil_iff, List.all_eq_true]
    exact forall₂_congr fun a _ => by cases a <;> simp [Amendment.scope?, Amendment.isSlice]
  unfold rewritten
  split
  · rename_i scope hfirst
    have hall : calls.all Amendment.isSlice = false := by
      rw [← Bool.not_eq_true, ← hscopes, hfirst]
      nofun
    rw [rewritable_described, hall, Bool.and_false]
  · rename_i hnone
    rw [hscopes.1 hnone, Bool.and_true]

theorem rewritable_amended (q : Query) (calls : List Amendment) :
    (q.amended calls).rewritable = (q.rewritable && calls.all Amendment.isSlice) := by
  rw [← rewritable_rewritten, amended]
  split
  · exact rewritable_bounded _ _ _
  · rfl

/-- The kind changes with the rewriting, from describe to construct, and with nothing else. -/
theorem kind_amend (q : Query) (a : Amendment) :
    ((q.amend a).1 = .describe true ∧ (∃ targets, q.kind = .describe targets) ∧
      (q.amend a).2.kind = .construct) ∨
    ((q.amend a).1 ≠ .describe true ∧ (q.amend a).2.kind = q.kind) := by
  cases a with
  | slice c =>
    right
    by_cases hcount : q.tree.count .slice ≤ 1
    · rw [amend_slice hcount]
      exact ⟨nofun, rfl⟩
    · rw [amend_refused (by omega)]
      exact ⟨nofun, rfl⟩
  | describe scope =>
    rcases q.described_cases scope with ⟨-, h⟩ | ⟨-, targets, t, hkind, -, h⟩
    · rw [amend, h]
      exact Or.inr ⟨nofun, rfl⟩
    · rw [amend, h]
      exact Or.inl ⟨rfl, ⟨targets, hkind⟩, rfl⟩

theorem slices_amendAll {q : Query} (h : 1 < q.tree.count .slice) (calls : List Amendment) :
    (q.amendAll calls).tree.count .slice = q.tree.count .slice := by
  induction calls generalizing q with
  | nil => rfl
  | cons a calls ih =>
    cases a with
    | slice c => rw [amendAll, amend_refused h, ih h]
    | describe scope =>
      have hcount := q.slices_described scope
      exact (ih (lt_of_lt_of_eq h hcount.symm)).trans hcount

/-- What has become of a query, and what it answers to the next call. -/
structure Settled (q : Query) (calls : List Amendment) : Prop where
  one_slice : (q.amendAll calls).tree.count .slice ≤ 1
  /-- The query as it was, with the first rewriting and the last bounds. -/
  outcome : q.amendAll calls = q.amended calls
  /-- No bounds are refused. The first ones make a slice where there was none. -/
  slice_answer : ∀ c, ((q.amendAll calls).amend (.slice c)).1 =
    .slice (.ok (if q.tree.count .slice = 0 ∧ calls.any Amendment.isSlice = false then .inserted
      else .updated))
  /-- Only the first call for the rewriting can apply it. -/
  describe_answer : ∀ scope, ((q.amendAll calls).amend (.describe scope)).1 =
    .describe (q.rewritable && calls.all Amendment.isSlice)
  kind_changes : ∀ a,
    (((q.amendAll calls).amend a).1 = .describe true ∧
      (∃ targets, (q.amendAll calls).kind = .describe targets) ∧
      ((q.amendAll calls).amend a).2.kind = .construct) ∨
    (((q.amendAll calls).amend a).1 ≠ .describe true ∧
      ((q.amendAll calls).amend a).2.kind = (q.amendAll calls).kind)
  bounds_commute : ∀ n m,
    q.amendAll (calls ++ [.slice (.limit n), .slice (.offset m)]) =
      q.amendAll (calls ++ [.slice (.offset m), .slice (.limit n)])
  bounds_together : ∀ n m,
    q.amendAll (calls ++ [.slice (.limitAndOffset n m)]) =
      q.amendAll (calls ++ [.slice (.limit n), .slice (.offset m)])
  rewriting_commutes : ∀ c scope,
    q.amendAll (calls ++ [.slice c, .describe scope]) =
      q.amendAll (calls ++ [.describe scope, .slice c])

theorem settled {q : Query} (h : q.tree.count .slice ≤ 1) (calls : List Amendment) :
    q.Settled calls := by
  have houtcome := amendAll_eq_amended h calls
  have hslices := q.slices_amended calls
  have hone : (q.amendAll calls).tree.count .slice ≤ 1 := by
    rw [houtcome, hslices]
    split <;> omega
  have hnext (rest : List Amendment) :
      q.amendAll (calls ++ rest) = (q.amendAll calls).amended rest := by
    rw [amendAll_append, amendAll_eq_amended hone]
  refine ⟨hone, houtcome, ?_, ?_, fun a => kind_amend _ a, ?_, ?_, ?_⟩
  · intro c
    rw [amend_slice hone, houtcome, hslices]
    cases calls.any Amendment.isSlice with
    | true => simp
    | false => simp
  · intro scope
    rw [amend, houtcome, ← rewritable_amended]
    exact congrArg Answer.describe (described_applied _ scope)
  · intro n m
    rw [hnext, hnext]
    simp only [amended_slice, bounded_bounded]
    rfl
  · intro n m
    rw [hnext, hnext]
    simp only [amended_slice, bounded_bounded]
    rfl
  · intro c scope
    rw [hnext, hnext]
    simp only [amended_slice, amended_describe, described_bounded]

/-- With at most one slice, no call is refused and any calls come to the first rewriting and the
last bounds; with several slices, all bounds are refused and the query stays as it is. -/
theorem amendments_settle (q : Query) :
    (q.tree.count .slice ≤ 1 → ∀ calls, q.Settled calls) ∧
    (1 < q.tree.count .slice → ∀ calls c,
      (q.amendAll calls).amend (.slice c) =
        (.slice (.error (.severalSlices (q.tree.count .slice))), q.amendAll calls)) := by
  refine ⟨settled, ?_⟩
  intro h calls c
  have hcount := slices_amendAll h calls
  rw [amend_refused (lt_of_lt_of_eq h hcount.symm), hcount]

/-- A description of what is related to something, without repeats. -/
def describedDistinct : Query where
  kind := .describe [.var (.user "x")]
  tree := .modify .distinct (.modify (.select (.single Describe.columns))
    (.pattern ⟨.var (.user "x"), .var (.user "p"), .var (.user "y"), none⟩))
  dataset := Dataset.none

def slicedTwice : Query where
  kind := .select
  tree := .join (.modify (.slice (some 1) none) .unit) (.modify (.slice none (some 2)) .unit)
  dataset := Dataset.none

/-- The rewriting is asked for twice, between bounds. -/
def mixedCalls : List Amendment :=
  [.slice (.offset 20), .describe .namedGraphs, .slice (.limitAndOffset 10 30),
    .describe .defaultGraph, .slice (.limit 5)]

theorem mixedCalls_settle :
    describedDistinct.tree.count .slice ≤ 1 ∧ describedDistinct.Settled mixedCalls ∧
    1 < slicedTwice.tree.count .slice ∧
    (slicedTwice.amendAll mixedCalls).amend (.slice (.limit 3)) =
      (.slice (.error (.severalSlices 2)), slicedTwice.amendAll mixedCalls) := by
  have hone : describedDistinct.tree.count .slice ≤ 1 := by decide
  have hseveral : 1 < slicedTwice.tree.count .slice := by decide
  exact ⟨hone, (amendments_settle describedDistinct).1 hone mixedCalls, hseveral,
    (amendments_settle slicedTwice).2 hseveral mixedCalls (.limit 3)⟩

/-- The first rewriting stands below the last bounds. -/
example : describedDistinct.amendAll mixedCalls =
    (describedDistinct.describedByConstruct .namedGraphs).2.bounded (some 5) (some 30) := rfl

end Query

end RdfQuery
