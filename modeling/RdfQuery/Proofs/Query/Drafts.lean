import Mathlib.Data.List.Forall2
import RdfQuery.Proofs.Group.Recorded
import RdfQuery.Proofs.Query.Amendments
import RdfQuery.Query.Calls

/-!
# Drafts of queries

After any calls a draft holds what the calls gave, each sort in the order of the
calls: lists grow, marks stay set, and of the bounds the last one written counts. Of
the groups it holds those that could be built, and of the errors the first.
-/

set_option autoImplicit false

namespace RdfQuery

namespace QueryCall

@[simp] def names : QueryCall → List String
  | .project names => names
  | _ => []

@[simp] def statement? : QueryCall → Option Statement
  | .statement s => some s
  | _ => none

@[simp] def isDistinct : QueryCall → Bool
  | .distinct => true
  | _ => false

@[simp] def isReduced : QueryCall → Bool
  | .reduced => true
  | _ => false

@[simp] def limit? : QueryCall → Option Nat
  | .limit n => some n
  | _ => none

@[simp] def offset? : QueryCall → Option Nat
  | .offset n => some n
  | _ => none

@[simp] def key? : QueryCall → Option SortKey
  | .orderBy key => some key
  | _ => none

@[simp] def defaultGraph? : QueryCall → Option Iri
  | .fromGraph g => some g
  | _ => none

@[simp] def namedGraph? : QueryCall → Option Iri
  | .fromNamed g => some g
  | _ => none

@[simp] def group? : QueryCall → Option (List GroupCall)
  | .group calls => some calls
  | _ => none

/-- The groups among the calls, each as the calls that build it. -/
@[simp] def groups (calls : List QueryCall) : List (List GroupCall) := calls.filterMap group?

end QueryCall

namespace QueryDraft

open QueryCall

/-- The draft with all that the calls give to it. -/
def given (d : QueryDraft) (calls : List QueryCall) : QueryDraft where
  kind := d.kind
  groups := d.groups ++ (QueryCall.groups calls).filterMap fun cs => (Group.build cs).toOption
  names := d.names ++ calls.flatMap QueryCall.names
  statements := d.statements ++ calls.filterMap statement?
  distinct := d.distinct || calls.any isDistinct
  reduced := d.reduced || calls.any isReduced
  limit := ((calls.filterMap limit?).getLast?).or d.limit
  offset := ((calls.filterMap offset?).getLast?).or d.offset
  order := d.order ++ calls.filterMap key?
  dataset :=
    ⟨d.dataset.defaultGraphs ++ calls.filterMap defaultGraph?,
      d.dataset.namedGraphs ++ calls.filterMap namedGraph?⟩
  error? := d.error?.or ((QueryCall.groups calls).findSome? fun cs =>
    Outcome.error? (Group.build cs))

theorem given_nil (d : QueryDraft) : d.given [] = d := by
  simp [given, QueryCall.groups]

theorem given_cons (d : QueryDraft) (c : QueryCall) (calls : List QueryCall) :
    (d.call c).given calls = d.given (c :: calls) := by
  have hlast (f : QueryCall → Option Nat) := Query.getLast?_filterMap_cons f c calls
  cases c with
  | group cs =>
    cases hbuild : Group.build cs with
    | error e =>
      simp only [given, call, hlast]
      simp [addGroup, hbuild, Outcome.error?, Except.toOption, List.filterMap_cons]
    | ok g =>
      simp only [given, call, hlast]
      simp [addGroup, hbuild, Outcome.error?, Except.toOption, List.filterMap_cons]
  | _ =>
    simp only [given, call, hlast]
    simp [List.filterMap_cons]

/-- Calls made one after the other come to the same as the closed form. -/
theorem callAll_eq_given (d : QueryDraft) (calls : List QueryCall) :
    d.callAll calls = d.given calls := by
  induction calls generalizing d with
  | nil => exact (given_nil d).symm
  | cons c calls ih => rw [callAll, ih, given_cons]

/-! ## Compiling the groups -/

theorem error?_compileGroups (acc : Option Tree) (gs : List Group) :
    Outcome.error? (compileGroups acc gs) = (Group.subgroupsAll gs).findSome? Group.flaw? := by
  induction gs generalizing acc with
  | nil => rfl
  | cons g gs ih =>
    rw [compileGroups, Group.subgroupsAll, List.findSome?_append, ← Group.error?_compile g]
    exact Outcome.error?_bind fun t _ => ih _

/-- The groups are compiled one by one and joined from left to right. -/
theorem compileGroups_eq_ok {acc body : Option Tree} {gs : List Group} :
    compileGroups acc gs = .ok body ↔
      ∃ ts, List.Forall₂ (fun g t => Group.compile g = .ok t) gs ts ∧
        body = match acc with
          | none => Tree.joined? ts
          | some t => some (ts.foldl Tree.join t) := by
  induction gs generalizing acc with
  | nil =>
    have hnil : (match acc with
        | none => Tree.joined? []
        | some t => some (List.foldl Tree.join t [])) = acc := by
      cases acc <;> rfl
    simp only [compileGroups, List.forall₂_nil_left_iff, exists_eq_left, hnil, Except.ok.injEq,
      eq_comm]
  | cons g gs ih =>
    simp only [compileGroups, Outcome.bind_eq_ok, ih, List.forall₂_cons_left_iff]
    constructor
    · rintro ⟨t, ht, ts, hts, rfl⟩
      refine ⟨t :: ts, ⟨t, ts, ht, hts, rfl⟩, ?_⟩
      cases acc <;> rfl
    · rintro ⟨-, ⟨t, ts, ht, hts, rfl⟩, rfl⟩
      refine ⟨t, ht, ts, hts, ?_⟩
      cases acc <;> rfl

end QueryDraft

end RdfQuery
