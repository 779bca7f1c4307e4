import RdfQuery.Proofs.Expr.Parts
import RdfQuery.Proofs.Solution.Basic

/-!
# Values of expressions

An expression has a value in a solution, or an error in place of one. What
the functions and comparisons of constants give is left to a library; that a
test of a variable sees whether it is bound, and that a connective may be
decided by one side while the other is an error, is not.
-/

set_option autoImplicit false

namespace RdfQuery

/-- What is computed from constants alone; `none` is an error. -/
structure Library where
  truth : Constant → Option Bool
  function : TermFunction → Constant → Option Constant
  langMatches : (tag range : Constant) → Option Bool
  compare : Comparison → Constant → Constant → Option Bool
  regex : (text pattern : Constant) → (flags : Option Constant) → Option Bool
  call : Iri → List Constant → Option Constant

def Constant.boolean (b : Bool) : Constant := .literal (Literal.ofBool b)

theorem Constant.boolean_ne : boolean false ≠ boolean true := by decide +kernel

/-- The truth of Booleans is fixed; that of other constants is in the library. -/
def Library.truthOf (l : Library) (c : Constant) : Option Bool :=
  if c = .boolean true then some true else if c = .boolean false then some false else l.truth c

theorem Library.truthOf_boolean (l : Library) (b : Bool) : l.truthOf (.boolean b) = some b := by
  cases b with
  | true => rw [truthOf, if_pos rfl]
  | false => rw [truthOf, if_neg Constant.boolean_ne, if_pos rfl]

theorem Library.bind_truthOf_boolean (l : Library) (x : Option Bool) :
    (x.map Constant.boolean).bind l.truthOf = x := by
  cases x with
  | none => rfl
  | some b => exact l.truthOf_boolean b

/-- A false side decides, also beside an error. -/
def bothTrue : Option Bool → Option Bool → Option Bool
  | some false, _ => some false
  | _, some false => some false
  | some true, some true => some true
  | _, _ => none

/-- A true side decides, also beside an error. -/
def eitherTrue : Option Bool → Option Bool → Option Bool
  | some true, _ => some true
  | _, some true => some true
  | some false, some false => some false
  | _, _ => none

theorem bothTrue_eq_true {x y : Option Bool} :
    bothTrue x y = some true ↔ x = some true ∧ y = some true := by
  rcases x with _ | _ | _ <;> rcases y with _ | _ | _ <;> simp [bothTrue]

namespace Expr

mutual

def value (l : Library) (a : Solution) : Expr → Option Constant
  | .var v => a v.name
  | .const c => some c
  | .bound v => some (.boolean (a v.name).isSome)
  | .not e => ((value l a e).bind l.truthOf).map fun b => .boolean (!b)
  | .function f arg => (value l a arg).bind (l.function f)
  | .relation .sameTerm left right => do
    let x ← value l a left
    let y ← value l a right
    some (.boolean (x = y))
  | .relation .langMatches left right => do
    let x ← value l a left
    let y ← value l a right
    (l.langMatches x y).map .boolean
  | .operation .and left right =>
    (bothTrue ((value l a left).bind l.truthOf) ((value l a right).bind l.truthOf)).map .boolean
  | .operation .or left right =>
    (eitherTrue ((value l a left).bind l.truthOf) ((value l a right).bind l.truthOf)).map .boolean
  | .operation (.compare c) left right => do
    let x ← value l a left
    let y ← value l a right
    (l.compare c x y).map .boolean
  | .regex arg pattern => do
    let x ← value l a arg
    let y ← value l a pattern
    (l.regex x y none).map .boolean
  | .regexWith arg pattern flags => do
    let x ← value l a arg
    let y ← value l a pattern
    let z ← value l a flags
    (l.regex x y (some z)).map .boolean
  | .call name args => (values l a args).bind (l.call name)

def values (l : Library) (a : Solution) : List Expr → Option (List Constant)
  | [] => some []
  | e :: es => do
    let x ← value l a e
    let xs ← values l a es
    some (x :: xs)

end

/-- Filters keep the solutions that their condition is true in. -/
def Holds (l : Library) (a : Solution) (e : Expr) : Prop :=
  (e.value l a).bind l.truthOf = some true

def AllHold (l : Library) (es : List Expr) (a : Solution) : Prop := ∀ e ∈ es, e.Holds l a

theorem allHold_nil (l : Library) (a : Solution) : AllHold l [] a := fun _ h => nomatch h

theorem allHold_append {l : Library} {xs ys : List Expr} {a : Solution} :
    AllHold l (xs ++ ys) a ↔ AllHold l xs a ∧ AllHold l ys a := by
  simp only [AllHold, List.mem_append, or_imp, forall_and]

theorem allHold_singleton {l : Library} {e : Expr} {a : Solution} :
    AllHold l [e] a ↔ e.Holds l a := by
  simp only [AllHold, List.mem_singleton, forall_eq]

def names (e : Expr) : List String := e.variables.map Variable.name

theorem names_part {d e : Expr} (h : d ∈ e.parts) : d.names ⊆ e.names := by
  intro name hname
  obtain ⟨v, hv, rfl⟩ := List.mem_map.1 hname
  exact List.mem_map_of_mem (variables_part h hv)

theorem names_var (v : Variable) : v.name ∈ (Expr.var v).names := by
  simp [names, Expr.variables, walk, ownVariables]

theorem names_bound (v : Variable) : v.name ∈ (Expr.bound v).names := by
  simp [names, Expr.variables, walk, ownVariables]

theorem values_congr {l : Library} {a b : Solution} {es : List Expr}
    (h : ∀ e ∈ es, e.value l a = e.value l b) : values l a es = values l b es := by
  induction es with
  | nil => rfl
  | cons e es ih =>
    rw [values, values, h e (List.mem_cons_self ..), ih fun d hd => h d (List.mem_cons_of_mem _ hd)]

/-- The value depends on the variables that the expression mentions. -/
theorem value_congr {l : Library} {a b : Solution} {e : Expr}
    (h : ∀ name ∈ e.names, a name = b name) : e.value l a = e.value l b := by
  induction e using parts_induction with
  | step e ih =>
    have hparts : ∀ d ∈ e.parts, d.value l a = d.value l b :=
      fun d hd => ih d hd fun name hname => h name (names_part hd hname)
    cases e with
    | var v => exact h v.name (names_var v)
    | const c => rfl
    | bound v => rw [value, value, h v.name (names_bound v)]
    | call name args =>
      have hargs : values l a args = values l b args := values_congr hparts
      rw [value, value, hargs]
    | relation r left right =>
      have hleft := hparts left (by simp [parts])
      have hright := hparts right (by simp [parts])
      cases r <;> rw [value, value, hleft, hright]
    | operation op left right =>
      have hleft := hparts left (by simp [parts])
      have hright := hparts right (by simp [parts])
      cases op <;> rw [value, value, hleft, hright]
    | not e => rw [value, value, hparts e (by simp [parts])]
    | function f arg => rw [value, value, hparts arg (by simp [parts])]
    | regex arg pattern =>
      rw [value, value, hparts arg (by simp [parts]), hparts pattern (by simp [parts])]
    | regexWith arg pattern flags =>
      rw [value, value, hparts arg (by simp [parts]), hparts pattern (by simp [parts]),
        hparts flags (by simp [parts])]

theorem holds_congr {l : Library} {a b : Solution} {e : Expr}
    (h : ∀ name ∈ e.names, a name = b name) : e.Holds l a ↔ e.Holds l b := by
  rw [Holds, Holds, value_congr h]

theorem holds_and {l : Library} {a : Solution} {left right : Expr} :
    (Expr.operation .and left right).Holds l a ↔ left.Holds l a ∧ right.Holds l a := by
  rw [Holds, value, l.bind_truthOf_boolean, bothTrue_eq_true]
  rfl

theorem holds_bound {l : Library} {a : Solution} {v : Variable} :
    (Expr.bound v).Holds l a ↔ a.Binds v.name := by
  rw [Holds, value, Option.bind_some, l.truthOf_boolean, Option.some.injEq,
    Option.isSome_iff_ne_none]
  rfl

theorem holds_not_bound {l : Library} {a : Solution} {v : Variable} :
    (Expr.not (.bound v)).Holds l a ↔ ¬ a.Binds v.name := by
  rw [Holds, value, value, Option.bind_some, l.truthOf_boolean, Option.map_some, Option.bind_some,
    l.truthOf_boolean, Option.some.injEq, Bool.not_eq_true', ← Bool.not_eq_true,
    Option.isSome_iff_ne_none]
  rfl

end Expr

end RdfQuery
