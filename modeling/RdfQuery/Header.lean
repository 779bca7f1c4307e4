import RdfQuery.Outline

/-!
# Heads of queries

What a query answers with: columns that rename or compute bindings, or
statement templates whose positions hold a binding or a constant.
-/

set_option autoImplicit false

namespace RdfQuery

inductive Language where
  | sparql
  | serql
  deriving DecidableEq, Repr

def Language.name : Language → String
  | .sparql => "SPARQL"
  | .serql => "SeRQL"

inductive Feature where
  | severalSelections
  | repeatsOfStatements
  | datasets
  | askQueries
  | describeWithoutTargets
  deriving DecidableEq, Repr

def Feature.name : Feature → String
  | .severalSelections => "several select projections"
  | .repeatsOfStatements => "distinct or reduced construct"
  | .datasets => "dataset clauses"
  | .askQueries => "ask queries"
  | .describeWithoutTargets => "describe without targets"

/-- Why a query has no text in a language. -/
inductive RenderError where
  | node (language : Language) (kind : Kind)
  | position (language : Language) (kind : Kind)
  | feature (language : Language) (missing : Feature)
  deriving DecidableEq, Repr

def RenderError.message : RenderError → String
  | .node language kind => language.name ++ " renderer does not support " ++ kind.name ++ " nodes"
  | .position language kind =>
    language.name ++ " renderer cannot place a " ++ kind.name ++ " node here"
  | .feature language missing =>
    language.name ++ " renderer does not support " ++ missing.name

/-- A column of a select query. `computed` keeps the name of the binding it writes out. -/
inductive SelectItem where
  | plain (name : String)
  | renamed (source target : String)
  | computed (source : String) (expr : Expr) (target : String)

/-- A position of a statement template. `constant` keeps the name of the binding it writes out. -/
inductive TemplateTerm where
  | name (source : String)
  | constant (source : String) (value : Constant)

structure Template where
  subject : TemplateTerm
  predicate : TemplateTerm
  object : TemplateTerm

def Template.terms (t : Template) : List TemplateTerm := [t.subject, t.predicate, t.object]

def SelectItem.bindingName? : SelectItem → Option String
  | .computed source _ _ => some source
  | _ => none

def TemplateTerm.bindingName? : TemplateTerm → Option String
  | .constant source _ => some source
  | .name _ => none

def Repeats.text : Repeats → String
  | .kept => ""
  | .distinct => " distinct"
  | .reduced => " reduced"

namespace Outline

def item (o : Outline) (c : Column) : SelectItem :=
  match o.binding? c.source with
  | some e => .computed c.source e c.target
  | none => if c.source = c.target then .plain c.source else .renamed c.source c.target

/-- The items of the only list of columns; none stand for all bindings. -/
def items (language : Language) (o : Outline) : Except RenderError (List SelectItem) :=
  match o.lists with
  | [] => .ok []
  | [columns] => .ok (columns.map o.item)
  | _ => .error (.feature language .severalSelections)

def templateTerm (o : Outline) (source : String) : TemplateTerm :=
  match o.binding? source with
  | some (.const c) => .constant source c
  | _ => .name source

/-- The statement template a list of columns stands for. -/
def template? (o : Outline) (columns : Columns) : Option Template :=
  match columns with
  | [s, p, object] =>
    if columns.isTemplate then
      some ⟨o.templateTerm s.source, o.templateTerm p.source, o.templateTerm object.source⟩
    else none
  | _ => none

def templates (o : Outline) : List Template := o.lists.filterMap o.template?

end Outline

end RdfQuery
