import RdfQuery.Proofs.Serql.Bounds
import RdfQuery.Proofs.Sparql.Bounds

/-!
# Bounds in texts

A text shows the limit and the offset of its query on lines of their own. A
call that writes bounds changes these lines as it says and leaves the rest of
the text as it is; a query without a text is refused as before.
-/

set_option autoImplicit false

namespace RdfQuery

namespace Language

def render : Language → Style → Query → Except RenderError String
  | .sparql => Sparql.render
  | .serql => Serql.render

/-- The text of a query, its bounds apart. -/
def frame : Language → Style → Query → Except RenderError Framed
  | .sparql => Sparql.frame
  | .serql => Serql.frame

theorem render_eq_frame (l : Language) (s : Style) (q : Query) :
    l.render s q = (l.frame s q).map Framed.text := by
  cases l with
  | sparql => exact Sparql.render_eq_frame s q
  | serql => exact Serql.render_eq_frame s q

theorem frame_bounded (l : Language) (s : Style) (limit offset : Option Nat) {q : Query}
    (h : q.tree.count .slice ≤ 1) :
    l.frame s (q.bounded limit offset) = (l.frame s q).map (Framed.bounded limit offset) := by
  cases l with
  | sparql => exact Sparql.frame_bounded limit offset s h
  | serql => exact Serql.frame_bounded limit offset s h

theorem closed_of_frame {l : Language} {s : Style} {q : Query} {f : Framed}
    (h : l.frame s q = .ok f) : f.Closed := by
  cases l with
  | sparql => exact Sparql.closed_of_frame h
  | serql => exact Serql.closed_of_frame h

/-- A call that is not refused writes its bounds to the text, if there is one. -/
theorem frame_write (l : Language) (s : Style) {q q' : Query} {c : SliceCall} {change : SliceChange}
    (h : q.write c = .ok (change, q')) :
    l.frame s q' = (l.frame s q).map (Framed.bounded c.limit? c.offset?) := by
  obtain ⟨hcount, rfl⟩ := Query.write_cases h
  exact l.frame_bounded s c.limit? c.offset? hcount

end Language

namespace Query

/-- A text differs before and after a call only in the lines of the bounds, which show what was
written last. An error stays the same. A limit that was accepted is never missing from a text. -/
theorem bounds_shown (l : Language) (s : Style) (q : Query) :
    (∀ text, l.render s q = .ok text → ∃ f : Framed, f.text = text ∧ f.Closed ∧
      ∀ c change q', q.write c = .ok (change, q') →
        l.render s q' = .ok (f.bounded c.limit? c.offset?).text) ∧
    (∀ e, l.render s q = .error e → ∀ c change q', q.write c = .ok (change, q') →
      l.render s q' = .error e) ∧
    ∀ c change q' n text, q.write c = .ok (change, q') → c.limit? = some n →
      l.render s q' = .ok text → ∃ f : Framed, f.text = text ∧ f.Closed ∧ f.limit = some n := by
  refine ⟨?_, ?_, ?_⟩
  · intro text htext
    rw [l.render_eq_frame] at htext
    obtain ⟨f, hf, rfl⟩ := Outcome.map_eq_ok.1 htext
    refine ⟨f, rfl, Language.closed_of_frame hf, ?_⟩
    intro c change q' hwrite
    rw [l.render_eq_frame, l.frame_write s hwrite, hf]
    rfl
  · intro e he c change q' hwrite
    rw [l.render_eq_frame] at he ⊢
    rw [l.frame_write s hwrite]
    cases hf : l.frame s q with
    | error e' =>
      rw [hf] at he
      exact he
    | ok f =>
      rw [hf] at he
      cases he
  · intro c change q' n text hwrite hlimit htext
    rw [l.render_eq_frame] at htext
    obtain ⟨f', hf', rfl⟩ := Outcome.map_eq_ok.1 htext
    refine ⟨f', rfl, Language.closed_of_frame hf', ?_⟩
    rw [l.frame_write s hwrite] at hf'
    obtain ⟨f, -, rfl⟩ := Outcome.map_eq_ok.1 hf'
    rw [Framed.bounded, hlimit, Option.some_or]

/-- The text of `Serql.optionalIn "g"`. -/
def optionalText : Language → String
  | .sparql => "select ?x\nwhere \x7b\n  GRAPH ?g \x7b\n    ?x ?p ?y.\n" ++
      "    OPTIONAL \x7b\n      ?x ?p ?z.\n    \x7d.\n  \x7d.\n\x7d"
  | .serql => "select x\nfrom context g\n  \x7bx\x7d p \x7by\x7d,\n  [\x7bx\x7d p \x7bz\x7d]"

/-- In both languages, two bounds that are written come as two lines below the text. A query that
SeRQL refuses stays refused. -/
theorem optionalIn_bounds_shown :
    (∃ q', (Serql.optionalIn "g").write (.limitAndOffset 10 20) = .ok (.inserted, q') ∧
      ∀ l : Language, l.render Style.default (Serql.optionalIn "g") = .ok (optionalText l) ∧
        l.render Style.default q' = .ok (optionalText l ++ "\nlimit 10\noffset 20") ∧
        (∃ f : Framed, f.text = optionalText l ∧ f.Closed ∧
          (f.bounded (some 10) (some 20)).text = optionalText l ++ "\nlimit 10\noffset 20") ∧
        ∃ f : Framed, f.text = optionalText l ++ "\nlimit 10\noffset 20" ∧ f.Closed ∧
          f.limit = some 10) ∧
    ∃ q', (Serql.optionalIn "h").write (.offset 20) = .ok (.inserted, q') ∧
      Language.serql.render Style.default q' = .error (.position .serql .leftJoin) := by
  obtain ⟨-, hrefused, -⟩ := bounds_shown .serql Style.default (Serql.optionalIn "h")
  refine ⟨⟨_, rfl, ?_⟩, _, rfl, hrefused _ rfl (.offset 20) .inserted _ rfl⟩
  intro l
  obtain ⟨hshown, -, hlimit⟩ := bounds_shown l Style.default (Serql.optionalIn "g")
  have htext : l.render Style.default (Serql.optionalIn "g") = .ok (optionalText l) := by
    cases l <;> rfl
  have htext' : l.render Style.default ((Serql.optionalIn "g").bounded (some 10) (some 20)) =
      .ok (optionalText l ++ "\nlimit 10\noffset 20") := by cases l <;> rfl
  obtain ⟨f, hf, hclosed, hcalls⟩ := hshown _ htext
  have hbounded := hcalls (.limitAndOffset 10 20) .inserted _ rfl
  exact ⟨htext, htext', ⟨f, hf, hclosed, Except.ok.inj (hbounded.symm.trans htext')⟩,
    hlimit (.limitAndOffset 10 20) .inserted _ 10 _ rfl rfl htext'⟩

end Query

end RdfQuery
