import RdfQuery.Proofs.Expr.Reader

/-!
# Reading terms and expressions in SPARQL

The first character tells what an operand is: a parenthesis, a negation, a
variable, a constant, or the word of a call. The reader has a bound on how
deep it goes, which the length of the text is enough for.
-/

set_option autoImplicit false

namespace RdfQuery.Sparql

theorem spelling_distinct : spelling.Distinct where
  operator?_operator := by
    intro op
    rcases op with _ | _ | c
    · decide
    · decide
    · cases c <;> decide
  no_blank_operator := by
    intro op
    rcases op with _ | _ | c
    · decide
    · decide
    · cases c <;> decide
  function?_function := by
    intro f
    cases f <;> decide
  function_isWord := by
    intro f
    cases f <;> decide
  function_ne_bound := by
    intro f
    cases f <;> decide

/-! ## Terms -/

def readVariable (cs : List Char) : Variable × List Char :=
  (.user (String.ofList (cs.takeWhile Text.inWord)), cs.dropWhile Text.inWord)

theorem readVariable_append {v : Variable} (hv : Text.IsWord v.name) {rest : List Char}
    (hrest : Text.Delimited rest) : readVariable (v.name.toList ++ rest) = (v.plain, rest) := by
  obtain ⟨htake, hdrop⟩ := Text.inWord_span hv (Text.takeWhile_inWord_of_delimited hrest)
  rw [readVariable, htake, hdrop, String.ofList_toList, Variable.plain]

def readTerm : Reader Term
  | '?' :: cs => some (.var (readVariable cs).1, (readVariable cs).2)
  | cs => (Constant.read? cs).map fun r => (.const r.1, r.2)

/-- The characters constants begin with. -/
theorem constant_head (c : Constant) :
    ∃ first tail, (NTriples.constant c).toList = first :: tail ∧ first ∈ ['<', '_', '"'] := by
  cases c with
  | iri i => exact ⟨'<', (i.text ++ ">").toList, by simp [NTriples.constant, NTriples.iri], by simp⟩
  | blank label => exact ⟨'_', ':' :: label.text.toList, by simp [NTriples.constant], by simp⟩
  | literal l =>
    obtain ⟨tail, htail⟩ := NTriples.literal_head l
    exact ⟨'"', tail, htail, by simp⟩

theorem readTerm_append {t : Term} (ht : t.Worded) {rest : List Char}
    (hrest : Text.Delimited rest) :
    readTerm ((term Naming.full t).toList ++ rest) = some (t.plain, rest) := by
  cases t with
  | var v =>
    have hmark : "?".toList = ['?'] := rfl
    have hv : Text.IsWord v.name := ht v (by simp [Term.variables])
    simp only [term, Spelling.term, spelling, variableText, String.toList_append, hmark,
      List.cons_append, List.nil_append, readTerm, readVariable_append hv hrest, Term.plain]
  | const c =>
    have hread := Constant.read?_constant c hrest
    obtain ⟨first, tail, htext, hfirst⟩ := constant_head c
    simp only [term, Spelling.term, Naming.full_constant, htext, List.cons_append] at hread ⊢
    rw [readTerm, hread]
    · rfl
    · rintro cs ⟨⟩
      revert hfirst
      decide

/-! ## Operands -/

/-- Reads on after the opening parenthesis. -/
def readBracketed (inner : Reader Expr) : Reader Expr := fun cs =>
  (inner cs).bind fun e =>
    match e.2 with
    | ')' :: rest => some (e.1, rest)
    | _ => none

/-- An IRI is a constant, or names the function of a call. -/
def readNamed (args : Reader (List Expr)) : Reader Expr := fun cs =>
  (Iri.read? cs).bind fun name =>
    match name.2 with
    | '(' :: rest => (args rest).map fun es => (.call name.1 es.1, es.2)
    | rest => some (.const (.iri name.1), rest)

def readWordCall (args : Reader (List Expr)) : Reader Expr := fun cs =>
  match cs.dropWhile Text.inWord with
  | '(' :: rest =>
    (args rest).bind fun es =>
      (spelling.wordCall? (cs.takeWhile Text.inWord) es.1).map fun e => (e, es.2)
  | _ => none

def readConstant : Reader Expr := fun cs => (Constant.read? cs).map fun c => (.const c.1, c.2)

def readOperand : (depth : Nat) → Reader Expr
  | 0, _ => none
  | depth + 1, cs =>
    let item := spelling.readInfix (readOperand depth)
    match cs with
    | '(' :: cs => readBracketed item cs
    | '!' :: cs => (readOperand depth cs).map fun e => (.not e.1, e.2)
    | '?' :: cs => some (.var (readVariable cs).1, (readVariable cs).2)
    | '<' :: cs => readNamed (Spelling.readArgs item depth) cs
    | '_' :: cs => readConstant ('_' :: cs)
    | '"' :: cs => readConstant ('"' :: cs)
    | cs => readWordCall (Spelling.readArgs item depth) cs

/-- An expression up to its end. -/
def readExpr : Reader Expr := fun cs => spelling.readInfix (readOperand cs.length) cs

theorem readOperand_close (depth : Nat) (cs : List Char) :
    readOperand depth (')' :: cs) = none := by
  cases depth with
  | zero => rfl
  | succ depth => rfl

/-- Words are read as words: they begin with none of the signs. -/
theorem readOperand_word {word : String} (hword : Text.IsWord word) {first : Char}
    (hfirst : word.toList.head? = some first) (hletter : first ≠ '_') (depth : Nat)
    (cs : List Char) :
    readOperand (depth + 1) (word.toList ++ '(' :: cs) =
      (Spelling.readArgs (spelling.readInfix (readOperand depth)) depth cs).bind fun es =>
        (spelling.wordCall? word.toList es.1).map fun e => (e, es.2) := by
  obtain ⟨htake, hdrop⟩ := Text.inWord_span hword
    (show ('(' :: cs).takeWhile Text.inWord = [] from rfl)
  have hcall : readOperand (depth + 1) (word.toList ++ '(' :: cs) =
      readWordCall (Spelling.readArgs (spelling.readInfix (readOperand depth)) depth)
        (word.toList ++ '(' :: cs) := by
    obtain ⟨tail, htail⟩ : ∃ tail, word.toList = first :: tail := by
      cases htext : word.toList with
      | nil => rw [htext] at hfirst; cases hfirst
      | cons c tail =>
        rw [htext] at hfirst
        exact ⟨tail, by rw [Option.some.inj hfirst]⟩
    have hin : Text.inWord first = true := hword first (by rw [htail]; exact List.mem_cons_self ..)
    rw [htail, List.cons_append, readOperand]
    all_goals
      rintro rest ⟨⟩
      first
        | exact absurd hin (by decide)
        | exact hletter rfl
  rw [hcall, readWordCall, hdrop]
  simp only [htake]

theorem call_toList (name : String) (args : List String) (rest : List Char) :
    (Spelling.call name args).toList ++ rest =
      name.toList ++ '(' :: ((Text.separated ", " args).toList ++ ')' :: rest) := by
  have hopen : "(".toList = ['('] := rfl
  have hclose : ")".toList = [')'] := rfl
  simp only [Spelling.call, String.toList_append, hopen, hclose, List.append_assoc,
    List.cons_append, List.nil_append]

/-! ## Reading what was written -/

/-- The first character of what follows an operand is enough. -/
theorem admits_delimited : spelling.Admits Expr.Worded Text.Delimited where
  part := Expr.worded_part
  ended := Text.Ended.delimited
  continued := fun _ _ _ _ _ => Text.Delimited.blank _

/-- A call by a word is read as the expression that the word makes of the arguments. -/
theorem readOperand_call {depth : Nat}
    (ih : ∀ e : Expr, e.size ≤ depth → e.Worded →
      spelling.Reads Text.Delimited (readOperand depth) e)
    {word : String} (hword : Text.IsWord word) {first : Char}
    (hfirst : word.toList.head? = some first) (hletter : first ≠ '_') (es : List Expr)
    (hsize : Expr.sizeAll es ≤ depth) (hes : ∀ e ∈ es, e.Worded) {e : Expr}
    (he : spelling.wordCall? word.toList (Expr.plainAll es) = some e) (rest : List Char) :
    readOperand (depth + 1)
        ((Spelling.call word (spelling.exprs Naming.full es)).toList ++ rest) =
      some (e, rest) := by
  have hargs := Spelling.readArgs_exprs spelling_distinct admits_delimited ih
    (readOperand_close depth) hsize hes rest
  rw [call_toList, readOperand_word hword hfirst hletter, hargs, Option.bind_some, he,
    Option.map_some]

theorem readNamed_constant (args : Reader (List Expr)) (i : Iri) {rest : List Char}
    (hrest : Text.Delimited rest) :
    readNamed args (i.text.toList ++ '>' :: rest) = some (.const (.iri i), rest) := by
  rw [readNamed, Iri.read?_text, Option.bind_some]
  cases rest with
  | nil => rfl
  | cons c rest => rcases hrest with rfl | rfl | rfl | ⟨rfl, -⟩ <;> rfl

theorem reads_constant (depth : Nat) (c : Constant) :
    spelling.Reads Text.Delimited (readOperand (depth + 1)) (.const c) := by
  intro rest hrest
  have hread := Constant.read?_constant c hrest
  have htext : spelling.nested Naming.full (.const c) = NTriples.constant c := by
    rw [Spelling.nested, Spelling.operand, if_neg (by simp [Expr.isOperation]),
      Spelling.expr, Naming.full_constant]
  rw [htext]
  cases c with
  | iri i =>
    have hopen : "<".toList = ['<'] := rfl
    have hclose : ">".toList = ['>'] := rfl
    simp only [NTriples.constant, NTriples.iri, String.toList_append, hopen, hclose,
      List.append_assoc, List.cons_append, List.nil_append, readOperand,
      readNamed_constant _ i hrest, Expr.plain]
  | blank label =>
    have hopen : "_:".toList = ['_', ':'] := rfl
    simp only [NTriples.constant, String.toList_append, hopen, List.cons_append,
      List.nil_append] at hread ⊢
    simp only [readOperand, readConstant, hread, Option.map_some, Expr.plain]
  | literal l =>
    obtain ⟨tail, htail⟩ := NTriples.literal_head l
    rw [NTriples.constant, htail, List.cons_append] at hread ⊢
    simp only [readOperand, readConstant, hread, Option.map_some, Expr.plain]

/-- Every expression is read again where it stands as an operand. -/
theorem reads_expr (depth : Nat) : ∀ e : Expr, e.size ≤ depth → e.Worded →
    spelling.Reads Text.Delimited (readOperand depth) e := by
  induction depth with
  | zero =>
    intro e hsize
    have := Expr.size_pos e
    omega
  | succ depth ih =>
    intro e hsize he rest hrest
    cases e with
    | var v =>
      have hmark : "?".toList = ['?'] := rfl
      show readOperand (depth + 1) (("?" ++ v.name).toList ++ rest) = _
      rw [String.toList_append, hmark, List.cons_append, List.nil_append]
      simp only [List.cons_append, readOperand, readVariable_append (Expr.isWord_var he) hrest,
        Expr.plain]
    | const c => exact reads_constant depth c rest hrest
    | bound v =>
      rw [Expr.size] at hsize
      have hv : (Expr.var v).Worded := by
        intro w hw
        exact he w (by simpa [Expr.variables, Expr.walk, Expr.ownVariables] using hw)
      exact readOperand_call ih (by decide) rfl (by decide) [.var v]
        (by simp only [Expr.sizeAll, Expr.size]; omega) (by simpa using hv)
        (Spelling.wordCall?_bound spelling v.plain) rest
    | not e =>
      have hmark : "!".toList = ['!'] := rfl
      rw [Expr.size] at hsize
      show readOperand (depth + 1) (("!" ++ spelling.nested Naming.full e).toList ++ rest) = _
      rw [String.toList_append, hmark, List.cons_append, List.nil_append]
      simp only [List.cons_append, readOperand,
        ih e (by omega) (Expr.worded_part he (List.mem_singleton_self e)) rest hrest,
        Option.map_some, Expr.plain]
    | function f arg =>
      rw [Expr.size] at hsize
      obtain ⟨first, hfirst, hletter⟩ :
          ∃ first, (functionName f).toList.head? = some first ∧ first ≠ '_' := by
        cases f <;> exact ⟨_, rfl, by decide⟩
      exact readOperand_call ih (spelling_distinct.function_isWord f) hfirst hletter [arg]
        (by simp only [Expr.sizeAll]; omega) (fun _ => Expr.worded_part he)
        (Spelling.wordCall?_function spelling_distinct f arg.plain) rest
    | relation r left right =>
      rw [Expr.size] at hsize
      obtain ⟨first, hfirst, hletter⟩ :
          ∃ first, r.name.toList.head? = some first ∧ first ≠ '_' := by
        cases r <;> exact ⟨_, rfl, by decide⟩
      exact readOperand_call ih (Spelling.relation_isWord r) hfirst hletter [left, right]
        (by simp only [Expr.sizeAll]; omega) (fun _ => Expr.worded_part he)
        (Spelling.wordCall?_relation spelling r left.plain right.plain) rest
    | operation op left right =>
      have hopen : "(".toList = ['('] := rfl
      have hclose : ")".toList = [')'] := rfl
      have hinner := Spelling.readInfix_of_reads spelling_distinct admits_delimited ih he hsize
        (Text.Ended.close rest)
      rw [Spelling.nested_operation]
      simp only [String.toList_append, hopen, hclose, List.append_assoc, List.cons_append,
        List.nil_append, readOperand, readBracketed, hinner, Option.bind_some]
    | regex arg pattern =>
      rw [Expr.size] at hsize
      exact readOperand_call ih (by decide) rfl (by decide) [arg, pattern]
        (by simp only [Expr.sizeAll]; omega) (fun _ => Expr.worded_part he)
        (Spelling.wordCall?_regex spelling arg.plain pattern.plain) rest
    | regexWith arg pattern flags =>
      rw [Expr.size] at hsize
      exact readOperand_call ih (by decide) rfl (by decide) [arg, pattern, flags]
        (by simp only [Expr.sizeAll]; omega) (fun _ => Expr.worded_part he)
        (Spelling.wordCall?_regexWith spelling arg.plain pattern.plain flags.plain) rest
    | call name args =>
      have hopen : "<".toList = ['<'] := rfl
      have hclose : ">".toList = ['>'] := rfl
      rw [Expr.size] at hsize
      show readOperand (depth + 1)
        ((Spelling.call (NTriples.iri name) (spelling.exprs Naming.full args)).toList ++ rest) = _
      have hargs := Spelling.readArgs_exprs spelling_distinct admits_delimited ih
        (readOperand_close depth) (show Expr.sizeAll args ≤ depth by omega)
        (fun _ => Expr.worded_part he) rest
      rw [call_toList]
      simp only [NTriples.iri, String.toList_append, hopen, hclose, List.append_assoc,
        List.cons_append, List.nil_append, readOperand, readNamed, Iri.read?_text,
        Option.bind_some, hargs, Option.map_some, Expr.plain]

/-! ## Texts are long enough to be read -/

theorem length_le_nested (e : Expr) :
    (spelling.expr Naming.full e).length ≤ (spelling.nested Naming.full e).length := by
  rw [Spelling.nested, Spelling.operand]
  split
  · simp only [String.length_append]
    omega
  · exact Nat.le_refl _

theorem length_call (name : String) (args : List String) :
    (Spelling.call name args).length =
      name.length + 1 + (Text.separated ", " args).length + 1 := by
  have hopen : "(".length = 1 := rfl
  have hclose : ")".length = 1 := rfl
  simp only [Spelling.call, String.length_append, hopen, hclose]

mutual

theorem size_le_length : ∀ e : Expr, e.size ≤ (spelling.expr Naming.full e).length
  | .var v => by
    have hmark : "?".length = 1 := rfl
    simp only [Expr.size, Spelling.expr, spelling, variableText, String.length_append, hmark]
    omega
  | .const c => by
    obtain ⟨first, tail, htext, -⟩ := constant_head c
    rw [Expr.size, Spelling.expr, Naming.full_constant, ← String.length_toList, htext,
      List.length_cons]
    omega
  | .bound v => by
    rw [Expr.size, Spelling.expr, length_call]
    omega
  | .not e => by
    have hmark : "!".length = 1 := rfl
    have := size_le_length e
    have := length_le_nested e
    rw [Expr.size, show spelling.expr Naming.full (.not e) = "!" ++ spelling.nested Naming.full e
      from rfl, String.length_append]
    omega
  | .function f arg => by
    have := size_le_length arg
    rw [Expr.size, Spelling.expr, length_call, Text.separated]
    omega
  | .relation r left right => by
    have := size_le_length left
    have := size_le_length right
    rw [Expr.size, Spelling.expr, length_call]
    simp only [Text.separated, String.length_append]
    omega
  | .operation op left right => by
    have hblank : " ".length = 1 := rfl
    have := size_le_length left
    have := length_le_nested left
    have := size_le_length right
    have := length_le_nested right
    rw [Expr.size, Spelling.expr_operation]
    simp only [String.length_append]
    omega
  | .regex arg pattern => by
    have := size_le_length arg
    have := size_le_length pattern
    rw [Expr.size, Spelling.expr, length_call]
    simp only [Text.separated, String.length_append]
    omega
  | .regexWith arg pattern flags => by
    have := size_le_length arg
    have := size_le_length pattern
    have := size_le_length flags
    rw [Expr.size, Spelling.expr, length_call]
    simp only [Text.separated, String.length_append]
    omega
  | .call name args => by
    have := sizeAll_le_length args
    rw [Expr.size, Spelling.expr, length_call]
    omega

theorem sizeAll_le_length : ∀ es : List Expr,
    Expr.sizeAll es ≤ (Text.separated ", " (spelling.exprs Naming.full es)).length
  | [] => Nat.zero_le _
  | [e] => by
    have := size_le_length e
    rw [Expr.sizeAll, Expr.sizeAll]
    exact this
  | e :: d :: es => by
    have := size_le_length e
    have := sizeAll_le_length (d :: es)
    rw [Spelling.exprs] at this
    rw [Expr.sizeAll, Spelling.exprs, Spelling.exprs, Text.separated]
    simp only [String.length_append]
    omega

end

/-- Every expression is read again, up to the marks of its anonymous variables. -/
theorem readExpr_append {e : Expr} (he : e.Worded) {rest : List Char} (hrest : Text.Ended rest) :
    readExpr ((expr Naming.full e).toList ++ rest) = some (e.plain, rest) := by
  have hsize := size_le_length e
  apply Spelling.readsItem_infix spelling_distinct admits_delimited (reads_expr _) _ he rest hrest
  rw [List.length_append, String.length_toList]
  exact Nat.le_add_right_of_le hsize

end RdfQuery.Sparql
