import RdfQuery.Proofs.Gathering
import RdfQuery.Proofs.Naming.Declarations

/-!
# Compaction and expansion

An IRI is compacted with the longest namespace it starts with, under the prefix
of that namespace that stands last in the order of registration; whether the
rest is a local name is asked afterwards, so shorter namespaces get no turn.
Where no prefix has a colon, expanding the name gives the IRI back.
-/

set_option autoImplicit false

namespace RdfQuery

namespace PrefixTable

/-! ## Tables that registrations lead to -/

/-- What a table may start from. -/
inductive Seed where
  | empty
  | wellKnown

def Seed.table : Seed → PrefixTable
  | .empty => OrderedMap.empty
  | .wellKnown => PrefixTable.wellKnown

/-- The table after these prefixes, too, were bound to their namespaces one after the other. -/
def registered (seed : Seed) (calls : List (String × String)) : PrefixTable :=
  seed.table.insertAll calls

/-- All registrations, those of the seed first. -/
def history (seed : Seed) (calls : List (String × String)) : List (String × String) :=
  seed.table.entries ++ calls

theorem registered_eq (seed : Seed) (calls : List (String × String)) :
    registered seed calls = OrderedMap.ofList (history seed calls) := by
  have hseed : seed.table = OrderedMap.ofList seed.table.entries :=
    OrderedMap.ext (OrderedMap.entries_ofList seed.table.distinct).symm
  rw [registered, history, OrderedMap.ofList, OrderedMap.insertAll_append]
  exact congrArg (OrderedMap.insertAll · calls) hseed

/-- The prefix was bound to this namespace and not bound again. -/
def Binds (rs : List (String × String)) (name ns : String) : Prop :=
  (OrderedMap.itemsOf name rs).getLast? = some ns

/-- A prefix that is bound again keeps its place. -/
def order (rs : List (String × String)) : List String := firsts (rs.map Prod.fst)

theorem mem_entries_ofList {rs : List (String × String)} {name ns : String} :
    (name, ns) ∈ (OrderedMap.ofList rs).entries ↔ Binds rs name ns := by
  rw [Binds, ← OrderedMap.get?_ofList]
  exact ⟨Entries.find?_of_mem (OrderedMap.ofList rs).distinct, Entries.mem_of_find?⟩

/-! ## The longest namespace -/

/-- The namespace is bound to some prefix, the IRI starts with it, and with no longer one. -/
structure Longest (rs : List (String × String)) (iri ns : String) : Prop where
  bound : ∃ name, Binds rs name ns
  starts : ns.toList <+: iri.toList
  longest : ∀ name other, Binds rs name other → other.toList <+: iri.toList →
    other.length ≤ ns.length

/-- The prefix is bound to the namespace, and none that stands behind it is. -/
def LastBound (rs : List (String × String)) (name ns : String) : Prop :=
  Binds rs name ns ∧
    ∃ before after, order rs = before ++ name :: after ∧ ∀ other ∈ after, ¬ Binds rs other ns

/-- Letters, digits and underscores of ASCII, and hyphens but not in the first place. -/
def LocalName : List Char → Prop
  | [] => False
  | c :: rest =>
    (c.isAlphanum = true ∨ c = '_') ∧ ∀ d ∈ rest, d.isAlphanum = true ∨ d = '_' ∨ d = '-'

theorem isLocalName_iff {cs : List Char} : isLocalName cs = true ↔ LocalName cs := by
  cases cs with
  | nil => simp [isLocalName, LocalName]
  | cons c rest => simp [isLocalName, LocalName, startsWord, or_assoc]

theorem covers_iff {ns iri : String} : covers ns iri = true ↔ ns.toList <+: iri.toList :=
  List.isPrefixOf_iff_prefix

/-- Namespaces of one length that an IRI starts with are the same. -/
theorem eq_of_length_eq {ns other iri : String} (hns : ns.toList <+: iri.toList)
    (hother : other.toList <+: iri.toList) (hlength : ns.length = other.length) : ns = other := by
  rw [← String.length_toList, ← String.length_toList] at hlength
  have hstarts := List.prefix_of_prefix_length_le hns hother hlength.le
  exact String.toList_injective (hstarts.eq_of_length hlength)

theorem longest_eq_none {iri : String} {es : List (String × String)} :
    longest iri es = none ↔ ∀ e ∈ es, ¬ e.2.toList <+: iri.toList := by
  induction es with
  | nil => simp [longest]
  | cons e es ih =>
    obtain ⟨name, ns⟩ := e
    rw [List.forall_mem_cons, ← ih, ← covers_iff]
    cases hrest : longest iri es with
    | none => by_cases hcovers : covers ns iri = true <;> simp [longest, hrest, hcovers]
    | some found =>
      by_cases hlonger : (covers ns iri && decide (found.2.length < ns.length)) = true <;>
        simp [longest, hrest, hlonger]

theorem longest_found {iri : String} {es : List (String × String)} {d : String × String}
    (h : longest iri es = some d) :
    ∃ before after, es = before ++ d :: after ∧ d.2.toList <+: iri.toList ∧
      (∀ e ∈ before, e.2.toList <+: iri.toList → e.2.length ≤ d.2.length) ∧
      ∀ e ∈ after, e.2.toList <+: iri.toList → e.2.length < d.2.length := by
  induction es generalizing d with
  | nil => cases h
  | cons e es ih =>
    obtain ⟨name, ns⟩ := e
    cases hrest : longest iri es with
    | none =>
      simp only [longest, hrest] at h
      have hnone := longest_eq_none.1 hrest
      split at h
      · rename_i hcovers
        cases h
        exact ⟨[], es, rfl, covers_iff.1 hcovers, List.forall_mem_nil _,
          fun e he hstarts => absurd hstarts (hnone e he)⟩
      · cases h
    | some found =>
      simp only [longest, hrest] at h
      obtain ⟨before, after, rfl, hstarts, hbefore, hafter⟩ := ih hrest
      split at h
      · rename_i hlonger
        cases h
        simp only [Bool.and_eq_true, decide_eq_true_eq] at hlonger
        refine ⟨[], _, rfl, covers_iff.1 hlonger.1, List.forall_mem_nil _, ?_⟩
        intro e he hcovers
        rcases List.mem_append.1 he with he | he
        · exact Nat.lt_of_le_of_lt (hbefore e he hcovers) hlonger.2
        rcases List.mem_cons.1 he with rfl | he
        · exact hlonger.2
        · exact Nat.lt_trans (hafter e he hcovers) hlonger.2
      · rename_i hshorter
        cases h
        simp only [Bool.and_eq_true, decide_eq_true_eq, not_and, Nat.not_lt] at hshorter
        refine ⟨(name, ns) :: before, after, rfl, hstarts, ?_, hafter⟩
        exact List.forall_mem_cons.2 ⟨fun hcovers => hshorter (covers_iff.2 hcovers), hbefore⟩

theorem longest_of_split {iri : String} {before after : List (String × String)}
    {d : String × String} (hstarts : d.2.toList <+: iri.toList)
    (hbefore : ∀ e ∈ before, e.2.toList <+: iri.toList → e.2.length ≤ d.2.length)
    (hafter : ∀ e ∈ after, e.2.toList <+: iri.toList → e.2.length < d.2.length) :
    longest iri (before ++ d :: after) = some d := by
  induction before with
  | nil =>
    have hcovers : covers d.2 iri = true := covers_iff.2 hstarts
    cases hrest : longest iri after with
    | none => simp [longest, hrest, hcovers]
    | some found =>
      obtain ⟨hmem, hfound⟩ := longest_spec hrest
      have hlonger := hafter found hmem (covers_iff.1 hfound)
      simp [longest, hrest, hcovers, hlonger]
  | cons e before ih =>
    obtain ⟨hhead, htail⟩ := List.forall_mem_cons.1 hbefore
    have hno : ¬ (covers e.2 iri && decide (d.2.length < e.2.length)) = true := by
      simp only [Bool.and_eq_true, decide_eq_true_eq, not_and, Nat.not_lt]
      exact fun hcovers => hhead (covers_iff.1 hcovers)
    simp only [List.cons_append, longest, ih htail, if_neg hno]

/-- Of the entries whose namespaces the IRI starts with, the one that is found is no shorter than
those before it and longer than those behind it. -/
theorem longest_eq_some {iri : String} {es : List (String × String)} {d : String × String} :
    longest iri es = some d ↔
      ∃ before after, es = before ++ d :: after ∧ d.2.toList <+: iri.toList ∧
        (∀ e ∈ before, e.2.toList <+: iri.toList → e.2.length ≤ d.2.length) ∧
        ∀ e ∈ after, e.2.toList <+: iri.toList → e.2.length < d.2.length := by
  constructor
  · exact longest_found
  · rintro ⟨before, after, rfl, hstarts, hbefore, hafter⟩
    exact longest_of_split hstarts hbefore hafter

theorem eq_of_mem_entries {rs : List (String × String)} {e : String × String} {ns : String}
    (he : e ∈ (OrderedMap.ofList rs).entries) (hbinds : Binds rs e.1 ns) : e.2 = ns := by
  have hdistinct := (OrderedMap.ofList rs).distinct
  have hfound := Entries.find?_of_mem hdistinct (mem_entries_ofList.2 hbinds)
  exact Option.some.inj ((Entries.find?_of_mem hdistinct he).symm.trans hfound)

/-- In the words of the registrations: the longest namespace, and the last prefix that has it. -/
theorem longest_ofList {rs : List (String × String)} {iri name ns : String} :
    longest iri (OrderedMap.ofList rs).entries = some (name, ns) ↔
      Longest rs iri ns ∧ LastBound rs name ns := by
  have hkeys : (OrderedMap.ofList rs).entries.map Prod.fst = order rs := OrderedMap.keys_ofList rs
  rw [longest_eq_some]
  constructor
  · rintro ⟨before, after, hentries, hstarts, hbefore, hafter⟩
    have hbound : Binds rs name ns := by
      rw [← mem_entries_ofList, hentries]
      exact List.mem_append_right _ List.mem_cons_self
    refine ⟨⟨⟨name, hbound⟩, hstarts, ?_⟩, hbound, before.map Prod.fst, after.map Prod.fst, ?_, ?_⟩
    · intro name' other hother hcovers
      rw [← mem_entries_ofList, hentries] at hother
      rcases List.mem_append.1 hother with hmem | hmem
      · exact hbefore _ hmem hcovers
      rcases List.mem_cons.1 hmem with heq | hmem
      · exact (congrArg (String.length ∘ Prod.snd) heq).le
      · exact (hafter _ hmem hcovers).le
    · rw [← hkeys, hentries, List.map_append, List.map_cons]
    · intro other hother hbinds
      obtain ⟨e, he, rfl⟩ := List.mem_map.1 hother
      have hmem : e ∈ (OrderedMap.ofList rs).entries := by
        rw [hentries]
        exact List.mem_append_right _ (List.mem_cons_of_mem _ he)
      have hns : e.2 = ns := eq_of_mem_entries hmem hbinds
      exact Nat.lt_irrefl _ (hns ▸ hafter e he (hns ▸ hstarts))
  · rintro ⟨hlongest, hbound, before, after, horder, hlast⟩
    rw [← hkeys] at horder
    obtain ⟨bs, ds, hentries, rfl, hds⟩ := List.map_eq_append_iff.1 horder
    obtain ⟨d, ds, rfl, rfl, rfl⟩ := List.map_eq_cons_iff.1 hds
    have hmem {e : String × String} (he : e ∈ bs ++ d :: ds) :
        e ∈ (OrderedMap.ofList rs).entries := hentries ▸ he
    have hns : d.2 = ns := eq_of_mem_entries (hmem (by simp)) hbound
    subst hns
    have hnolonger {e : String × String} (he : e ∈ bs ++ d :: ds)
        (hcovers : e.2.toList <+: iri.toList) : e.2.length ≤ d.2.length :=
      hlongest.longest e.1 e.2 (mem_entries_ofList.1 (hmem he)) hcovers
    refine ⟨bs, ds, hentries, hlongest.starts, fun e he => hnolonger (by simp [he]), ?_⟩
    intro e he hcovers
    refine lt_of_le_of_ne (hnolonger (by simp [he]) hcovers) fun hlength => ?_
    have hsame : e.2 = d.2 := eq_of_length_eq hcovers hlongest.starts hlength
    refine hlast e.1 (List.mem_map_of_mem he) ?_
    rw [← hsame]
    exact mem_entries_ofList.1 (hmem (by simp [he]))

theorem namespaceFor_eq_some {t : PrefixTable} {iri : String} {d : String × String} :
    t.namespaceFor iri = some d ↔
      longest iri t.entries = some d ∧ LocalName (remainder d.2 iri) := by
  rw [namespaceFor, ← isLocalName_iff]
  cases longest iri t.entries with
  | none => simp
  | some found =>
    by_cases hlocal : isLocalName (remainder found.2 iri) = true
    · simp only [if_pos hlocal, Option.some.injEq]
      exact ⟨fun h => ⟨h, h ▸ hlocal⟩, fun h => h.1⟩
    · simp only [if_neg hlocal, Option.some.injEq, reduceCtorEq, false_iff, not_and]
      exact fun h => h ▸ hlocal

theorem Longest.unique {rs : List (String × String)} {iri ns other : String}
    (h : Longest rs iri ns) (h' : Longest rs iri other) : ns = other := by
  obtain ⟨name, hname⟩ := h.bound
  obtain ⟨name', hname'⟩ := h'.bound
  exact eq_of_length_eq h.starts h'.starts (le_antisymm (h'.longest name ns hname h.starts)
    (h.longest name' other hname' h'.starts))

/-! ## Expansion -/

/-- A name is expanded with the namespace of the part before its first colon. -/
theorem expand_append {t : PrefixTable} {name ns : String} (hcolon : ':' ∉ name.toList)
    (hname : t.get? name = some ns) (rest : List Char) :
    t.expand (name ++ ":" ++ String.ofList rest) = .ok (ns ++ String.ofList rest) := by
  have htext : (name ++ ":" ++ String.ofList rest).toList = name.toList ++ ':' :: rest := by
    have hsign : ":".toList = [':'] := rfl
    simp only [String.toList_append, hsign, String.toList_ofList, List.append_assoc,
      List.cons_append, List.nil_append]
  have hstarts : ∀ c ∈ name.toList, decide (c ≠ ':') = true := by
    intro c hc
    refine decide_eq_true ?_
    rintro rfl
    exact hcolon hc
  obtain ⟨htake, hdrop⟩ := Text.span_append hstarts
    (show (':' :: rest).takeWhile (fun c => decide (c ≠ ':')) = [] by simp)
  simp only [expand, htext, hdrop, htake, String.ofList_toList, hname]

theorem expand_compact {t : PrefixTable} (hcolon : ∀ name ∈ t.keys, ':' ∉ name.toList)
    {iri name : String} (h : t.compact iri = some name) : t.expand name = .ok iri := by
  obtain ⟨d, hd, rfl⟩ := compact_spec h
  obtain ⟨hmem, hiri⟩ := mem_of_namespaceFor hd
  rw [expand_append (hcolon d.1 (List.mem_map_of_mem hmem))
    (Entries.find?_of_mem t.distinct hmem), hiri]

theorem compact_eq_some {t : PrefixTable} {iri name : String} :
    t.compact iri = some name ↔ ∃ d, t.namespaceFor iri = some d ∧
      name = d.1 ++ ":" ++ String.ofList (remainder d.2 iri) := by
  constructor
  · exact compact_spec
  · rintro ⟨d, hd, rfl⟩
    rw [compact, hd]

theorem keys_registered (seed : Seed) (calls : List (String × String)) :
    (registered seed calls).keys = order (history seed calls) := by
  rw [registered_eq]
  exact OrderedMap.keys_ofList _

theorem longest_registered {seed : Seed} {calls : List (String × String)} {iri : String}
    {d : String × String} :
    (registered seed calls).namespaceFor iri = some d ↔ Longest (history seed calls) iri d.2 ∧
      LastBound (history seed calls) d.1 d.2 ∧ LocalName (remainder d.2 iri) := by
  rw [namespaceFor_eq_some, registered_eq, longest_ofList, and_assoc]

/-- An IRI is compacted with the longest of the bound namespaces, under its last prefix, or not at
all: shorter namespaces are not tried. Where no prefix has a colon, expansion gives the IRI back,
and so no two IRIs are compacted to one name. -/
theorem compaction_undone (seed : Seed) (calls : List (String × String)) (iri : String) :
    (∀ name ns, (registered seed calls).namespaceFor iri = some (name, ns) ↔
      Longest (history seed calls) iri ns ∧ LastBound (history seed calls) name ns ∧
        LocalName (remainder ns iri)) ∧
    (∀ ns, Longest (history seed calls) iri ns → ¬ LocalName (remainder ns iri) →
      (registered seed calls).namespaceFor iri = none) ∧
    (∀ name, (registered seed calls).compact iri = some name ↔
      ∃ d, (registered seed calls).namespaceFor iri = some d ∧
        name = d.1 ++ ":" ++ String.ofList (remainder d.2 iri)) ∧
    ((∀ r ∈ history seed calls, ':' ∉ r.1.toList) →
      ∀ name, (registered seed calls).compact iri = some name →
        (registered seed calls).expand name = .ok iri ∧
        ∀ other, (registered seed calls).compact other = some name → other = iri) := by
  refine ⟨fun name ns => longest_registered, ?_, fun name => compact_eq_some, ?_⟩
  · intro ns hlongest hlocal
    by_contra hsome
    obtain ⟨d, hd⟩ := Option.ne_none_iff_exists'.1 hsome
    obtain ⟨hfound, -, hrest⟩ := longest_registered.1 hd
    exact hlocal (hlongest.unique hfound ▸ hrest)
  · intro hcolon name hname
    have hkeys : ∀ key ∈ (registered seed calls).keys, ':' ∉ key.toList := by
      intro key hkey
      rw [keys_registered, order, mem_firsts] at hkey
      obtain ⟨r, hr, rfl⟩ := List.mem_map.1 hkey
      exact hcolon r hr
    have hexpand := expand_compact hkeys hname
    refine ⟨hexpand, fun other hother => ?_⟩
    exact Except.ok.inj ((expand_compact hkeys hother).symm.trans hexpand)

/-- The prefix that is bound to the longer namespace last was registered first. -/
def nestedNamespaces : List (String × String) :=
  [("u", "http://ex.org/"), ("base", "http://ex.org/"), ("v", "http://ex.org/a"),
    ("w", "http://ex.org/a"), ("u", "http://ex.org/a")]

/-- The longer namespace leaves `-b` of the second IRI, so the shorter one is not tried. -/
theorem nestedNamespaces_undone :
    (registered .wellKnown nestedNamespaces).compact "http://ex.org/ab" = some "w:b" ∧
      (∀ r ∈ history .wellKnown nestedNamespaces, ':' ∉ r.1.toList) ∧
      (registered .wellKnown nestedNamespaces).expand "w:b" = .ok "http://ex.org/ab" ∧
      Longest (history .wellKnown nestedNamespaces) "http://ex.org/a-b" "http://ex.org/a" ∧
      ¬ LocalName (remainder "http://ex.org/a" "http://ex.org/a-b") ∧
      (registered .wellKnown nestedNamespaces).namespaceFor "http://ex.org/a-b" = none := by
  have hname : (registered .wellKnown nestedNamespaces).compact "http://ex.org/ab" =
      some "w:b" := by decide +kernel
  have hcolon : ∀ r ∈ history .wellKnown nestedNamespaces, ':' ∉ r.1.toList := by decide +kernel
  have hfound : longest "http://ex.org/a-b"
      (OrderedMap.ofList (history .wellKnown nestedNamespaces)).entries =
        some ("w", "http://ex.org/a") := by decide +kernel
  have hlongest := (longest_ofList.1 hfound).1
  have hlocal : ¬ LocalName (remainder "http://ex.org/a" "http://ex.org/a-b") := by
    rw [← isLocalName_iff]
    decide
  obtain ⟨-, -, -, hexpand⟩ := compaction_undone .wellKnown nestedNamespaces "http://ex.org/ab"
  obtain ⟨-, hblocked, -, -⟩ := compaction_undone .wellKnown nestedNamespaces "http://ex.org/a-b"
  exact ⟨hname, hcolon, (hexpand hcolon _ hname).1, hlongest, hlocal, hblocked _ hlongest hlocal⟩

end PrefixTable

end RdfQuery
