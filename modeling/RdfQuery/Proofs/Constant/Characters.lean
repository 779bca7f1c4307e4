import Mathlib.Data.List.TakeWhile
import RdfQuery.Constant.NTriples
import RdfQuery.Proofs.Outcome

/-!
# The characters of constants

What the parts of a constant are made of. The characters of an IRI never end
its angle brackets, those of a language tag never end the word it is, and the
text of a constant never ends its line.
-/

set_option autoImplicit false

namespace RdfQuery

namespace Iri.Address

def inAddress (c : Char) : Bool := isHexDigit c || c = ':' || c = '.'

theorem inAddress_of_isDigit {c : Char} (h : c.isDigit = true) : inAddress c = true := by
  simp [inAddress, isHexDigit, h]

/-- What a reader of part of an address leaves, and that it passes only characters of addresses. -/
def Leaves (cs rest : List Char) : Prop := ∀ c ∈ cs, inAddress c = true ∨ c ∈ rest

theorem Leaves.refl (cs : List Char) : Leaves cs cs := fun _ h => Or.inr h

theorem Leaves.trans {cs mid rest : List Char} (h : Leaves cs mid) (h' : Leaves mid rest) :
    Leaves cs rest := by
  intro c hc
  rcases h c hc with h | h
  · exact Or.inl h
  · exact h' c h

theorem leaves_dropWhile (p : Char → Bool) (hp : ∀ c, p c = true → inAddress c = true)
    (cs : List Char) : Leaves cs (cs.dropWhile p) := by
  intro c hc
  rw [← List.takeWhile_append_dropWhile (p := p) (l := cs)] at hc
  rcases List.mem_append.1 hc with hc | hc
  · exact Or.inl (hp c (List.mem_takeWhile_imp hc))
  · exact Or.inr hc

theorem hexGroup_leaves {cs rest : List Char} (h : hexGroup cs = some rest) : Leaves cs rest := by
  simp only [hexGroup] at h
  split at h
  · cases h
    exact leaves_dropWhile _ (fun c hc => by simp [inAddress, hc]) cs
  · cases h

theorem octet_leaves {cs rest : List Char} (h : octet cs = some rest) : Leaves cs rest := by
  simp only [octet] at h
  split at h
  · cases h
  · split at h
    · cases h
    · split at h
      · cases h
        exact leaves_dropWhile _ (fun c hc => inAddress_of_isDigit hc) cs
      · cases h

theorem after_leaves {d : Char} (hd : inAddress d = true) {cs rest : List Char}
    (h : after d cs = some rest) : Leaves cs rest := by
  cases cs with
  | nil => cases h
  | cons c cs =>
    simp only [after] at h
    split at h
    · rename_i hc
      cases h
      intro x hx
      rcases List.mem_cons.1 hx with rfl | hx
      · exact Or.inl (hc ▸ hd)
      · exact Or.inr hx
    · cases h

theorem dotted_leaves {cs rest : List Char} (h : dotted cs = some rest) : Leaves cs rest := by
  simp only [dotted, Option.bind_eq_bind, Option.bind_eq_some_iff] at h
  obtain ⟨a, ha, b, hb, c, hc, d, hd, e, he, f, hf, hrest⟩ := h
  have hdot : inAddress '.' = true := by decide
  exact (octet_leaves ha).trans <| (after_leaves hdot hb).trans <| (octet_leaves hc).trans <|
    (after_leaves hdot hd).trans <| (octet_leaves he).trans <| (after_leaves hdot hf).trans <|
    octet_leaves hrest

theorem groups_leaves (room : Nat) (first : Bool) (cs : List Char) :
    Leaves cs (groups room first cs).rest := by
  induction room generalizing first cs with
  | zero => exact Leaves.refl cs
  | succ room ih =>
    have hopened : ∀ mid, (if first then some cs else after ':' cs) = some mid → Leaves cs mid := by
      intro mid hmid
      cases first with
      | true => cases hmid; exact Leaves.refl cs
      | false => exact after_leaves (by decide) hmid
    simp only [groups]
    split
    · rename_i rest hrest
      split at hrest
      · obtain ⟨mid, hmid, hdot⟩ := Option.bind_eq_some_iff.1 hrest
        exact (hopened mid hmid).trans (dotted_leaves hdot)
      · cases hrest
    · split
      · exact Leaves.refl cs
      · rename_i rest hrest
        obtain ⟨mid, hmid, hhex⟩ := Option.bind_eq_some_iff.1 hrest
        exact ((hopened mid hmid).trans (hexGroup_leaves hhex)).trans (ih false rest)

theorem inAddress_of_accepts {cs : List Char} (h : accepts cs = true) :
    ∀ c ∈ cs, inAddress c = true := by
  intro c hc
  simp only [accepts] at h
  rcases groups_leaves 8 true cs c hc with hin | hrest
  · exact hin
  split at h
  · simp only [List.isEmpty_iff] at h
    rw [h] at hrest
    cases hrest
  split at h
  · cases h
  split at h
  · rename_i rest hfront
    rw [hfront] at hrest
    simp only [List.isEmpty_iff] at h
    rcases List.mem_cons.1 hrest with rfl | hrest
    · decide
    rcases List.mem_cons.1 hrest with rfl | hrest
    · decide
    rcases groups_leaves _ true rest c hrest with hin | hnil
    · exact hin
    · rw [h] at hnil
      cases hnil
  · cases h

end Iri.Address

namespace Iri.Grammar

/-- The characters that stand anywhere in an IRI. -/
def inIri (c : Char) : Bool := inQuery c || ['#', '[', ']', '%'].contains c

def Fit (cs : List Char) : Prop := ∀ c ∈ cs, inIri c = true

theorem Fit.cons {c : Char} {cs : List Char} (hc : inIri c = true) (h : Fit cs) :
    Fit (c :: cs) := by
  intro x hx
  rcases List.mem_cons.1 hx with rfl | hx
  · exact hc
  · exact h x hx

theorem Fit.append {xs ys : List Char} (hx : Fit xs) (hy : Fit ys) : Fit (xs ++ ys) := by
  intro c hc
  rcases List.mem_append.1 hc with hc | hc
  · exact hx c hc
  · exact hy c hc

theorem fit_of_dropWhile {p : Char → Bool} (hp : ∀ c, p c = true → inIri c = true)
    {cs : List Char} (h : Fit (cs.dropWhile p)) : Fit cs := by
  rw [← List.takeWhile_append_dropWhile (p := p) (l := cs)]
  exact Fit.append (fun c hc => hp c (List.mem_takeWhile_imp hc)) h

theorem inIri_of_isUnreserved {c : Char} (h : isUnreserved c = true) : inIri c = true := by
  simp [inIri, inQuery, inFragment, h]

theorem inIri_of_isAlphanum {c : Char} (h : c.isAlphanum = true) : inIri c = true :=
  inIri_of_isUnreserved (by simp [isUnreserved, h])

theorem isAlphanum_of_isHexDigit {c : Char} (h : Address.isHexDigit c = true) :
    c.isAlphanum = true := by
  show (decide (c.val ≥ 'A'.val ∧ c.val ≤ 'Z'.val) || (c.val ≥ 'a'.val && c.val ≤ 'z'.val) ||
    (c.val ≥ '0'.val && c.val ≤ '9'.val)) = true
  simp only [Address.isHexDigit, Char.isDigit, Bool.or_eq_true, Bool.and_eq_true,
    decide_eq_true_eq, ge_iff_le, UInt32.le_iff_toNat_le, Char.le_def] at h ⊢
  simp only [Char.reduceVal, UInt32.reduceToNat] at h ⊢
  omega

theorem inIri_of_isHexDigit {c : Char} (h : Address.isHexDigit c = true) : inIri c = true :=
  inIri_of_isAlphanum (isAlphanum_of_isHexDigit h)

theorem inIri_of_inAddress {c : Char} (h : Address.inAddress c = true) : inIri c = true := by
  simp only [Address.inAddress, Bool.or_eq_true, decide_eq_true_eq] at h
  rcases h with (h | rfl) | rfl
  · exact inIri_of_isHexDigit h
  · decide
  · decide

/-- A scan passes characters of IRIs only, so it is enough to look at what it leaves. -/
theorem scan_fit {allowed stop : Char → Bool} (hallowed : ∀ c, allowed c = true → inIri c = true)
    {cs rest : List Char} (h : scan allowed stop cs = .ok rest) (hrest : Fit rest) : Fit cs := by
  fun_induction scan allowed stop cs with
  | case1 => cases h; exact hrest
  | case2 => cases h; exact hrest
  | case3 c rest' _ hc ih => exact (ih h).cons (hallowed c hc)
  | case4 x y rest' hxy _ _ ih =>
    rw [Bool.and_eq_true] at hxy
    have hdigits := ((ih h).cons (inIri_of_isHexDigit hxy.2)).cons (inIri_of_isHexDigit hxy.1)
    exact hdigits.cons (by decide)
  | case5 => cases h
  | case6 => cases h
  | case7 => cases h

/-- What a scan leaves begins with a stop. -/
theorem scan_stops {allowed stop : Char → Bool} {cs rest : List Char} {c : Char}
    (h : scan allowed stop cs = .ok (c :: rest)) : stop c = true := by
  fun_induction scan allowed stop cs with
  | case1 => cases h
  | case2 _ _ hstop => cases h; exact hstop
  | case3 _ _ _ _ ih => exact ih h
  | case4 _ _ _ _ _ _ ih => exact ih h
  | case5 => cases h
  | case6 => cases h
  | case7 => cases h

theorem inIri_of_inFragment {c : Char} (h : inFragment c = true) : inIri c = true := by
  simp [inIri, inQuery, h]

theorem inIri_of_inQuery {c : Char} (h : inQuery c = true) : inIri c = true := by simp [inIri, h]

theorem inIri_of_inPath {c : Char} (h : inPath c = true) : inIri c = true := by
  apply inIri_of_inFragment
  simp only [inPath, inFragment, Bool.or_eq_true, List.contains_iff_mem, List.mem_cons,
    List.not_mem_nil, or_false] at h ⊢
  rcases h with h | rfl | rfl | rfl <;> simp_all

theorem inIri_of_inAuthority {c : Char} (h : inAuthority c = true) : inIri c = true := by
  simp only [inAuthority, Bool.or_eq_true, decide_eq_true_eq] at h
  rcases h with h | rfl
  · exact inIri_of_isUnreserved h
  · decide

theorem fragment_fit {cs : List Char} (h : fragment cs = .ok ()) : Fit cs := by
  obtain ⟨rest, hscan, -⟩ := Outcome.map_eq_ok.1 h
  refine scan_fit (fun _ => inIri_of_inFragment) hscan ?_
  cases rest with
  | nil => exact fun _ hc => nomatch hc
  | cons c rest => exact absurd (scan_stops hscan) (by simp)

theorem query_fit {cs : List Char} (h : query cs = .ok ()) : Fit cs := by
  obtain ⟨rest, hscan, h⟩ := Outcome.bind_eq_ok.1 h
  refine scan_fit (fun _ => inIri_of_inQuery) hscan ?_
  cases rest with
  | nil => exact fun _ hc => nomatch hc
  | cons c rest =>
    refine Fit.cons ?_ (fragment_fit h)
    have hc := scan_stops hscan
    simp only [decide_eq_true_eq] at hc
    subst hc
    decide

theorem path_fit {cs : List Char} (h : path cs = .ok ()) : Fit cs := by
  obtain ⟨rest, hscan, h⟩ := Outcome.bind_eq_ok.1 h
  refine scan_fit (fun _ => inIri_of_inPath) hscan ?_
  cases rest with
  | nil => exact fun _ hc => nomatch hc
  | cons c rest =>
    have hc := scan_stops hscan
    simp only [List.contains_iff_mem, List.mem_cons, List.not_mem_nil, or_false] at hc
    rcases hc with rfl | rfl
    · exact Fit.cons (by decide) (query_fit h)
    · exact Fit.cons (by decide) (fragment_fit h)

theorem portDigits_fit {cs : List Char} (h : portDigits cs = .ok ()) : Fit cs := by
  refine fit_of_dropWhile (p := Char.isDigit) (fun c hc => inIri_of_isAlphanum ?_) ?_
  · simp [Char.isAlphanum, hc]
  · simp only [portDigits] at h
    split at h
    · rename_i hnil
      rw [hnil]
      exact fun _ hc => nomatch hc
    · rename_i c rest hcons
      rw [hcons]
      split at h
      · exact path_fit h
      · cases h

theorem laterAddress_fit {cs : List Char} (h : laterAddress cs = .ok ()) : Fit cs := by
  refine fit_of_dropWhile (p := Address.isHexDigit) (fun _ => inIri_of_isHexDigit) ?_
  simp only [laterAddress] at h
  split at h
  · cases h
  rename_i c rest hcons
  rw [hcons]
  split at h
  · cases h
  rename_i hdot
  split at h
  · cases h
  rename_i d rest'
  split at h
  · cases h
  split at h
  · cases h
  rename_i hnone
  have hc : c = '.' := by simpa using hdot
  subst hc
  refine Fit.cons (by decide) fun e he => ?_
  have hfound := List.find?_eq_none.1 hnone e he
  simp only [Bool.not_eq_true', Bool.not_eq_false, Bool.or_eq_true, decide_eq_true_eq] at hfound
  rcases hfound with (hfound | hfound) | rfl
  · exact inIri_of_isAlphanum hfound
  · exact inIri_of_isUnreserved (by simp [isUnreserved, hfound])
  · decide

theorem bracketed_fit {cs : List Char} (h : bracketed cs = .ok ()) : Fit cs := by
  unfold bracketed at h
  split at h
  · exact Fit.cons (by decide) (laterAddress_fit h)
  · exact Fit.cons (by decide) (laterAddress_fit h)
  · split at h
    · rename_i haccepts
      exact fun c hc => inIri_of_inAddress (Address.inAddress_of_accepts haccepts c hc)
    · cases h

theorem afterBracket_fit {cs : List Char} (h : afterBracket cs = .ok ()) : Fit cs := by
  unfold afterBracket at h
  split at h
  · exact fun _ hc => nomatch hc
  · exact Fit.cons (by decide) (portDigits_fit h)
  · split at h
    · exact path_fit h
    · cases h

theorem host_fit {cs : List Char} (h : host cs = .ok ()) : Fit cs := by
  unfold host at h
  split at h
  · rename_i rest
    split at h
    · cases h
    · rename_i d after hdrop
      obtain ⟨_, hinside, hafter⟩ := Outcome.bind_eq_ok.1 h
      refine Fit.cons (by decide) ?_
      rw [← List.takeWhile_append_dropWhile (p := (· ≠ ']')) (l := rest), hdrop]
      have hd : d = ']' := by
        have hhead := List.head?_dropWhile_not (fun c => decide (c ≠ ']')) rest
        rw [hdrop] at hhead
        simpa using hhead
      subst hd
      exact Fit.append (bracketed_fit hinside) (Fit.cons (by decide) (afterBracket_fit hafter))
  · obtain ⟨rest, hscan, h⟩ := Outcome.bind_eq_ok.1 h
    refine scan_fit (fun _ => inIri_of_isUnreserved) hscan ?_
    split at h
    · exact Fit.cons (by decide) (portDigits_fit h)
    · exact path_fit h

theorem authority_fit {cs : List Char} (h : authority cs = .ok ()) : Fit cs := by
  obtain ⟨rest, hscan, h⟩ := Outcome.bind_eq_ok.1 h
  split at h
  · exact scan_fit (fun _ => inIri_of_inAuthority) hscan (Fit.cons (by decide) (host_fit h))
  · exact host_fit h

theorem afterScheme_fit {cs : List Char} (h : afterScheme cs = .ok ()) : Fit cs := by
  unfold afterScheme at h
  split at h
  · exact Fit.cons (by decide) (Fit.cons (by decide) (authority_fit h))
  · exact path_fit h

theorem inIri_of_isSchemeChar {c : Char} (h : isSchemeChar c = true) : inIri c = true := by
  simp only [isSchemeChar, Bool.or_eq_true, decide_eq_true_eq] at h
  rcases h with ((h | rfl) | rfl) | rfl
  · exact inIri_of_isAlphanum h
  all_goals decide

theorem scheme?_fit {cs after : List Char} (h : scheme? cs = some after) (ha : Fit after) :
    Fit cs := by
  cases cs with
  | nil => cases h
  | cons c rest =>
    simp only [scheme?] at h
    split at h
    · rename_i hc
      refine Fit.cons (inIri_of_isAlphanum (by simp [Char.isAlphanum, hc])) ?_
      split at h
      · rename_i hdrop
        cases h
        refine fit_of_dropWhile (p := isSchemeChar) (fun _ => inIri_of_isSchemeChar) ?_
        rw [hdrop]
        exact Fit.cons (by decide) ha
      · cases h
    · cases h

theorem absolute_fit {cs : List Char} (h : absolute cs = .ok ()) : Fit cs := by
  unfold absolute at h
  split at h
  · cases h
  · split at h
    · rename_i after hscheme
      exact scheme?_fit hscheme (afterScheme_fit h)
    · obtain ⟨_, -, h⟩ := Outcome.bind_eq_ok.1 h
      cases h

end Iri.Grammar

/-! ## Language tags -/

namespace LanguageTag

def inTag (c : Char) : Bool := c.isAlphanum || c = '-'

theorem isMixed_of_isWord {subtag : List Char} (h : isWord subtag = true) :
    isMixed subtag = true := by
  simp only [isWord, isMixed, List.all_eq_true] at h ⊢
  intro c hc
  simp [Char.isAlphanum, h c hc]

theorem isMixed_of_isNumber {subtag : List Char} (h : isNumber subtag = true) :
    isMixed subtag = true := by
  simp only [isNumber, isMixed, List.all_eq_true] at h ⊢
  intro c hc
  simp [Char.isAlphanum, h c hc]

theorem isMixed_of_isRegion {subtag : List Char} (h : isRegion subtag = true) :
    isMixed subtag = true := by
  simp only [isRegion, Bool.or_eq_true, Bool.and_eq_true] at h
  rcases h with h | h
  · exact isMixed_of_isWord h.2
  · exact isMixed_of_isNumber h.2

theorem inLanguage_isMixed {state state' : State} {subtag : List Char}
    (h : inLanguage state subtag = .ok state') : isMixed subtag = true := by
  unfold inLanguage at h
  split at h
  · rename_i heq
    simp only [Bool.and_eq_true] at heq
    exact isMixed_of_isWord heq.2
  · split at h
    · rename_i hs
      simp only [Bool.and_eq_true] at hs
      exact isMixed_of_isWord hs.2
    split at h
    · rename_i hs
      simp only [Bool.and_eq_true] at hs
      exact isMixed_of_isRegion hs.2
    split at h
    · rename_i hs
      simp only [isVariant, Bool.and_eq_true] at hs
      exact hs.2.1
    · cases h

/-- A subtag that is passed has letters and digits only. -/
theorem step_isMixed {state state' : State} {subtag : List Char}
    (h : step state subtag = .ok state') : isMixed subtag = true := by
  unfold step at h
  split at h
  · cases h
  split at h
  · cases h
  split at h
  · split at h
    · cases h
    · rename_i hs
      simp only [Bool.or_eq_true, Bool.not_eq_true', not_or, Bool.not_eq_false] at hs
      exact isMixed_of_isWord hs.2
  · split at h
    · assumption
    · cases h
  · split at h
    · rename_i hx
      rw [hx]
      decide
    split at h
    · rename_i hs
      simp only [Bool.and_eq_true] at hs
      exact hs.2
    split at h
    · split at h
      · assumption
      · cases h
    · exact inLanguage_isMixed h

/-- What holds of every subtag that is passed holds of all subtags of a tag. -/
theorem forall_of_run {P : List Char → Prop}
    (hstep : ∀ state state' subtag, step state subtag = .ok state' → P subtag)
    {state state' : State} {tags : List (List Char)} (h : run state tags = .ok state') :
    ∀ subtag ∈ tags, P subtag := by
  induction tags generalizing state with
  | nil => exact fun _ hs => nomatch hs
  | cons subtag rest ih =>
    obtain ⟨next, hnext, hrun⟩ := Outcome.bind_eq_ok.1 h
    exact List.forall_mem_cons.2 ⟨hstep _ _ _ hnext, ih hrun⟩

theorem mem_subtags {cs : List Char} {c : Char} (h : c ∈ cs) :
    c = '-' ∨ ∃ subtag ∈ subtags cs, c ∈ subtag := by
  induction cs with
  | nil => cases h
  | cons d rest ih =>
    simp only [subtags]
    split
    · rename_i hnil
      rcases List.mem_cons.1 h with rfl | h
      · exact Or.inr ⟨[c], by simp, by simp⟩
      · rcases ih h with h | ⟨s, hs, -⟩
        · exact Or.inl h
        · rw [hnil] at hs
          cases hs
    · rename_i first more hcons
      by_cases hd : d = '-'
      · rw [if_pos hd]
        rcases List.mem_cons.1 h with rfl | h
        · exact Or.inl hd
        · rcases ih h with h | ⟨s, hs, hc⟩
          · exact Or.inl h
          · exact Or.inr ⟨s, by rw [hcons] at hs; exact List.mem_cons_of_mem _ hs, hc⟩
      · rw [if_neg hd]
        rcases List.mem_cons.1 h with rfl | h
        · exact Or.inr ⟨c :: first, by simp, by simp⟩
        · rcases ih h with h | ⟨s, hs, hc⟩
          · exact Or.inl h
          · rw [hcons] at hs
            rcases List.mem_cons.1 hs with rfl | hs
            · exact Or.inr ⟨d :: s, by simp, List.mem_cons_of_mem _ hc⟩
            · exact Or.inr ⟨s, List.mem_cons_of_mem _ hs, hc⟩

theorem inTag_of_isMixed {cs : List Char} (h : ∀ subtag ∈ subtags cs, isMixed subtag = true) :
    ∀ c ∈ cs, inTag c = true := by
  intro c hc
  rcases mem_subtags hc with rfl | ⟨subtag, hs, hc⟩
  · decide
  · have hm := h subtag hs
    simp only [isMixed, List.all_eq_true] at hm
    simp [inTag, hm c hc]

/-- After the private subtag every subtag is judged by itself. -/
theorem privateSubtag_eq_ok {subtag : List Char} (h : privateSubtag subtag = .ok ()) :
    subtag ≠ [] ∧ isMixed subtag = true := by
  unfold privateSubtag at h
  split at h
  · cases h
  rename_i hempty
  split at h
  · cases h
  split at h
  · rename_i hmixed
    exact ⟨by simpa using hempty, hmixed⟩
  · cases h

theorem forall_of_forM {tags : List (List Char)} (h : tags.forM privateSubtag = .ok ()) :
    ∀ subtag ∈ tags, privateSubtag subtag = .ok () := by
  induction tags with
  | nil => exact fun _ hs => nomatch hs
  | cons subtag rest ih =>
    simp only [List.forM_eq_forM, List.forM_cons] at h
    obtain ⟨_, hsubtag, hrest⟩ := Outcome.bind_eq_ok.1 h
    exact List.forall_mem_cons.2 ⟨hsubtag, ih hrest⟩

theorem inTag_of_check {tag : String} (h : check tag = .ok ()) :
    ∀ c ∈ tag.toList, inTag c = true := by
  unfold check at h
  split at h
  · rename_i hg
    have hall : (grandfathered.all fun t => t.toList.all inTag) = true := by decide +kernel
    exact List.all_eq_true.1 (List.all_eq_true.1 hall tag (List.contains_iff_mem.1 hg))
  split at h
  · cases h
  · rename_i rest heq
    rw [heq]
    intro c hc
    rcases List.mem_cons.1 hc with rfl | hc
    · decide
    rcases List.mem_cons.1 hc with rfl | hc
    · decide
    · exact inTag_of_isMixed (fun s hs => (privateSubtag_eq_ok (forall_of_forM h s hs)).2) c hc
  · obtain ⟨_, hrun, -⟩ := Outcome.bind_eq_ok.1 h
    exact inTag_of_isMixed (forall_of_run (fun _ _ _ => step_isMixed) hrun)

theorem check_text (t : LanguageTag) : check t.text = .ok () := by
  have h := t.valid
  unfold fault? at h
  split at h
  · assumption
  · cases h

theorem inTag_text (t : LanguageTag) : ∀ c ∈ t.text.toList, inTag c = true :=
  inTag_of_check t.check_text

end LanguageTag

/-! ## Whole texts -/

theorem Iri.inIri_text (i : Iri) : ∀ c ∈ i.text.toList, Grammar.inIri c = true := by
  apply Grammar.absolute_fit
  have h := i.valid
  unfold Grammar.fault? at h
  split at h
  · assumption
  · cases h

end RdfQuery
