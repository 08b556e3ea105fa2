import UtilityClasses.Proofs.ClassList
import UtilityClasses.Proofs.Document.Alike
import UtilityClasses.Proofs.Document.Attribute

/-!
# Values without quotes

A value without quotes ends at an ASCII blank or at the end of the tag, while a class list is cut
at every blank and put together with spaces. The prefixed class list is read as one value again if
the old one is a single word, and if the affix can neither end a value nor start one of another
kind.
-/

namespace UtilityClasses

open Scan

/-- Blanks between the parts of a tag are blanks. -/
theorem Scan.isSpacing_eq_false {c : Char} (h : Text.isBlank c = false) :
  isSpacing c = false
  := by
  by_contra hspacing
  simp only [isSpacing, Bool.not_eq_false, Bool.or_eq_true, decide_eq_true_eq] at hspacing
  obtain (((rfl | rfl) | rfl) | rfl) | rfl := hspacing <;> revert h <;> decide

namespace Document

variable {value later : List Char}

/-- A value without quotes goes on over a character that does not end it. -/
theorem bareValue_eq_succ_iff {c : Char} :
  bareValue (c :: later) = value.length + 1 ↔
    ¬ (c = '/' ∧ later.head? = some '>') ∧ (isSpacing c = false ∧ c ≠ '>') ∧
      bareValue later = value.length
  := by
  have hstarts : ['/', '>'] <+: c :: later ↔ c = '/' ∧ later.head? = some '>' := by
    rw [List.cons_prefix_cons, eq_comm]
    cases later <;> simp [eq_comm]
  rw [Alike.bareValue_cons]
  simp only [hstarts]
  split
  · next hstop =>
    constructor
    · intro h
      contradiction
    · rintro ⟨hslash, ⟨hspacing, hclosing⟩, -⟩
      simp [hslash, hspacing, hclosing] at hstop
  · next hgo =>
    rw [not_or, not_or, Bool.not_eq_true] at hgo
    simp [hgo]

/-- What can stand in a value without quotes, and what ends it. -/
theorem bareValue_append_iff :
  bareValue (value ++ later) = value.length ↔
    (∀ c ∈ value, isSpacing c = false ∧ c ≠ '>') ∧
      (value.getLast? = some '/' → later.head? ≠ some '>') ∧ bareValue later = 0
  := by
  induction value with
  | nil => simp
  | cons c value ih =>
    rw [List.cons_append, List.length_cons, bareValue_eq_succ_iff, ih, List.forall_mem_cons]
    cases value with
    | nil =>
      rw [List.nil_append, List.getLast?_singleton, Option.some.injEq, not_and]
      constructor
      · rintro ⟨hlast, hc, hnil, -, hend⟩
        exact ⟨⟨hc, hnil⟩, hlast, hend⟩
      · rintro ⟨⟨hc, hnil⟩, hlast, hend⟩
        exact ⟨hlast, hc, hnil, nofun, hend⟩
    | cons d value =>
      rw [List.cons_append, List.head?_cons, List.getLast?_cons_cons, List.forall_mem_cons,
        Option.some.injEq]
      constructor
      · rintro ⟨-, hc, hall, hlast, hend⟩
        exact ⟨⟨hc, hall⟩, hlast, hend⟩
      · rintro ⟨⟨hc, hall⟩, hlast, hend⟩
        exact ⟨fun hslash => hall.1.2 hslash.2, hc, hall, hlast, hend⟩

end Document

/-! ### Reading a value -/

namespace Scan

variable {context : Context} {name : String} {s s' : State}

/-- The character starts a value in quotes, a container or an element. -/
def OpensOther (dialect : Dialect) (c : Char) : Prop :=
  c = '"' ∨ c = '\'' ∨ (c = '\x7b' ∧ dialect.hasContainers = true) ∨
    (c = '<' ∧ dialect.allowsElements = true)

/-- A container is no literal. -/
theorem not_runs_container {text : Literal} :
  ¬ Runs (container context) s (.literal text) s'
  := by
  simp only [container, runs_bind, runs_position, runs_skip, runs_rest, and_assoc,
    exists_and_left, exists_eq_left, exists_const, not_exists, not_and]
  intro node t _ h
  split at h
  · simp at h
  · simp at h

/-- A value in quotes is not one without. -/
theorem not_runs_quotedValue_bare {quote : Quote} {delimiter : Char} {text : String} {span : Span}
    (hquote : quote ≠ .bare) :
  ¬ Runs (quotedValue quote delimiter name) s ⟨.bare, text, span⟩ s'
  := by
  simp only [quotedValue, runs_bind, runs_position, runs_skip, runs_takeWhile, runs_rest,
    and_assoc, exists_and_left, exists_eq_left, exists_const]
  split
  · simp
  · simp only [runs_bind, runs_skip, runs_spanFrom, runs_pure, and_assoc, exists_and_left,
      exists_eq_left, exists_const]
    rintro ⟨heq, -⟩
    exact hquote (Literal.mk.inj heq).1.symm

/-- A value without quotes is read in front of what ends it. -/
theorem runs_attributeValue_bare_iff (hmarkup : context.dialect.isMarkup = true) {text : String}
    {span : Span} :
  Runs (attributeValue context name) s (some (.literal ⟨.bare, text, span⟩)) s' ↔
    ∃ value, value ≠ [] ∧ (∀ c ∈ value.head?, ¬ OpensOther context.dialect c) ∧
      bareValue (value ++ s'.rest) = value.length ∧ s.Passes value s' ∧
      text = String.ofList value ∧ span = ⟨s.pos, s'.pos⟩
  := by
  simp only [attributeValue, runs_bind, runs_position, runs_rest, and_assoc, exists_and_left,
    exists_eq_left]
  constructor
  · intro h
    split_ifs at h with hdouble hsingle hcontainer helement
    · simp only [runs_bind, runs_pure, Option.some.injEq, AttrValue.literal.injEq] at h
      obtain ⟨_, _, hvalue, rfl, rfl⟩ := h
      exact absurd hvalue (not_runs_quotedValue_bare (by decide))
    · simp only [runs_bind, runs_pure, Option.some.injEq, AttrValue.literal.injEq] at h
      obtain ⟨_, _, hvalue, rfl, rfl⟩ := h
      exact absurd hvalue (not_runs_quotedValue_bare (by decide))
    · simp only [runs_bind, runs_pure, Option.some.injEq] at h
      obtain ⟨_, _, hvalue, rfl, rfl⟩ := h
      exact absurd hvalue not_runs_container
    · simp only [runs_bind] at h
      obtain ⟨found, t, -, h⟩ := h
      split at h
      · simp at h
      · simp at h
    · simp only [runs_bind, runs_pure, Document.runs_unquotedValue_iff, Option.some.injEq,
        AttrValue.literal.injEq] at h
      obtain ⟨_, _, ⟨value, hne, hlength, hpasses, rfl⟩, heq, rfl⟩ := h
      obtain ⟨-, rfl, rfl⟩ := Literal.mk.inj heq
      refine ⟨value, hne, ?_, hlength, hpasses, rfl, rfl⟩
      rw [← hpasses.head? hne]
      intro c hc hopens
      rw [Option.mem_def] at hc
      obtain rfl | rfl | ⟨rfl, hkind⟩ | ⟨rfl, hkind⟩ := hopens
      · exact hdouble hc
      · exact hsingle hc
      · simp [hc, hkind] at hcontainer
      · simp [hc, hkind] at helement
  · rintro ⟨value, hne, hopens, hlength, hpasses, rfl, rfl⟩
    have hvalue : Runs (unquotedValue name) s _ s' :=
      Document.runs_unquotedValue_iff.mpr ⟨value, hne, hlength, hpasses, rfl⟩
    rw [← hpasses.head? hne] at hopens
    rw [if_neg, if_neg, if_neg, if_neg, if_pos hmarkup]
    · simp only [runs_bind, runs_pure]
      exact ⟨_, s', hvalue, rfl, rfl⟩
    · rw [Bool.and_eq_true, decide_eq_true_eq]
      rintro ⟨hhead, hkind⟩
      exact hopens _ hhead (.inr (.inr (.inr ⟨rfl, hkind⟩)))
    · rw [Bool.and_eq_true, decide_eq_true_eq]
      rintro ⟨hhead, hkind⟩
      exact hopens _ hhead (.inr (.inr (.inl ⟨rfl, hkind⟩)))
    · intro hhead
      exact hopens _ hhead (.inr (.inl rfl))
    · intro hhead
      exact hopens _ hhead (.inl rfl)

end Scan

/-! ### Prefixed values -/

/-- A class list without blanks is one token. -/
theorem ClassList.affixed_of_solid {affix : String} {isUtility : String → Bool}
    (hne : affix.isEmpty = false) {token : List Char} (htoken : token ≠ [])
    (hsolid : ∀ c ∈ token, Text.isBlank c = false) :
  affixed affix (Classifier.ofPredicate isUtility) (String.ofList token) =
    some (String.ofList (prefixed affix isUtility token))
  := by
  rw [affixed_eq hne, String.toList_ofList, Text.words_of_not_blank htoken hsolid]
  simp

namespace Scan

variable {context : Context} {name : String} {s s' t u : State}

/-- A value without quotes and without blanks is read again as one value after it has been
prefixed, unless the affix has a `>` in it or starts a value of another kind. -/
theorem runs_attributeValue_affixed {affix : String} {isUtility : String → Bool}
    (haffix : Command.checkAffix affix = .ok ()) (hclosing : '>' ∉ affix.toList)
    (hopens : ∀ c ∈ affix.toList.head?, ¬ OpensOther context.dialect c)
    (hmarkup : context.dialect.isMarkup = true) {text new : String} {span : Span}
    (hsolid : ∀ c ∈ text.toList, Text.isBlank c = false)
    (hnew : ClassList.affixed affix (Classifier.ofPredicate isUtility) text = some new)
    (h : Runs (attributeValue context name) s (some (.literal ⟨.bare, text, span⟩)) s')
    (hpasses : t.Passes new.toList u) (hlater : u.rest = s'.rest) :
  Runs (attributeValue context name) t (some (.literal ⟨.bare, new, ⟨t.pos, u.pos⟩⟩)) u
  := by
  obtain ⟨hne, hall⟩ := Command.of_checkAffix haffix
  obtain ⟨value, hvalue, hhead, hlength, -, rfl, -⟩ :=
    (runs_attributeValue_bare_iff hmarkup).mp h
  rw [String.toList_ofList] at hsolid
  rw [ClassList.affixed_of_solid hne hvalue hsolid, Option.some_inj] at hnew
  subst hnew
  rw [String.toList_ofList] at hpasses
  rw [Document.bareValue_append_iff] at hlength
  obtain ⟨hplain, hlast, hend⟩ := hlength
  have hnewPlain : ∀ c ∈ ClassList.prefixed affix isUtility value,
      isSpacing c = false ∧ c ≠ '>' := by
    intro c hc
    obtain hc | hc := ClassList.mem_prefixed hc
    · use isSpacing_eq_false (hall c hc).1
      rintro rfl
      exact hclosing hc
    · exact hplain c hc
  have hnewHead : ∀ c ∈ (ClassList.prefixed affix isUtility value).head?,
      ¬ OpensOther context.dialect c := by
    have hcases : (ClassList.prefixed affix isUtility value).head? = value.head? ∨
        (ClassList.prefixed affix isUtility value).head? = affix.toList.head? :=
      ClassList.head?_prefixed_cases value
    obtain heq | heq := hcases
    · rwa [heq]
    · rwa [heq]
  apply (runs_attributeValue_bare_iff hmarkup).mpr
  refine ⟨_, ClassList.prefixed_ne_nil hvalue, hnewHead, ?_, hpasses, rfl, rfl⟩
  rw [hlater, Document.bareValue_append_iff, ClassList.getLast?_prefixed]
  exact ⟨hnewPlain, hlast, hend⟩

/-- A token in front of the end of a tag, and the prefixed one in its place. -/
theorem runs_attributeValue_affixed_flex :
  let context := Context.ofLength .html 8
  let s := State.initial "flex>".toList
  let t := State.initial "tw-flex>".toList
  Runs (attributeValue context "class") s (some (.literal ⟨.bare, "flex", ⟨0, 4⟩⟩)) (s.after 4) ∧
    Runs (attributeValue context "class") t (some (.literal ⟨.bare, "tw-flex", ⟨0, 7⟩⟩)) (t.after 7)
  := by
  intro context s t
  have hvalue : Runs (attributeValue context "class") s (some (.literal ⟨.bare, "flex", ⟨0, 4⟩⟩))
      (s.after 4) := rfl
  have hopens : ∀ c ∈ "tw-".toList.head?, ¬ OpensOther context.dialect c := by
    have hhead : "tw-".toList.head? = some 't' := by decide
    rw [hhead]
    rintro c ⟨⟩
    simp [OpensOther]
  have hnew : ClassList.affixed "tw-" (Classifier.ofPredicate fun _ => true) "flex" =
    some "tw-flex" := by decide
  have hblank : "flex".toList.any Text.isBlank = false := by decide
  exact ⟨hvalue, runs_attributeValue_affixed (by decide) (by decide) hopens rfl
    (by simpa using hblank) hnew hvalue ⟨rfl, rfl⟩ rfl⟩

end Scan

end UtilityClasses
