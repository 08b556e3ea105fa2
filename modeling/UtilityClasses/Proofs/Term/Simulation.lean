import UtilityClasses.Proofs.Simulation
import UtilityClasses.Proofs.Term.Value

/-!
# Terms are prefixed once

What becomes of an element of which the class list is a term in braces is the element with the new
class list: the literals in the term that are class lists are prefixed, and everything else in it
stays. It can be read again, and nothing in it changes a second time.
-/

namespace UtilityClasses

open Text (byteSize)

variable {settings : Settings}

theorem Settings.Steady.renewed_renewed (h : settings.Steady) (text : String) :
  settings.renewed (settings.renewed text) = settings.renewed text
  := by
  obtain ⟨new, hnew⟩ := h.total.exists_affixed text
  rw [renewed, renewed, hnew, Option.getD_some, h.again hnew, Option.getD_some]

namespace Outcome

/-- What is found in an element with a class list, and what is left of it. -/
theorem exists_leaves_classText (htotal : settings.Total) (hnoop : settings.isNoop = false)
    (htarget : settings.isTarget "className" = true) {value : ClassValue} (h : value.Fits) :
  (ofSource settings .jsx (Term.classText value.print)).Leaves (Term.classText value.print)
      (Term.classText (value.revise settings.renewed).print) ∧
    (value.changes settings.renewed = [] →
      ofSource settings .jsx (Term.classText value.print) = .unchanged)
  := by
  obtain ⟨attr, arena, hparse, hstands⟩ := h.exists_parse
  obtain ⟨harena, -⟩ := Markup.formed_of_parse hparse
  obtain ⟨replacements, hfound, -, -, hmakes, hsource⟩ := exists_makes htotal hnoop hparse
  obtain ⟨found, hattribute, hperm⟩ := hstands.ofAttribute_perm htotal harena htarget
    ⟨5, 15 + byteSize value.print⟩ ⟨5, 14⟩
  obtain rfl : replacements = found := by
    rw [Selection.eq_of_ofMarkup hfound]
    simp [Term.classElement, hattribute]
  have hbecomes := h.becomes_classText settings.renewed
  obtain ⟨edits, hrewrites⟩ := hbecomes.rewrites (.nil _ []) 0
  rw [List.append_nil, List.append_nil, List.append_nil] at hrewrites
  rw [Replacement.inOrder_eq_of_perm hperm hrewrites.row hbecomes.proper] at hmakes
  have hcode := String.toList_inj.mp (hmakes.unique hrewrites)
  rw [hsource]
  constructor
  · split
    · next hempty =>
      rw [List.isEmpty_iff.mp hempty] at hperm
      rw [List.nil_perm.mp hperm] at hrewrites
      rw [← String.toList_inj.mp ((Replacement.Makes.copy 0 0 _).unique hrewrites)]
      exact .unchanged
    · rw [← hcode]
      exact .changed _
  · intro hnil
    rw [hnil] at hperm
    rw [hperm.eq_nil]
    rfl

end Outcome

/-- An element of which the class list is a term in braces is left with the revised class list,
which can be read again, and stays as it is when it is prefixed again. -/
theorem Outcome.ofSource_revises (affix : String) (attributes : List String)
    (isUtility : String → Bool) {term : Term} (hderives : term.Derives .conditional)
    (haffix : Command.checkAffix affix = .ok ()) (hmark : affix.toList.head? ≠ some '!')
    (hattributes : "className" ∈ attributes) :
  let settings : Settings := ⟨affix, attributes, Classifier.ofPredicate isUtility⟩
  let source := "<div className=\x7b" ++ String.ofList term.print ++ "\x7d />"
  let revised := (ClassValue.braces term).revise settings.renewed
  ∃ code attr arena, (ofSource settings .jsx source).Leaves source code ∧
    Markup.parse .jsx code = .ok ⟨[Term.classElement attr (byteSize revised.print)], arena⟩ ∧
    ClassValue.ofValue? arena attr = some revised ∧
    ofSource settings .jsx code = .unchanged
  := by
  intro settings source revised
  have hsteady : settings.Steady := Settings.steady_of_checkAffix attributes isUtility haffix hmark
  have hnoop : settings.isNoop = false := by
    have hne := (Command.of_checkAffix haffix).1
    cases attributes with
    | nil => simp at hattributes
    | cons => simp [settings, Settings.isNoop, hne]
  have htarget : settings.isTarget "className" = true := by
    simpa [settings, Settings.isTarget] using hattributes
  have hfits : (ClassValue.braces term).Fits := hderives
  have hrevised : revised.Fits := ClassValue.fits_revise hderives
  obtain ⟨hleaves, -⟩ := exists_leaves_classText hsteady.total hnoop htarget hfits
  obtain ⟨-, hagain⟩ := exists_leaves_classText hsteady.total hnoop htarget hrevised
  obtain ⟨attr, arena, hparse, hstands⟩ := hrevised.exists_parse
  obtain ⟨harena, -⟩ := Markup.formed_of_parse hparse
  have hsource : source = Term.classText term.braced := term.classText_braced
  rw [hsource]
  refine ⟨_, attr, arena, hleaves, hparse, hstands.ofValue?_eq harena, ?_⟩
  exact hagain (ClassValue.changes_revise hsteady.renewed_renewed _)

/-- A call of a helper: a string after `&&`, a template and an array are its arguments. -/
def Term.helperCall (padding margin : Term) : Term :=
  .call (.ident "cn") [.logical .and (.ident "on") (.paren padding), margin,
    .array [.str .double "p-4"]]

theorem Term.derives_helperCall {padding margin : Term} (hpadding : padding.Derives .primary)
    (hmargin : margin.Derives .primary) :
  (helperCall padding margin).Derives .conditional
  := by
  have hident {name : String} (h : name = "cn" ∨ name = "on") : Derives .primary (.ident name) := by
    obtain rfl | rfl := h <;>
      exact .ident ⟨rfl, by simp [Scan.isNameChar, Scan.isNameStart]⟩ (by decide) (by decide)
  have hwhole {term : Term} (h : term.Derives .primary) : Derives .conditional term :=
    .disjunction (.conjunction (.unary (.postfixed (.primary h))))
  have hand : Derives .conjunction (.logical .and (.ident "on") (.paren padding)) :=
    .and (.unary (.postfixed (.primary (hident (.inr rfl)))))
      (.postfixed (.primary (.paren (hwhole hpadding))))
  refine .disjunction (.conjunction (.unary (.postfixed (.call (.primary (hident (.inl rfl))) ?_))))
  simp only [List.forall_mem_cons]
  refine ⟨.disjunction (.conjunction hand), hwhole hmargin, hwhole (.array ?_), by simp⟩
  simpa using hwhole (.str "p-4" (by decide))

/-- The string after `&&` and the template are prefixed, and the array is not. -/
theorem Outcome.ofSource_revises_helperCall :
  let settings : Settings := ⟨"tw-", defaultAttributes, Classifier.lexical⟩
  let source := "<div className=\x7b" ++
    String.ofList (Term.helperCall (.str .single "p-4") (.template "m-2" [])).print ++ "\x7d />"
  let revised := ClassValue.braces (Term.helperCall (.str .single "tw-p-4") (.str .double "tw-m-2"))
  ∃ code attr arena, (ofSource settings .jsx source).Leaves source code ∧
    Markup.parse .jsx code = .ok ⟨[Term.classElement attr (byteSize revised.print)], arena⟩ ∧
    ClassValue.ofValue? arena attr = some revised ∧
    ofSource settings .jsx code = .unchanged
  := by
  have hderives :
      (Term.helperCall (.str .single "p-4") (.template "m-2" [])).Derives .conditional :=
    Term.derives_helperCall (.str _ (by decide))
      (.template (by simp [Term.IsPlain]) (by simp) (by simp))
  have hrevised : ClassValue.revise
      (Settings.renewed ⟨"tw-", defaultAttributes, Classifier.lexical⟩)
      (.braces (Term.helperCall (.str .single "p-4") (.template "m-2" []))) =
      .braces (Term.helperCall (.str .single "tw-p-4") (.str .double "tw-m-2")) := by
    have hpadding : Settings.renewed ⟨"tw-", defaultAttributes, Classifier.lexical⟩ "p-4" =
        "tw-p-4" := by decide +kernel
    have hmargin : Settings.renewed ⟨"tw-", defaultAttributes, Classifier.lexical⟩ "m-2" =
        "tw-m-2" := by decide +kernel
    simp [ClassValue.revise, Term.helperCall, Term.core, Term.staticText?, Term.classText?,
      Term.revise, Term.reviseItems, Term.argsPlace, helperNames, Term.reviseLiteral,
      Term.Place.target?, Term.Place.right, Selection.ClassText.text, Selection.ClassText.renew,
      Selection.ClassText.term, hpadding, hmargin]
  have h := ofSource_revises "tw-" defaultAttributes Token.isUtility hderives (by decide)
    (by decide) (by decide)
  simp only at h ⊢
  rw [← hrevised]
  exact h

/-- A template among the arguments of a helper stays one if its text stays: no string of that text
takes its place. -/
theorem Outcome.ofSource_keeps_template :
  let settings : Settings := ⟨"tw-", defaultAttributes, Classifier.lexical⟩
  let source := "<div className=\x7bclsx(\x60foo\x60)\x7d />"
  settings.renewed "foo" = "foo" ∧
    ¬ ∃ code attr arena size quote, (ofSource settings .jsx source).Leaves source code ∧
      Markup.parse .jsx code = .ok ⟨[Term.classElement attr size], arena⟩ ∧
      ClassValue.ofValue? arena attr =
        some (.braces (.call (.ident "clsx") [.str quote "foo"]))
  := by
  intro settings source
  have hunchanged : ofSource settings .jsx source = .unchanged := by decide +kernel
  refine ⟨by decide +kernel, ?_⟩
  rintro ⟨code, attr, arena, size, quote, hleaves, hparse, hvalue⟩
  rw [hunchanged] at hleaves
  cases hleaves
  have hderives : Term.Derives .conditional (.call (.ident "clsx") [.template "foo" []]) := by
    have hname : Term.IsName "clsx" := ⟨rfl, by simp [Scan.isNameChar, Scan.isNameStart]⟩
    have htemplate : Term.Derives .primary (.template "foo" []) :=
      .template (by simp [Term.IsPlain]) (by simp) (by simp)
    refine .disjunction (.conjunction (.unary (.postfixed (.call ?_ ?_))))
    · exact .primary (.ident hname (by decide) (by decide))
    · simpa using .disjunction (.conjunction (.unary (.postfixed (.primary htemplate))))
  have hfits : (ClassValue.braces (.call (.ident "clsx") [.template "foo" []])).Fits := hderives
  obtain ⟨attr', arena', hparse', hstands⟩ := hfits.exists_parse
  obtain ⟨harena', -⟩ := Markup.formed_of_parse hparse'
  have hsource : source = Term.classText
      (ClassValue.braces (.call (.ident "clsx") [.template "foo" []])).print := by
    decide +kernel
  rw [← hsource, hparse] at hparse'
  obtain ⟨helement, rfl⟩ := Markup.mk.inj (Except.ok.inj hparse')
  have hattr : attr = attr' := by
    simp [Term.classElement] at helement
    exact helement.2.1
  rw [hattr, hstands.ofValue?_eq harena'] at hvalue
  simp at hvalue

end UtilityClasses
