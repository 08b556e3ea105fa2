import UtilityClasses.Proofs.Document.Attribute

/-!
# Tags of documents

The scan of a tag in a document without containers passes over parts that fit, and it finds
the parts that fit.
-/

namespace UtilityClasses

open Scan Text

namespace Document

variable {context : Context} {s s' : State} {name : String}

theorem betweenAttributes_eq {dialect : Dialect} (hdialect : dialect = .html ∨ dialect = .vue) :
  betweenAttributes dialect = skipSpacing
  := by
  obtain rfl | rfl := hdialect <;> rfl

/-- The scan of a tag passes over parts that fit, and over the end of the tag. -/
theorem exists_parts_of_tagTail (hdialect : context.dialect = .html ∨ context.dialect = .vue)
    {start budget : Nat} {attributes : List Attribute} {result : Bool × List Attribute}
    (h : Runs (tagTail context name start budget attributes) s result s') :
  ∃ parts ending selfClosing, PartsFit parts (ending ++ Tag.closing selfClosing ++ s'.rest) ∧
    (∀ c ∈ ending, isSpacing c = true) ∧
    s.Passes (partsText parts ++ (ending ++ Tag.closing selfClosing)) s' ∧
    result = (selfClosing, attributes ++ attributesFrom s.pos parts)
  := by
  have hcontainers : context.dialect.hasContainers = false := by
    obtain h | h := hdialect <;> rw [h] <;> rfl
  induction budget generalizing s attributes with
  | zero => simp [tagTail] at h
  | succ budget ih =>
    simp only [tagTail, betweenAttributes_eq hdialect, runs_bind, runs_skipSpacing_iff, runs_rest,
      hcontainers, Bool.and_false, Bool.false_eq_true, if_false, and_assoc, exists_and_left,
      exists_eq_left, exists_const] at h
    obtain ⟨t, ⟨lead, hlead, hallLead, hnext⟩, h⟩ := h
    split at h
    · simp at h
    · next rest hrest =>
      have hhead : t.rest.head? = some '>' := by rw [hrest, List.head?_cons]
      simp only [runs_bind, runs_skip_one hhead, runs_pure, exists_const] at h
      obtain ⟨t', hclosing, rfl, rfl⟩ := h
      refine ⟨[], lead, false, trivial, hallLead, hlead.trans hclosing, ?_⟩
      rw [attributesFrom, List.append_nil]
    · next rest hrest =>
      simp only [runs_bind, runs_skip_two hrest, runs_pure, exists_const] at h
      obtain ⟨t', hclosing, rfl, rfl⟩ := h
      refine ⟨[], lead, true, trivial, hallLead, hlead.trans hclosing, ?_⟩
      rw [attributesFrom, List.append_nil]
    · next c rest hclosing hslash hrest =>
      simp only [runs_bind] at h
      obtain ⟨attr, t', hattr, h⟩ := h
      have hspacing : isSpacing c = false := hnext c (by rw [hrest]; rfl)
      have hnot : c = '/' → rest.head? ≠ some '>' := by
        rintro rfl hhead
        obtain ⟨later, rfl⟩ := List.head?_eq_some_iff.mp hhead
        apply hslash later rfl rfl
      obtain ⟨part, hfits, hpart, rfl⟩ := (runs_attribute?_iff hdialect hrest hspacing
        (fun hc => hclosing hc) hnot).mp hattr
      obtain ⟨parts, ending, selfClosing, hparts, hending, hpasses, rfl⟩ := ih h
      refine ⟨(lead, part) :: parts, ending, selfClosing, ⟨hallLead, ?_, hparts⟩, hending, ?_, ?_⟩
      · rw [hpasses.ahead] at hfits
        simpa using hfits
      · simpa [partsText_cons] using hlead.trans (hpart.trans hpasses)
      · rw [attributesFrom, hpart.pos, hlead.pos]
        simp [Nat.add_assoc]

/-- Where a part starts there is neither a blank nor the end of a tag. -/
theorem Part.Fits.exists_cons {part : Part} {later : List Char} (h : part.Fits later) :
  ∃ c rest, part.text = c :: rest ∧ isSpacing c = false ∧ c ≠ '>' ∧
    (c = '/' → (rest ++ later).head? ≠ some '>')
  := by
  have hname : ∀ {name later}, NameFits name later → ∃ c rest, name = c :: rest ∧
      isSpacing c = false ∧ c ≠ '>' ∧ c ≠ '/' := by
    intro name later hname
    obtain ⟨c, rest, rfl⟩ := List.exists_cons_of_ne_nil hname.ne_nil
    have hc := hname.all c List.mem_cons_self
    simp only [isAttributeNameChar, attributeNameEnds, Bool.and_eq_true, Bool.not_eq_true',
      List.contains_eq_mem, List.mem_cons, decide_eq_false_iff_not, not_or] at hc
    exact ⟨c, rest, rfl, hc.1, hc.2.2.2.1, hc.2.2.2.2.1⟩
  cases h with
  | stray hspacing _ hclosing hslash => exact ⟨_, [], rfl, hspacing, hclosing, hslash⟩
  | bare h =>
    obtain ⟨c, rest, rfl, hspacing, hclosing, hslash⟩ := hname h
    exact ⟨c, rest, rfl, hspacing, hclosing, fun hc => absurd hc hslash⟩
  | valued h =>
    obtain ⟨c, rest, rfl, hspacing, hclosing, hslash⟩ := hname h
    exact ⟨c, _, rfl, hspacing, hclosing, fun hc => absurd hc hslash⟩

/-- The scan of a tag finds the parts that fit. -/
theorem runs_tagTail_of_parts (hdialect : context.dialect = .html ∨ context.dialect = .vue)
    {start budget : Nat} {attributes : List Attribute} {parts : List (List Char × Part)}
    {ending : List Char} {selfClosing : Bool}
    (hparts : PartsFit parts (ending ++ Tag.closing selfClosing ++ s'.rest))
    (hending : ∀ c ∈ ending, isSpacing c = true)
    (hpasses : s.Passes (partsText parts ++ (ending ++ Tag.closing selfClosing)) s')
    (hbudget : s.rest.length < budget) :
  Runs (tagTail context name start budget attributes) s
    (selfClosing, attributes ++ attributesFrom s.pos parts) s'
  := by
  have hcontainers : context.dialect.hasContainers = false := by
    obtain h | h := hdialect <;> rw [h] <;> rfl
  induction parts generalizing s attributes budget with
  | nil =>
    obtain ⟨budget, rfl⟩ := Nat.exists_eq_add_one_of_ne_zero (Nat.ne_zero_of_lt hbudget)
    rw [partsText, List.flatMap_nil, List.nil_append] at hpasses
    obtain ⟨t, hlead, hclosing⟩ := State.passes_append.mp hpasses
    have hnext : ∀ c ∈ t.rest.head?, isSpacing c = false := by
      rw [hclosing.ahead]
      cases selfClosing <;> simp [Tag.closing, isSpacing]
    simp only [tagTail, betweenAttributes_eq hdialect, runs_bind, runs_skipSpacing_iff, runs_rest,
      and_assoc, exists_and_left, exists_eq_left, exists_const]
    refine ⟨t, ⟨ending, hlead, hending, hnext⟩, ?_⟩
    rw [attributesFrom, List.append_nil]
    cases selfClosing with
    | false =>
      have hrest : t.rest = '>' :: s'.rest := hclosing.ahead
      have hhead : t.rest.head? = some '>' := by rw [hrest, List.head?_cons]
      rw [hrest]
      simp only [runs_bind, runs_skip_one hhead, runs_pure, exists_const]
      exact ⟨s', hclosing, trivial, rfl⟩
    | true =>
      have hrest : t.rest = '/' :: '>' :: s'.rest := hclosing.ahead
      rw [hrest]
      simp only [runs_bind, runs_skip_two hrest, runs_pure, exists_const]
      exact ⟨s', hclosing, trivial, rfl⟩
  | cons first parts ih =>
    obtain ⟨lead, part⟩ := first
    obtain ⟨hallLead, hpart, hparts⟩ := hparts
    rw [partsText_cons, List.append_assoc, List.append_assoc] at hpasses
    obtain ⟨t, hlead, hpasses⟩ := State.passes_append.mp hpasses
    obtain ⟨t', htext, hpasses⟩ := State.passes_append.mp hpasses
    have hfits : part.Fits t'.rest := by
      rw [hpasses.ahead]
      simpa using hpart
    obtain ⟨c, rest, hcons, hspacing, hclosing, hslash⟩ := hfits.exists_cons
    have hrest : t.rest = c :: (rest ++ t'.rest) := by rw [htext.ahead, hcons, List.cons_append]
    have hattr : Runs (attribute? context) t (part.attribute? t.pos) t' :=
      (runs_attribute?_iff hdialect hrest hspacing hclosing hslash).mpr ⟨part, hfits, htext, rfl⟩
    obtain ⟨budget, rfl⟩ := Nat.exists_eq_add_one_of_ne_zero (Nat.ne_zero_of_lt hbudget)
    have hless : t'.rest.length < budget := by
      have hlength := congrArg List.length hlead.ahead
      simp only [hrest, List.length_append, List.length_cons] at hlength
      omega
    have hothers : Runs (tagTail context name start budget
        (attributes ++ (part.attribute? t.pos).toList)) t' _ s' := ih hparts hpasses hless
    simp only [tagTail, betweenAttributes_eq hdialect, runs_bind, runs_skipSpacing_iff, runs_rest,
      hcontainers, Bool.and_false, Bool.false_eq_true, if_false, and_assoc, exists_and_left,
      exists_eq_left, exists_const]
    refine ⟨t, ⟨lead, hlead, hallLead, by simpa [hrest] using hspacing⟩, ?_⟩
    split
    · next hnil => simp [hnil] at hrest
    · next heq =>
      rw [hrest] at heq
      exact absurd (List.cons.inj heq).1 hclosing
    · next heq =>
      rw [hrest] at heq
      obtain ⟨rfl, hlater⟩ := List.cons.inj heq
      rw [hlater] at hslash
      exact absurd rfl (hslash rfl)
    · next c' _ _ _ heq =>
      rw [hrest] at heq
      obtain ⟨rfl, -⟩ := List.cons.inj heq
      simp only [runs_bind]
      refine ⟨_, t', hattr, ?_⟩
      rw [htext.pos, hlead.pos] at hothers
      rw [attributesFrom]
      simpa [hlead.pos, Nat.add_assoc] using hothers

end Document

end UtilityClasses
