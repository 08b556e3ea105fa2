import UtilityClasses.Proofs.Literal.RoundTrip
import UtilityClasses.Proofs.Scan.Rounds
import UtilityClasses.Proofs.Term.Syntax

/-!
# The lexemes of a printed term

Blanks, names, spelled strings and the texts of templates are passed over as a whole, whatever
comes behind them, as long as it ends them.
-/

namespace UtilityClasses

open Scan

variable {later : List Char} {s s' : State}

/-! ### Blanks -/

/-- Blanks are passed over. -/
theorem Scan.runs_skipTrivia_of_settled {blanks : List Char} (hrest : s.rest = blanks ++ later)
    (hblanks : ∀ c ∈ blanks, isSpacing c = true) (h : Settled later) {u : Unit} :
  Runs skipTrivia s u s' ↔ s.Passes blanks s'
  := by
  rw [runs_skipTrivia, hrest, trivia_append hblanks h]
  constructor
  · rintro ⟨_, hlength, rfl⟩
    obtain rfl := Trivia.closed.inj hlength
    apply State.passes_after hrest
  · intro hpasses
    use blanks.length, rfl, hpasses.eq_after

/-- Where no blanks are, the scan stays. -/
theorem Scan.runs_skipTrivia_settled (h : Settled s.rest) {u : Unit} :
  Runs skipTrivia s u s' ↔ s' = s
  := by
  rw [runs_skipTrivia_of_settled (List.nil_append _).symm (by simp) h, State.passes_nil]

/-! ### Names -/

/-- A name character is not one of another kind. -/
theorem Scan.ne_of_isNameChar {c d : Char} (hc : isNameChar c = true) (hd : isNameChar d = false) :
  c ≠ d
  := by
  rintro rfl
  simp [hc] at hd

theorem Scan.isNameChar_of_isNameStart {c : Char} (h : isNameStart c = true) :
  isNameChar c = true
  := by
  simp [isNameChar, h]

/-- A name does not start with a digit. -/
theorem Scan.isDigit_of_isNameStart {c : Char} (h : isNameStart c = true) :
  c.isDigit = false
  := by
  by_contra hdigit
  have hrange : 48 ≤ c.toNat ∧ c.toNat ≤ 57 := by
    simpa [Char.isDigit, UInt32.le_iff_toNat_le] using hdigit
  have halpha : c.isAlpha =
      (decide (c.val ≥ 'A'.val ∧ c.val ≤ 'Z'.val) ||
        (decide (c.val ≥ 'a'.val) && decide (c.val ≤ 'z'.val))) := rfl
  simp only [isNameStart, halpha, UInt32.le_iff_toNat_le, ge_iff_le, Bool.or_eq_true,
    Bool.and_eq_true, decide_eq_true_eq] at h
  have hupper : 'A'.val.toNat = 65 := rfl
  have hlower : 'a'.val.toNat = 97 := rfl
  rw [Char.toNat] at hrange h
  obtain (((⟨h, -⟩ | ⟨h, -⟩) | rfl) | rfl) | h := h
  · omega
  · omega
  · simp at hrange
  · simp at hrange
  · omega

/-- A name is what it starts with and the characters behind that. -/
theorem Term.IsName.exists_cons {name : String} (h : Term.IsName name) :
  ∃ c rest, name.toList = c :: rest ∧ isNameStart c = true
  := by
  have hhead := h.head
  cases hname : name.toList with
  | nil => simp [hname] at hhead
  | cons c rest => exact ⟨c, rest, rfl, by simpa [hname] using hhead⟩

/-- A name is passed over as a whole. -/
theorem Term.IsName.takeWhile {name : String} (h : Term.IsName name)
    (hlater : ∀ c ∈ later.head?, isNameChar c = false) :
  (name.toList ++ later).takeWhile isNameChar = name.toList
  := eq_takeWhile_iff.mpr ⟨h.all, hlater⟩

/-! ### Strings -/

/-- The hexadecimal digits of a control character are letters and digits. -/
theorem Literal.hexadecimal_isAlphanum :
  ∀ n ∈ List.range 0xA0, (Text.hexadecimal n).all Char.isAlphanum = true
  := by
  decide +kernel

/-- A spelled character is the character itself, or an escape behind a backslash. -/
theorem Literal.spellChar_cases (quote c : Char) :
  (spellChar quote c = [c] ∧ c ≠ '\\' ∧ c ≠ quote ∧ c ≠ '\n') ∨
    ∃ d digits, spellChar quote c = '\\' :: d :: digits ∧ d ≠ '\r' ∧
      ∀ e ∈ digits, e.isAlphanum = true ∨ e = '\x7b' ∨ e = '\x7d'
  := by
  rw [spellChar]
  split_ifs with hbackslash hfeed hreturn hline hparagraph hdelimiter hcontrol
  · exact .inr ⟨'\\', [], rfl, by decide, by simp⟩
  · exact .inr ⟨'n', [], rfl, by decide, by simp⟩
  · exact .inr ⟨'r', [], rfl, by decide, by simp⟩
  · exact .inr ⟨'u', ['2', '0', '2', '8'], rfl, by decide, by simp⟩
  · exact .inr ⟨'u', ['2', '0', '2', '9'], rfl, by decide, by simp⟩
  · exact .inr ⟨c, [], rfl, hreturn, by simp⟩
  · have hdigits := hexadecimal_isAlphanum c.toNat (List.mem_range.mpr (lt_of_isControl hcontrol))
    refine .inr ⟨'u', '\x7b' :: Text.hexadecimal c.toNat ++ ['\x7d'], rfl, by decide, ?_⟩
    intro e he
    obtain rfl | he | rfl : e = '\x7b' ∨ e ∈ Text.hexadecimal c.toNat ∨ e = '\x7d' := by
      simpa using he
    · simp
    · apply Or.inl (List.all_eq_true.mp hdigits e he)
    · simp
  · exact .inl ⟨rfl, hbackslash, hdelimiter, hfeed⟩

/-- A spelled character is passed over as a whole. -/
theorem Scan.stringBody_spellChar {quote : Char} (hquote : quote = '"' ∨ quote = '\'') (c : Char)
    (later : List Char) :
  stringBody quote (Literal.spellChar quote c ++ later) =
    (Literal.spellChar quote c).length + stringBody quote later
  := by
  obtain ⟨hspelled, hplain⟩ | ⟨d, digits, hspelled, hd, hdigits⟩ :=
    Literal.spellChar_cases quote c
  · rw [hspelled, stringBody_append (by simpa using hplain)]
  · rw [hspelled, List.cons_append, List.cons_append, stringBody_backslash hd,
      stringBody_append, List.length_cons, List.length_cons]
    · omega
    · intro e he
      obtain hletter | rfl | rfl := hdigits e he
      · refine ⟨?_, ?_, ?_⟩
        · rintro rfl
          simp at hletter
        · rintro rfl
          obtain rfl | rfl := hquote
          · simp at hletter
          · simp at hletter
        · rintro rfl
          simp at hletter
      · obtain rfl | rfl := hquote
        · simp
        · simp
      · obtain rfl | rfl := hquote
        · simp
        · simp

/-- A spelled text is passed over up to its closing quote. -/
theorem Scan.stringBody_spell {quote : Char} (hquote : quote = '"' ∨ quote = '\'')
    (value later : List Char) :
  stringBody quote (value.flatMap (Literal.spellChar quote) ++ quote :: later) =
    (value.flatMap (Literal.spellChar quote)).length
  := by
  induction value with
  | nil =>
    obtain rfl | rfl := hquote
    · simp [stringBody]
    · simp [stringBody]
  | cons c value ih =>
    rw [List.flatMap_cons, List.append_assoc, stringBody_spellChar hquote, ih, List.length_append]

/-- A string is printed between its quotes. -/
theorem Term.exists_print_str {quote : Quote} (hquote : quote ≠ .bare) (value : String) :
  ∃ q, quote.char? = some q ∧ (q = '"' ∨ q = '\'') ∧
    (Term.str quote value).print = q :: (value.toList.flatMap (Literal.spellChar q) ++ [q])
  := by
  cases quote with
  | double =>
    exact ⟨'"', rfl, .inl rfl, by simp [print, Literal.inCode, Literal.spell, Quote.char?]⟩
  | single =>
    exact ⟨'\'', rfl, .inr rfl, by simp [print, Literal.inCode, Literal.spell, Quote.char?]⟩
  | bare => exact absurd rfl hquote

/-! ### Templates -/

/-- A plain text in a template is passed over up to what ends it. -/
theorem Term.IsPlain.templateText {text : String} (h : Term.IsPlain text)
    (hlater : templateText later = 0) :
  templateText (text.toList ++ later) = text.toList.length
  := by
  rw [Scan.templateText_append h, hlater, Nat.add_zero]

/-- A plain text in a template denotes itself. -/
theorem Term.IsPlain.decode {text : String} (h : Term.IsPlain text) :
  Literal.decode text.toList = text.toList
  := by
  rw [Term.IsPlain] at h
  rw [Literal.decode]
  generalize text.toList = chars at h ⊢
  induction chars with
  | nil => rfl
  | cons c rest ih =>
    rw [List.forall_mem_cons] at h
    rw [Literal.decodeAfter, if_neg h.1.2.1, ih h.2]

/-! ### What ends a term -/

/-- Neither a name nor what follows an operand goes on with the text. -/
structure Scan.EndsOperand (text : List Char) : Prop where
  settled : Settled text
  name : ∀ c ∈ text.head?, isNameChar c = false
  suffix : ∀ c ∈ text.head?, c ≠ '.' ∧ c ≠ '(' ∧ c ≠ '[' ∧ c ≠ '!'
  optional : startsOptional text = false

/-- No conjunction goes on with the text. -/
structure Scan.EndsConjunction (text : List Char) : Prop extends EndsOperand text where
  and : startsAnd text = false

/-- No disjunction goes on with the text. -/
structure Scan.EndsDisjunction (text : List Char) : Prop extends EndsConjunction text where
  or : orOperator? text = none

/-- No expression goes on with the text. -/
structure Scan.EndsExpression (text : List Char) : Prop extends EndsDisjunction text where
  question : startsConditional text = false

theorem Scan.endsOperand_and (later : List Char) :
  EndsOperand ('&' :: '&' :: later)
  where
  settled := by rintro _ ⟨⟩; decide
  name := by rintro _ ⟨⟩; rfl
  suffix := by rintro _ ⟨⟩; decide
  optional := rfl

theorem Scan.endsConjunction_or {op : LogicalOp} (hop : op ≠ .and) (later : List Char) :
  EndsConjunction (op.render.toList ++ later)
  := by
  cases op with
  | and => exact absurd rfl hop
  | or =>
    refine ⟨⟨?_, ?_, ?_, rfl⟩, rfl⟩
    · rintro _ ⟨⟩; decide
    · rintro _ ⟨⟩; rfl
    · rintro _ ⟨⟩; decide
  | coalesce =>
    refine ⟨⟨?_, ?_, ?_, rfl⟩, rfl⟩
    · rintro _ ⟨⟩; decide
    · rintro _ ⟨⟩; rfl
    · rintro _ ⟨⟩; decide

theorem Scan.endsDisjunction_question (later : List Char) :
  EndsDisjunction ('?' :: ' ' :: later)
  where
  settled := by rintro _ ⟨⟩; decide
  name := by rintro _ ⟨⟩; rfl
  suffix := by rintro _ ⟨⟩; decide
  optional := rfl
  and := rfl
  or := rfl

/-- The characters that stand behind a whole expression. -/
def Scan.closers : List Char :=
  ['\x7d', ')', ']', ',', ':']

theorem Scan.endsExpression_of_mem {c : Char} (h : c ∈ closers) (later : List Char) :
  EndsExpression (c :: later)
  := by
  simp only [closers, List.mem_cons, List.not_mem_nil, or_false] at h
  obtain rfl | rfl | rfl | rfl | rfl := h <;>
    refine ⟨⟨⟨⟨?_, ?_, ?_, rfl⟩, rfl⟩, rfl⟩, rfl⟩ <;>
    rintro _ ⟨⟩ <;> decide

/-! ### How a term starts -/

namespace Term

/-- The characters that a term can start with. -/
def Opens (c : Char) : Prop :=
  c ∈ ['.', '"', '\'', '\x60', '(', '['] ∨ isNameStart c = true

/-- A term does not start with a character of another kind. -/
theorem Opens.ne {c d : Char} (h : Opens c) (hd : d ∉ ['.', '"', '\'', '\x60', '(', '['])
    (hname : isNameStart d = false) :
  c ≠ d
  := by
  rintro rfl
  obtain hmem | hstart := h
  · exact hd hmem
  · simp [hstart] at hname

theorem Opens.settled {c : Char} (h : Opens c) (later : List Char) :
  Settled (c :: later)
  := by
  rintro _ ⟨⟩
  simp only [isSpacing, Bool.or_eq_false_iff, decide_eq_false_iff_not]
  refine ⟨⟨⟨⟨⟨?_, ?_⟩, ?_⟩, ?_⟩, ?_⟩, ?_⟩ <;>
    exact h.ne (by simp) rfl

variable {level : Level} {term : Term}

/-- Only terms with a spread in front start with a dot. -/
theorem Derives.exists_head (h : term.Derives level) :
  ∃ c, term.print.head? = some c ∧ Opens c ∧
    (level = .primary ∨ level = .postfixed → c ≠ '.')
  := by
  induction h with
  | str value hquote =>
    obtain ⟨q, -, hq, hprint⟩ := exists_print_str hquote value
    use q, by rw [hprint, List.head?_cons]
    obtain rfl | rfl := hq
    · exact ⟨.inl (by simp), by simp⟩
    · exact ⟨.inl (by simp), by simp⟩
  | template => exact ⟨'\x60', by rw [print, List.head?_cons], .inl (by simp), by simp⟩
  | paren => exact ⟨'(', by rw [print, List.head?_cons], .inl (by simp), by simp⟩
  | array => exact ⟨'[', by rw [print, List.head?_cons], .inl (by simp), by simp⟩
  | spread => exact ⟨'.', by rw [print, List.head?_cons], .inl (by simp), by simp⟩
  | ident hname =>
    obtain ⟨c, rest, hcons, hstart⟩ := hname.exists_cons
    refine ⟨c, by rw [print, hcons, List.head?_cons], .inr hstart, fun _ => ?_⟩
    exact ne_of_isNameChar (isNameChar_of_isNameStart hstart) rfl
  | primary _ ih =>
    obtain ⟨c, hhead, hopens, hdot⟩ := ih
    exact ⟨c, hhead, hopens, fun _ => hdot (.inl rfl)⟩
  | postfixed _ ih | unary _ ih | conjunction _ ih | disjunction _ ih =>
    obtain ⟨c, hhead, hopens, -⟩ := ih
    exact ⟨c, hhead, hopens, by simp⟩
  | member _ _ ih | call _ _ ih =>
    obtain ⟨c, hhead, hopens, hdot⟩ := ih
    exact ⟨c, by simp [print, hhead], hopens, fun _ => hdot (.inr rfl)⟩
  | and _ _ ih | or _ _ _ ih | conditional _ _ _ ih =>
    obtain ⟨c, hhead, hopens, -⟩ := ih
    exact ⟨c, by simp [print, hhead], hopens, by simp⟩

/-- A term is printed from its first character on. -/
theorem Derives.exists_cons (h : term.Derives level) :
  ∃ c text, term.print = c :: text ∧ Opens c
  := by
  obtain ⟨c, hhead, hopens, -⟩ := h.exists_head
  obtain ⟨text, hprint⟩ := List.head?_eq_some_iff.mp hhead
  exact ⟨c, text, hprint, hopens⟩

/-- A text that does not start with an operator or a word that is one. -/
theorem unaryLength_eq_zero {text : List Char}
    (hhead : ∀ c ∈ text.head?, c ∉ ['!', '-', '+', '~'])
    (hword : String.ofList (text.takeWhile isNameChar) ∉ unaryWords) :
  unaryLength text = 0
  := by
  have hmark : ['!', '-', '+', '~'].any (text.head? = some ·) = false := by
    cases text with
    | nil => rfl
    | cons c rest => simpa using hhead c rfl
  rw [unaryLength, hmark]
  simp [hword]

/-- There is no operator in front of an operand. -/
theorem Derives.unaryLength_eq_zero (h : term.Derives level)
    (hlevel : level = .primary ∨ level = .postfixed) {later : List Char}
    (hlater : ∀ c ∈ later.head?, isNameChar c = false) :
  unaryLength (term.print ++ later) = 0
  := by
  induction h generalizing later with
  | ident hname hunary =>
    apply Term.unaryLength_eq_zero
    · obtain ⟨c, rest, hcons, hstart⟩ := hname.exists_cons
      rw [print, hcons]
      rintro _ ⟨⟩ hmem
      simp only [List.mem_cons, List.not_mem_nil, or_false] at hmem
      obtain rfl | rfl | rfl | rfl := hmem <;> simp [isNameStart] at hstart
    · rw [print, hname.takeWhile hlater, String.ofList_toList]
      exact hunary
  | primary _ ih => exact ih (.inl rfl) hlater
  | member _ _ ih =>
    rw [print, List.append_assoc]
    apply ih (.inr rfl)
    rintro _ ⟨⟩
    rfl
  | call _ _ ih =>
    rw [print, List.append_assoc]
    apply ih (.inr rfl)
    rintro _ ⟨⟩
    rfl
  | template | paren | array =>
    apply Term.unaryLength_eq_zero
    · rintro _ ⟨⟩
      simp
    · simp [print, isNameChar, isNameStart, unaryWords]
  | str value hquote =>
    obtain ⟨q, -, hq, hprint⟩ := exists_print_str hquote value
    rw [hprint]
    apply Term.unaryLength_eq_zero
    · rintro _ ⟨⟩
      obtain rfl | rfl := hq <;> simp
    · obtain rfl | rfl := hq <;> simp [isNameChar, isNameStart, unaryWords]
  | _ => simp at hlevel

end Term

end UtilityClasses
