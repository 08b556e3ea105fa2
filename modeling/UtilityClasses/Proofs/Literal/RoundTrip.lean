import Mathlib.Tactic.Common
import UtilityClasses.Literal.Escape
import UtilityClasses.Literal.Spelling

/-!
# Spelled literals denote what is spelled

The body of a string literal that has been spelled is decoded character by character: each
escape denotes the character it was made for.
-/

namespace UtilityClasses.Literal

variable {quote c : Char} {rest : List Char}

/-! ### Control characters -/

/-- The hexadecimal digits of a control character write it. -/
theorem hexChar?_hexadecimal :
  ∀ n ∈ List.range 0xA0, hexChar? (Text.hexadecimal n) = some (Char.ofNat n)
  := by
  decide +kernel

/-- A control character has at most six digits, and none of them is a brace. -/
theorem hexadecimal_digits :
  ∀ n ∈ List.range 0xA0,
    0 < (Text.hexadecimal n).length ∧ (Text.hexadecimal n).length ≤ 6 ∧
      '\x7d' ∉ Text.hexadecimal n
  := by
  decide +kernel

/-- Digits in braces are those in front of the first closing brace. -/
theorem bracedHex?_append {digits : List Char} (h : '\x7d' ∉ digits) (rest : List Char) :
  bracedHex? (digits ++ '\x7d' :: rest) =
    if 0 < digits.length ∧ digits.length ≤ 6 then
      (hexChar? digits).map fun c => (c, digits.length)
    else none
  := by
  have hdigits : ∀ c ∈ digits, (c != '\x7d') = true := by
    intro c hc
    simpa using ne_of_mem_of_not_mem hc h
  have htake : (digits ++ '\x7d' :: rest).takeWhile (· != '\x7d') = digits := by
    rw [List.takeWhile_append_of_pos hdigits, List.takeWhile_cons_of_neg (by simp),
      List.append_nil]
  simp [bracedHex?, htake]

/-- A control character in braces. -/
theorem bracedHex?_hexadecimal {n : Nat} (h : n < 0xA0) (rest : List Char) :
  bracedHex? (Text.hexadecimal n ++ '\x7d' :: rest) =
    some (Char.ofNat n, (Text.hexadecimal n).length)
  := by
  rw [← List.mem_range] at h
  obtain ⟨hpos, hlength, hbrace⟩ := hexadecimal_digits n h
  rw [bracedHex?_append hbrace, if_pos ⟨hpos, hlength⟩, hexChar?_hexadecimal n h, Option.map_some]

theorem lt_of_isControl (h : isControl c = true) :
  c.toNat < 0xA0
  := by
  simp only [isControl, Bool.or_eq_true, decide_eq_true_eq, Bool.and_eq_true] at h
  omega

/-! ### Escapes -/

/-- What belongs to an escape is passed over. -/
theorem decodeAfter_length (escaped rest : List Char) :
  decodeAfter escaped.length (escaped ++ rest) = decodeAfter 0 rest
  := by
  induction escaped with
  | nil => rfl
  | cons c escaped ih => simpa [decodeAfter] using ih

/-- An escape is decoded to what it denotes. -/
theorem decodeAfter_escape (escaped : List Char) {denoted : List Char}
    (h : escape (escaped ++ rest) = (denoted, escaped.length)) :
  decodeAfter 0 ('\\' :: escaped ++ rest) = denoted ++ decodeAfter 0 rest
  := by
  rw [List.cons_append, decodeAfter, if_pos rfl, h, decodeAfter_length]

/-- A character is decoded from its spelling. -/
theorem decodeAfter_spellChar (hquote : quote = '"' ∨ quote = '\'') (c : Char)
    (rest : List Char) :
  decodeAfter 0 (spellChar quote c ++ rest) = c :: decodeAfter 0 rest
  := by
  rw [spellChar]
  split_ifs with hbackslash hfeed hreturn hline hparagraph hdelimiter hcontrol
  · subst hbackslash
    apply decodeAfter_escape ['\\'] rfl
  · subst hfeed
    apply decodeAfter_escape ['n'] rfl
  · subst hreturn
    apply decodeAfter_escape ['r'] rfl
  · subst hline
    apply decodeAfter_escape ['u', '2', '0', '2', '8'] rfl
  · subst hparagraph
    apply decodeAfter_escape ['u', '2', '0', '2', '9'] rfl
  · subst hdelimiter
    obtain rfl | rfl := hquote
    · apply decodeAfter_escape ['"'] rfl
    · apply decodeAfter_escape ['\''] rfl
  · have hn := lt_of_isControl hcontrol
    have hescape : escape (('u' :: '\x7b' :: Text.hexadecimal c.toNat ++ ['\x7d']) ++ rest) =
        ([c], ('u' :: '\x7b' :: Text.hexadecimal c.toNat ++ ['\x7d']).length) := by
      simp [escape, bracedHex?_hexadecimal hn]
    apply decodeAfter_escape _ hescape
  · rw [List.singleton_append, decodeAfter, if_neg hbackslash]

/-- A text is decoded from its spelling. -/
theorem decode_spell (hquote : quote = '"' ∨ quote = '\'') (value : List Char) :
  decode (value.flatMap (spellChar quote)) = value
  := by
  rw [decode]
  induction value with
  | nil => rfl
  | cons c value ih => rw [List.flatMap_cons, decodeAfter_spellChar hquote, ih]

end UtilityClasses.Literal
