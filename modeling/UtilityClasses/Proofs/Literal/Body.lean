import Mathlib.Algebra.Group.Nat.Defs
import Mathlib.Data.List.Induction
import UtilityClasses.Proofs.Literal.RoundTrip

/-!
# Bodies of string literals

The body of a string literal is made of characters that stand for themselves and of escapes. Its
value is a row of UTF-16 code units, because an escape can stand for half of a character. `decode`
gives the text with this value exactly if no escape stands for a surrogate and none writes a code
point with more than six digits: such escapes are kept as they stand, also where two surrogates in a
row are a character.
-/

namespace UtilityClasses.Literal

/-! ### Code units -/

/-- The UTF-16 code units of a code point. -/
def codeUnits (code : Nat) : List UInt16 :=
  if code < 0x10000 then [code.toUInt16]
  else
    [(0xD800 + (code - 0x10000) / 0x400).toUInt16, (0xDC00 + (code - 0x10000) % 0x400).toUInt16]

/-- The UTF-16 code units of a text. -/
def utf16 (text : List Char) : List UInt16 :=
  text.flatMap fun c => codeUnits c.toNat

/-- The code point is half of a pair of code units. -/
def IsSurrogate (code : Nat) : Prop :=
  0xD800 ≤ code ∧ code ≤ 0xDFFF

/-! ### The grammar of bodies -/

/-- A hexadecimal digit, which may be a small or a capital letter. -/
structure Digit where
  value : Fin 16
  capital : Bool

/-- A digit as it is written. -/
def Digit.char (digit : Digit) : Char :=
  if digit.value.val < 10 then Char.ofNat ('0'.toNat + digit.value)
  else Char.ofNat ((if digit.capital then 'A' else 'a').toNat + (digit.value - 10))

/-- The number that digits write. -/
def number (digits : List Digit) : Nat :=
  digits.foldl (fun sum digit => 16 * sum + digit.value) 0

/-- A part of a body. -/
inductive BodyPart where
  /-- A character that stands for itself. -/
  | plain (c : Char)
  /-- An escape of which the letter stands for another character. -/
  | single (letter denoted : Char)
  /-- The escape of the character zero. -/
  | null
  /-- The escape of a code unit by two digits. -/
  | hex (digits : List Digit)
  /-- The escape of a code unit by four digits. -/
  | unit (digits : List Digit)
  /-- The escape of a code point by digits in braces. -/
  | codePoint (digits : List Digit)
  /-- A line break that is not part of the value. -/
  | continuation (lineBreak : List Char)
  /-- An escaped character that stands for itself. -/
  | identity (c : Char)

/-- The letters of escapes, and the characters that they stand for. -/
def singleEscapes : List (Char × Char) :=
  [('\'', '\''), ('"', '"'), ('\\', '\\'), ('b', '\x08'), ('f', '\x0c'), ('n', '\n'), ('r', '\r'),
    ('t', '\t'), ('v', '\x0b')]

/-- The line breaks that can be escaped. -/
def lineBreaks : List (List Char) :=
  [['\n'], ['\r'], ['\r', '\n'], ['\u2028'], ['\u2029']]

namespace BodyPart

/-- A part as it is written. -/
def write : BodyPart → List Char
  | plain c => [c]
  | single letter _ => ['\\', letter]
  | null => ['\\', '0']
  | hex digits => '\\' :: 'x' :: digits.map Digit.char
  | unit digits => '\\' :: 'u' :: digits.map Digit.char
  | codePoint digits => '\\' :: 'u' :: '\x7b' :: (digits.map Digit.char ++ ['\x7d'])
  | continuation lineBreak => '\\' :: lineBreak
  | identity c => ['\\', c]

/-- The code units that a part stands for. -/
def value : BodyPart → List UInt16
  | plain c => codeUnits c.toNat
  | single _ denoted => codeUnits denoted.toNat
  | null => [0]
  | hex digits => [(number digits).toUInt16]
  | unit digits => [(number digits).toUInt16]
  | codePoint digits => codeUnits (number digits)
  | continuation _ => []
  | identity c => codeUnits c.toNat

/-- The part can be written between the quotes in front of a text. -/
def Fits (quote : Char) (later : List Char) : BodyPart → Prop
  | plain c => c ≠ quote ∧ c ≠ '\\' ∧ c ≠ '\n' ∧ c ≠ '\r'
  | single letter denoted => (letter, denoted) ∈ singleEscapes
  | null => ∀ c ∈ later.head?, c.isDigit = false
  | hex digits => digits.length = 2
  | unit digits => digits.length = 4
  | codePoint digits => digits ≠ [] ∧ number digits ≤ 0x10FFFF
  | continuation lineBreak =>
    lineBreak ∈ lineBreaks ∧ (lineBreak = ['\r'] → later.head? ≠ some '\n')
  | identity c =>
    c ∉ singleEscapes.map Prod.fst ∧ c ∉ ['x', 'u', '\n', '\r', '\u2028', '\u2029'] ∧
      c.isDigit = false

/-- The part is an escape that stands for a surrogate, or that has more than six digits. -/
def IsKept : BodyPart → Prop
  | unit digits => IsSurrogate (number digits)
  | codePoint digits => IsSurrogate (number digits) ∨ 6 < digits.length
  | _ => False

end BodyPart

/-- A body as it is written. -/
def bodyText (body : List BodyPart) : List Char :=
  body.flatMap BodyPart.write

/-- The code units that a body stands for. -/
def bodyValue (body : List BodyPart) : List UInt16 :=
  body.flatMap BodyPart.value

/-- The parts can be written one after the other between the quotes. -/
def BodyFits (quote : Char) : List BodyPart → Prop
  | [] => True
  | part :: later => part.Fits quote (bodyText later) ∧ BodyFits quote later

variable {quote c : Char} {digits : List Digit} {later : List Char}

/-! ### Digits -/

theorem Digit.hexDigit?_char (digit : Digit) :
  hexDigit? digit.char = some digit.value.val
  := by
  have hall : ∀ (value : Fin 16) (capital : Bool),
      hexDigit? (Digit.char ⟨value, capital⟩) = some value.val := by decide
  exact hall digit.value digit.capital

/-- A digit is no brace and no backslash. -/
theorem Digit.char_ne (digit : Digit) (h : hexDigit? c = none) :
  digit.char ≠ c
  := by
  rintro rfl
  simp [digit.hexDigit?_char] at h

theorem notMem_digits (h : hexDigit? c = none) (digits : List Digit) :
  c ∉ digits.map Digit.char
  := by
  intro hmem
  obtain ⟨digit, -, hchar⟩ := List.mem_map.mp hmem
  exact digit.char_ne h hchar

theorem mapM_hexDigit? (digits : List Digit) :
  (digits.map Digit.char).mapM hexDigit? = some (digits.map fun digit => digit.value.val)
  := by
  induction digits with
  | nil => rfl
  | cons digit digits ih =>
    simp [digit.hexDigit?_char, ih]

/-- The character of a code point, which is none if it is a surrogate. -/
theorem hexChar?_digits (digits : List Digit) :
  hexChar? (digits.map Digit.char) =
    if (number digits).isValidChar then some (Char.ofNat (number digits)) else none
  := by
  rw [hexChar?, mapM_hexDigit?, Option.bind_eq_bind, Option.bind_some, List.foldl_map]
  rfl

/-- Digits write a number below a power of their base. -/
theorem number_lt (digits : List Digit) :
  number digits < 16 ^ digits.length
  := by
  induction digits using List.reverseRecOn with
  | nil => simp [number]
  | append_singleton digits digit ih =>
    have hdigit := digit.value.isLt
    have hnumber : number (digits ++ [digit]) = 16 * number digits + digit.value := by
      simp [number]
    rw [hnumber, List.length_append, List.length_singleton, Nat.pow_succ]
    omega

/-- Two or four digits are the character with their number. -/
theorem fixedHex?_digits {width : Nat} (h : digits.length = width) (later : List Char) :
  fixedHex? width (digits.map Digit.char ++ later) =
    if (number digits).isValidChar then some (Char.ofNat (number digits)) else none
  := by
  have hlength : (digits.map Digit.char).length = width := by rw [List.length_map, h]
  rw [fixedHex?, if_pos (by rw [List.length_append]; omega), ← hlength, List.take_left,
    hexChar?_digits]

/-- At most six digits in braces are the character with their number. -/
theorem bracedHex?_digits (hne : digits ≠ []) (later : List Char) :
  bracedHex? (digits.map Digit.char ++ '\x7d' :: later) =
    if digits.length ≤ 6 ∧ (number digits).isValidChar then
      some (Char.ofNat (number digits), digits.length)
    else none
  := by
  have hpos : 0 < digits.length := List.length_pos_iff.mpr hne
  rw [bracedHex?_append (notMem_digits rfl digits), List.length_map, hexChar?_digits]
  by_cases hvalid : (number digits).isValidChar <;> simp [hpos, hvalid]

/-- A code point that is not half of a pair is that of a character. -/
theorem isValidChar_iff {code : Nat} (h : code ≤ 0x10FFFF) :
  code.isValidChar ↔ ¬ IsSurrogate code
  := by
  rw [Nat.isValidChar, IsSurrogate]
  omega

/-- Two digits write the code point of a character. -/
theorem isValidChar_hex (h : digits.length = 2) :
  (number digits).isValidChar
  := by
  have hlt := number_lt digits
  rw [h] at hlt
  exact .inl (by omega)

theorem isValidChar_unit_iff (h : digits.length = 4) :
  (number digits).isValidChar ↔ ¬ IsSurrogate (number digits)
  := by
  have hlt := number_lt digits
  rw [h] at hlt
  exact isValidChar_iff (by omega)

theorem utf16_ofNat {code : Nat} (h : code.isValidChar) :
  utf16 [Char.ofNat code] = codeUnits code
  := by
  have hcode : (Char.ofNat code).toNat = code := by
    rw [Char.ofNat, dif_pos h]
    rfl
  simp [utf16, hcode]

/-- At most four digits are one code unit. -/
theorem utf16_digits (h : (number digits).isValidChar) (hlength : digits.length ≤ 4) :
  utf16 [Char.ofNat (number digits)] = [(number digits).toUInt16]
  := by
  have hlt : number digits < 16 ^ 4 :=
    Nat.lt_of_lt_of_le (number_lt digits) (Nat.pow_le_pow_right (by decide) hlength)
  rw [utf16_ofNat h, codeUnits, if_pos (by omega)]

/-! ### Decoding part by part -/

/-- Characters other than the backslash are decoded to themselves. -/
theorem decodeAfter_append {text : List Char} (h : '\\' ∉ text) :
  decodeAfter 0 (text ++ later) = text ++ decodeAfter 0 later
  := by
  induction text with
  | nil => rfl
  | cons c text ih =>
    rw [List.mem_cons, not_or] at h
    rw [List.cons_append, decodeAfter, if_neg (Ne.symm h.1), ih h.2, List.cons_append]

/-- An escape that is not known is kept as it stands. -/
theorem decodeAfter_kept {letter : Char} {text : List Char}
    (hescape : escape (letter :: (text ++ later)) = (['\\', letter], 1)) (htext : '\\' ∉ text) :
  decodeAfter 0 ('\\' :: letter :: (text ++ later)) =
    '\\' :: letter :: text ++ decodeAfter 0 later
  := by
  have hletter : decodeAfter 0 ('\\' :: [letter] ++ (text ++ later)) = _ :=
    decodeAfter_escape [letter] hescape
  rw [decodeAfter_append htext] at hletter
  exact hletter

theorem escape_single {letter denoted : Char} (h : (letter, denoted) ∈ singleEscapes) :
  escape (letter :: later) = ([denoted], 1)
  := by
  simp only [singleEscapes, List.mem_cons, Prod.mk.injEq, List.not_mem_nil, or_false] at h
  obtain ⟨rfl, rfl⟩ | ⟨rfl, rfl⟩ | ⟨rfl, rfl⟩ | ⟨rfl, rfl⟩ | ⟨rfl, rfl⟩ | ⟨rfl, rfl⟩ | ⟨rfl, rfl⟩ |
    ⟨rfl, rfl⟩ | ⟨rfl, rfl⟩ := h <;> rfl

theorem escape_null (h : ∀ c ∈ later.head?, c.isDigit = false) :
  escape ('0' :: later) = (['\x00'], 1)
  := by
  have hany : later.head?.any Char.isDigit = false := by
    cases later with
    | nil => rfl
    | cons c later => simpa using h c rfl
  rw [escape, hany]
  rfl

theorem escape_continuation {lineBreak : List Char} (hmem : lineBreak ∈ lineBreaks)
    (h : lineBreak = ['\r'] → later.head? ≠ some '\n') :
  escape (lineBreak ++ later) = ([], lineBreak.length)
  := by
  simp only [lineBreaks, List.mem_cons, List.not_mem_nil, or_false] at hmem
  obtain rfl | rfl | rfl | rfl | rfl := hmem
  · rfl
  · have hfeed := h rfl
    cases later with
    | nil => rfl
    | cons c later =>
      rw [List.head?_cons, ne_eq, Option.some.injEq] at hfeed
      simp [escape, hfeed]
  · rfl
  · rfl
  · rfl

theorem escape_identity (h : (BodyPart.identity c).Fits quote later) :
  escape (c :: later) = ([c], 1)
  := by
  obtain ⟨hsingle, hother, hdigit⟩ := h
  simp only [singleEscapes, List.map_cons, List.map_nil, List.mem_cons, List.not_mem_nil, or_false,
    not_or] at hsingle hother
  have hzero : c ≠ '0' := by
    rintro rfl
    simp at hdigit
  simp [escape, hsingle, hother]

theorem escape_hex (h : digits.length = 2) (later : List Char) :
  escape ('x' :: (digits.map Digit.char ++ later)) = ([Char.ofNat (number digits)], 3)
  := by
  simp [escape, fixedHex?_digits h, isValidChar_hex h]

/-- Four digits are looked at as such, because none of them is a brace. -/
theorem escape_unit (h : digits.length = 4) (later : List Char) :
  escape ('u' :: (digits.map Digit.char ++ later)) =
    if (number digits).isValidChar then ([Char.ofNat (number digits)], 5) else (['\\', 'u'], 1)
  := by
  have hhex := fixedHex?_digits h later
  obtain ⟨digit, digits', rfl⟩ := List.exists_cons_of_length_pos (l := digits) (by omega)
  have hbrace := digit.char_ne (c := '\x7b') rfl
  rw [List.map_cons, List.cons_append] at hhex ⊢
  rw [escape.eq_16 _ fun _ heq => hbrace (List.cons.inj heq).1, hhex]
  split_ifs <;> rfl

theorem escape_codePoint (hne : digits ≠ []) (later : List Char) :
  escape ('u' :: '\x7b' :: (digits.map Digit.char ++ '\x7d' :: later)) =
    if digits.length ≤ 6 ∧ (number digits).isValidChar then
      ([Char.ofNat (number digits)], digits.length + 3)
    else (['\\', 'u'], 1)
  := by
  rw [escape, bracedHex?_digits hne]
  split_ifs <;> rfl

/-! ### Parts and bodies -/

theorem utf16_append (before after : List Char) :
  utf16 (before ++ after) = utf16 before ++ utf16 after
  := List.flatMap_append

theorem utf16_singleton (c : Char) :
  utf16 [c] = codeUnits c.toNat
  := by
  simp [utf16]

/-- Every character has a code unit. -/
theorem length_le_length_utf16 (text : List Char) :
  text.length ≤ (utf16 text).length
  := by
  induction text with
  | nil => exact Nat.le_refl 0
  | cons c text ih =>
    have hunits : 1 ≤ (codeUnits c.toNat).length := by
      rw [codeUnits]
      split_ifs <;> simp
    have hlength : (utf16 (c :: text)).length = (codeUnits c.toNat).length + (utf16 text).length :=
      List.length_append
    rw [hlength, List.length_cons]
    omega

theorem length_codeUnits_le (code : Nat) :
  (codeUnits code).length ≤ 2
  := by
  rw [codeUnits]
  split_ifs <;> simp

variable {part : BodyPart} {body : List BodyPart}

/-- A part that is not kept is decoded to a text with its code units. -/
theorem BodyPart.Fits.exists_text (h : part.Fits quote later) (hkept : ¬ part.IsKept) :
  ∃ text, utf16 text = part.value ∧
    decodeAfter 0 (part.write ++ later) = text ++ decodeAfter 0 later
  := by
  cases part with
  | plain c =>
    use [c], utf16_singleton c
    rw [write, List.singleton_append, decodeAfter, if_neg h.2.1, List.singleton_append]
  | single letter denoted =>
    use [denoted], utf16_singleton denoted
    exact decodeAfter_escape [letter] (escape_single h)
  | null =>
    use ['\x00'], rfl
    exact decodeAfter_escape ['0'] (escape_null h)
  | identity c =>
    use [c], utf16_singleton c
    exact decodeAfter_escape [c] (escape_identity h)
  | continuation lineBreak =>
    use [], rfl
    exact decodeAfter_escape lineBreak (escape_continuation h.1 h.2)
  | hex digits =>
    have hlength : digits.length = 2 := h
    use [Char.ofNat (number digits)], utf16_digits (isValidChar_hex hlength) (by omega)
    apply decodeAfter_escape ('x' :: digits.map Digit.char)
    rw [List.cons_append, escape_hex hlength, List.length_cons, List.length_map, hlength]
  | unit digits =>
    have hlength : digits.length = 4 := h
    have hvalid := (isValidChar_unit_iff hlength).mpr hkept
    use [Char.ofNat (number digits)], utf16_digits hvalid (by omega)
    apply decodeAfter_escape ('u' :: digits.map Digit.char)
    rw [List.cons_append, escape_unit hlength, if_pos hvalid, List.length_cons, List.length_map,
      hlength]
  | codePoint digits =>
    obtain ⟨hne, hle⟩ := h
    obtain ⟨hsurrogate, hsix⟩ := not_or.mp hkept
    have hvalid := (isValidChar_iff hle).mpr hsurrogate
    use [Char.ofNat (number digits)], utf16_ofNat hvalid
    apply decodeAfter_escape ('u' :: '\x7b' :: (digits.map Digit.char ++ ['\x7d']))
    have hescape := escape_codePoint hne later
    rw [if_pos ⟨Nat.not_lt.mp hsix, hvalid⟩] at hescape
    simpa using hescape

/-- A part that is kept is longer than its code units are many. -/
theorem BodyPart.Fits.decodeAfter_of_isKept (h : part.Fits quote later) (hkept : part.IsKept) :
  decodeAfter 0 (part.write ++ later) = part.write ++ decodeAfter 0 later ∧
    part.value.length < part.write.length
  := by
  cases part with
  | unit digits =>
    have hlength : digits.length = 4 := h
    have hvalid : ¬ (number digits).isValidChar := by
      rw [isValidChar_unit_iff hlength, not_not]
      exact hkept
    constructor
    · apply decodeAfter_kept _ (notMem_digits rfl digits)
      rw [escape_unit hlength, if_neg hvalid]
    · simp [write, value]
  | codePoint digits =>
    obtain ⟨hne, hle⟩ := h
    have hnot : ¬ (digits.length ≤ 6 ∧ (number digits).isValidChar) := by
      rw [isValidChar_iff hle, not_and_not_right]
      intro hsix
      exact hkept.resolve_right (Nat.not_lt.mpr hsix)
    constructor
    · have hescape := escape_codePoint hne later
      rw [if_neg hnot] at hescape
      have hbackslash : '\\' ∉ '\x7b' :: (digits.map Digit.char ++ ['\x7d']) := by
        simpa using notMem_digits (c := '\\') rfl digits
      have hkeep := decodeAfter_kept (by simpa using hescape) hbackslash
      simpa [write] using hkeep
    · have hunits := length_codeUnits_le (number digits)
      simp only [value, write, List.length_cons, List.length_append]
      omega
  | _ => exact hkept.elim

theorem bodyText_cons (part : BodyPart) (body : List BodyPart) :
  bodyText (part :: body) = part.write ++ bodyText body
  := rfl

/-- No code unit of a body is lost. -/
theorem BodyFits.length_le (h : BodyFits quote body) :
  (bodyValue body).length ≤ (utf16 (decode (bodyText body))).length
  := by
  induction body with
  | nil => exact Nat.zero_le _
  | cons part body ih =>
    obtain ⟨hpart, hbody⟩ := h
    have hle := ih hbody
    have hvalue : bodyValue (part :: body) = part.value ++ bodyValue body := rfl
    rw [decode] at hle ⊢
    rw [bodyText_cons, hvalue, List.length_append]
    by_cases hkept : part.IsKept
    · obtain ⟨hdecode, hlt⟩ := hpart.decodeAfter_of_isKept hkept
      have hwrite := length_le_length_utf16 part.write
      rw [hdecode, utf16_append, List.length_append]
      omega
    · obtain ⟨text, htext, hdecode⟩ := hpart.exists_text hkept
      rw [hdecode, utf16_append, htext, List.length_append]
      omega

/-- The text that a body is decoded to has the value of the body exactly if no part of it is
kept. -/
theorem BodyFits.utf16_decode_iff (h : BodyFits quote body) :
  utf16 (decode (bodyText body)) = bodyValue body ↔ ∀ part ∈ body, ¬ part.IsKept
  := by
  induction body with
  | nil => simp [bodyText, bodyValue, decode, decodeAfter, utf16]
  | cons part body ih =>
    obtain ⟨hpart, hbody⟩ := h
    have hle := hbody.length_le
    have hiff := ih hbody
    have hvalue : bodyValue (part :: body) = part.value ++ bodyValue body := rfl
    rw [decode] at hle hiff ⊢
    rw [bodyText_cons, hvalue, List.forall_mem_cons, ← hiff]
    by_cases hkept : part.IsKept
    · obtain ⟨hdecode, hlt⟩ := hpart.decodeAfter_of_isKept hkept
      have hwrite := length_le_length_utf16 part.write
      rw [hdecode, utf16_append]
      -- what is kept has more code units than it stands for, and no later part makes up for it
      constructor
      · intro heq
        have hlength := congrArg List.length heq
        rw [List.length_append, List.length_append] at hlength
        omega
      · rintro ⟨hnot, -⟩
        exact absurd hkept hnot
    · obtain ⟨text, htext, hdecode⟩ := hpart.exists_text hkept
      rw [hdecode, utf16_append, htext, List.append_cancel_left_eq]
      exact (and_iff_right hkept).symm

/-- Two surrogates in a row are a character, and both of them are kept. -/
theorem BodyFits.utf16_decode_iff_pair :
  let body : List BodyPart :=
    [.unit [⟨13, false⟩, ⟨8, false⟩, ⟨3, false⟩, ⟨13, false⟩],
      .unit [⟨13, false⟩, ⟨14, false⟩, ⟨0, false⟩, ⟨0, false⟩]]
  bodyValue body = utf16 [Char.ofNat 0x1F600] ∧ decode (bodyText body) = bodyText body ∧
    utf16 (decode (bodyText body)) ≠ bodyValue body
  := by
  intro body
  have hfits : BodyFits '"' body := ⟨rfl, rfl, trivial⟩
  refine ⟨by decide, by decide, ?_⟩
  rw [ne_eq, utf16_decode_iff hfits, List.forall_mem_cons, not_and_or, not_not]
  exact .inl ⟨by decide, by decide⟩

end UtilityClasses.Literal
