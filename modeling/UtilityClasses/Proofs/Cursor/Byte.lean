import Mathlib.Data.List.Flatten
import Mathlib.Tactic.Common
import Mathlib.Tactic.SplitIfs
import UtilityClasses.Cursor.Byte
import UtilityClasses.Cursor.State
import UtilityClasses.Scan.Lexeme

/-!
# The bytes of characters

What is found by looking at the bytes of a text is what is found by looking at its characters:
an ASCII character is one byte, the bytes of every other character lie beyond ASCII, and the
first of them tells how many there are.
-/

namespace UtilityClasses.Cursor

open Text (byteSize)

variable {c d : Char} {text later : List Char}

/-! ### One character -/

/-- The characters that are one byte. -/
def IsAscii (c : Char) : Prop :=
  c.toNat < 128

instance (c : Char) : Decidable (IsAscii c) :=
  inferInstanceAs (Decidable (c.toNat < 128))

/-- That all characters of a text are ASCII is computed one by one. -/
theorem forall_isAscii {text : List Char} (h : text.all (IsAscii ·) = true) :
  ∀ c ∈ text, IsAscii c
  := by
  simpa using h

theorem utf8EncodeChar_of_isAscii (h : IsAscii c) :
  String.utf8EncodeChar c = [byte c]
  := by
  have hle : c.val.toNat ≤ 127 := Nat.le_of_lt_succ h
  rw [String.utf8EncodeChar]
  simp only [hle, if_true]
  rfl

/-- The bytes of a character beyond ASCII lie beyond ASCII. -/
theorem le_of_mem_utf8EncodeChar (h : ¬ IsAscii c) {b : UInt8} (hb : b ∈ String.utf8EncodeChar c) :
  0x80 ≤ b
  := by
  have hgt : ¬ c.val.toNat ≤ 127 := by
    intro hle
    apply h (Nat.lt_succ_of_le hle)
  rw [String.utf8EncodeChar] at hb
  simp only [hgt, if_false] at hb
  rw [UInt8.le_iff_toNat_le]
  change 128 ≤ b.toNat
  split at hb
  · simp only [List.mem_cons, List.not_mem_nil, or_false] at hb
    obtain rfl | rfl := hb <;> rw [UInt8.toNat_ofNat'] <;> omega
  · split at hb
    · simp only [List.mem_cons, List.not_mem_nil, or_false] at hb
      obtain rfl | rfl | rfl := hb <;> rw [UInt8.toNat_ofNat'] <;> omega
    · simp only [List.mem_cons, List.not_mem_nil, or_false] at hb
      obtain rfl | rfl | rfl | rfl := hb <;> rw [UInt8.toNat_ofNat'] <;> omega

/-- The first byte of a character tells its width. -/
theorem exists_utf8EncodeChar_eq_cons (c : Char) :
  ∃ first others, String.utf8EncodeChar c = first :: others ∧ width first = c.utf8Size
  := by
  have hmax : c.val.toNat < 0x110000 := by
    obtain h | ⟨-, h⟩ := c.valid <;> grind
  rw [← String.length_utf8EncodeChar, String.utf8EncodeChar]
  simp only [width, Bool.and_eq_true, decide_eq_true_eq, UInt8.le_iff_toNat_le]
  -- each length has its own first byte
  repeat' split
  all_goals
    refine ⟨_, _, rfl, ?_⟩
    simp only [UInt8.toNat_ofNat', UInt8.reduceToNat, List.length_cons, List.length_nil]
    grind

theorem toNat_byte (h : IsAscii c) :
  (byte c).toNat = c.toNat
  := by
  rw [byte, UInt8.toNat_ofNat']
  apply Nat.mod_eq_of_lt (Nat.lt_trans h (by decide))

theorem byte_inj (hc : IsAscii c) (hd : IsAscii d) :
  byte c = byte d ↔ c = d
  := by
  constructor
  · intro h
    rw [← UInt8.toNat_inj, toNat_byte hc, toNat_byte hd] at h
    apply Char.toNat_inj.mp h
  · apply congrArg

theorem byte_lt (h : IsAscii c) :
  ¬ 0x80 ≤ byte c
  := by
  rw [UInt8.le_iff_toNat_le, toNat_byte h]
  apply Nat.not_le_of_lt h

/-! ### Texts -/

@[simp]
theorem encode_nil :
  encode [] = []
  := rfl

theorem encode_cons :
  encode (c :: text) = String.utf8EncodeChar c ++ encode text
  := List.flatMap_cons

theorem encode_append :
  encode (text ++ later) = encode text ++ encode later
  := List.flatMap_append

theorem encode_cons_of_isAscii (h : IsAscii c) :
  encode (c :: text) = byte c :: encode text
  := by
  rw [encode_cons, utf8EncodeChar_of_isAscii h, List.singleton_append]

theorem length_encode (text : List Char) :
  (encode text).length = byteSize text
  := by
  induction text with
  | nil => rfl
  | cons c text ih =>
    rw [encode_cons, List.length_append, ih, String.length_utf8EncodeChar]
    rfl

/-- An ASCII text is as many bytes as characters. -/
theorem byteSize_of_isAscii (h : ∀ c ∈ text, IsAscii c) :
  byteSize text = text.length
  := by
  induction text with
  | nil => rfl
  | cons c text ih =>
    rw [List.forall_mem_cons] at h
    rw [byteSize, ih h.2, ← String.length_utf8EncodeChar, utf8EncodeChar_of_isAscii h.1,
      List.length_singleton, List.length_cons, Nat.add_comm]

/-! ### The byte at the cursor -/

/-- The first byte of a text, zero if it is empty. -/
def lead (text : List Char) : UInt8 :=
  (encode text)[0]?.getD 0

@[simp]
theorem lead_nil :
  lead [] = 0
  := rfl

theorem lead_cons_of_isAscii (h : IsAscii c) :
  lead (c :: text) = byte c
  := by
  rw [lead, encode_cons_of_isAscii h]
  rfl

theorem le_lead_cons (h : ¬ IsAscii c) :
  0x80 ≤ lead (c :: text)
  := by
  obtain ⟨first, others, heq, -⟩ := exists_utf8EncodeChar_eq_cons c
  rw [lead, encode_cons, heq]
  apply le_of_mem_utf8EncodeChar h
  simp [heq]

theorem width_lead_cons :
  width (lead (c :: text)) = c.utf8Size
  := by
  obtain ⟨first, others, heq, hwidth⟩ := exists_utf8EncodeChar_eq_cons c
  rw [lead, encode_cons, heq, ← hwidth]
  rfl

/-- The second byte of a text that starts with an ASCII character. -/
theorem encode_cons_getElem? (h : IsAscii c) (count : Nat) :
  (encode (c :: text))[count + 1]? = (encode text)[count]?
  := by
  rw [encode_cons_of_isAscii h, List.getElem?_cons_succ]

/-- The characters that a reading looks for by their byte: those of ASCII but for the null, the
byte of which is also found at the end of a text. -/
def IsSign (c : Char) : Prop :=
  IsAscii c ∧ c ≠ '\x00'

instance (c : Char) : Decidable (IsSign c) :=
  inferInstanceAs (Decidable (IsAscii c ∧ c ≠ '\x00'))

/-- A sign lies ahead if its byte does. -/
theorem lead_eq_byte_iff (h : IsSign d) :
  lead text = byte d ↔ text.head? = some d
  := by
  obtain ⟨hascii, hne⟩ := h
  cases text with
  | nil =>
    rw [lead_nil, List.head?_nil, ← show byte '\x00' = 0 from rfl, byte_inj (by decide) hascii]
    simpa using hne.symm
  | cons c text =>
    rw [List.head?_cons, Option.some.injEq]
    by_cases hc : IsAscii c
    · rw [lead_cons_of_isAscii hc, byte_inj hc hascii]
    · constructor
      · intro heq
        exact absurd (heq ▸ le_lead_cons hc) (byte_lt hascii)
      · rintro rfl
        exact absurd hascii hc

/-- The byte behind an ASCII character is that of a sign if this lies behind it. -/
theorem next_eq_byte_iff (hc : IsAscii c) (hhead : text.head? = some c) (hd : IsSign d) :
  (encode text)[1]?.getD 0 = byte d ↔ (text.drop 1).head? = some d
  := by
  obtain ⟨rest, rfl⟩ := List.head?_eq_some_iff.mp hhead
  rw [encode_cons_getElem? hc]
  exact lead_eq_byte_iff hd

/-- Two signs lie ahead if their bytes do. -/
theorem lead_eq_byte_and_iff (hc : IsSign c) (hd : IsSign d) :
  lead text = byte c ∧ (encode text)[1]?.getD 0 = byte d ↔
    text.head? = some c ∧ (text.drop 1).head? = some d
  := by
  rw [lead_eq_byte_iff hc]
  apply and_congr_right
  intro hhead
  exact next_eq_byte_iff hc.1 hhead hd

/-- One sign lies ahead without the other one behind it. -/
theorem lead_eq_byte_and_ne_iff (hc : IsSign c) (hd : IsSign d) :
  lead text = byte c ∧ (encode text)[1]?.getD 0 ≠ byte d ↔
    text.head? = some c ∧ (text.drop 1).head? ≠ some d
  := by
  rw [lead_eq_byte_iff hc]
  apply and_congr_right
  intro hhead
  exact not_congr (next_eq_byte_iff hc.1 hhead hd)

/-! ### Classes -/

/-- Every byte of a character is of a class of bytes exactly if the character is of a class of
characters. -/
def Reflects (kind : UInt8 → Bool) (kind' : Char → Bool) : Prop :=
  ∀ c, ∀ b ∈ String.utf8EncodeChar c, kind b = kind' c

theorem Reflects.lead_cons {kind : UInt8 → Bool} {kind' : Char → Bool} (h : Reflects kind kind') :
  kind (lead (c :: text)) = kind' c
  := by
  obtain ⟨first, others, heq, -⟩ := exists_utf8EncodeChar_eq_cons c
  have hlead : lead (c :: text) = first := by
    rw [lead, encode_cons, heq]
    rfl
  rw [hlead]
  apply h c
  simp [heq]

/-- The byte at the cursor is of a class if the character ahead is. -/
theorem Reflects.lead {kind : UInt8 → Bool} {kind' : Char → Bool} (h : Reflects kind kind')
    (hzero : kind 0 = false) (text : List Char) :
  kind (lead text) = text.head?.any kind'
  := by
  cases text with
  | nil => exact hzero
  | cons c text => exact h.lead_cons

/-- The longest run of bytes of a class is the longest run of characters. -/
theorem Reflects.takeWhile {kind : UInt8 → Bool} {kind' : Char → Bool} (h : Reflects kind kind')
    (text : List Char) :
  (encode text).takeWhile kind = encode (text.takeWhile kind')
  := by
  induction text with
  | nil => rfl
  | cons c text ih =>
    rw [encode_cons]
    cases hc : kind' c with
    | true =>
      rw [List.takeWhile_append_of_pos, List.takeWhile_cons_of_pos hc, encode_cons, ih]
      intro b hb
      rw [h c b hb, hc]
    | false =>
      obtain ⟨first, others, heq, -⟩ := exists_utf8EncodeChar_eq_cons c
      have hfirst : kind first = false := by
        rw [h c first (by simp [heq]), hc]
      rw [heq, List.cons_append, List.takeWhile_cons_of_neg (by simp [hfirst]),
        List.takeWhile_cons_of_neg (by simp [hc])]
      rfl

/-- A character beyond ASCII is none of the ASCII characters. -/
theorem ne_of_not_isAscii (h : ¬ IsAscii c) (hd : IsAscii d) :
  c ≠ d
  := by
  rintro rfl
  exact h hd

theorem isNameStart_of_not_isAscii (h : ¬ IsAscii c) :
  Scan.isNameStart c = true
  := by
  have hle : 0x80 ≤ c.toNat := Nat.le_of_not_lt h
  simp [Scan.isNameStart, hle]

/-! ### Classes made of others -/

namespace Reflects

variable {kind more : UInt8 → Bool} {kind' more' : Char → Bool}

theorem congr (h : Reflects kind kind') (heq : ∀ c, more' c = kind' c) :
  Reflects kind more'
  := fun c b hb => (h c b hb).trans (heq c).symm

theorem not (h : Reflects kind kind') :
  Reflects (fun b => !kind b) fun c => !kind' c
  := fun c b hb => congrArg (! ·) (h c b hb)

theorem or (h : Reflects kind kind') (h' : Reflects more more') :
  Reflects (fun b => kind b || more b) fun c => kind' c || more' c
  := fun c b hb => congrArg₂ (· || ·) (h c b hb) (h' c b hb)

theorem and (h : Reflects kind kind') (h' : Reflects more more') :
  Reflects (fun b => kind b && more b) fun c => kind' c && more' c
  := fun c b hb => congrArg₂ (· && ·) (h c b hb) (h' c b hb)

/-- The class of one ASCII character. -/
theorem single (hd : IsAscii d) :
  Reflects (· == byte d) (· = d)
  := by
  intro c b hb
  rw [Bool.eq_iff_iff, beq_iff_eq, decide_eq_true_eq]
  by_cases hc : IsAscii c
  · rw [utf8EncodeChar_of_isAscii hc, List.mem_singleton] at hb
    rw [hb, byte_inj hc hd]
  · have hle := le_of_mem_utf8EncodeChar hc hb
    constructor
    · rintro rfl
      exact absurd hle (byte_lt hd)
    · rintro rfl
      exact absurd hd hc

theorem any {set : List Char} (h : ∀ d ∈ set, IsAscii d) :
  Reflects (fun b => set.any (b == byte ·)) fun c => set.any (c = ·)
  := by
  induction set with
  | nil => exact fun _ _ _ => rfl
  | cons d set ih =>
    rw [List.forall_mem_cons] at h
    exact (single h.1).or (ih h.2)

/-- The ASCII characters between two of them. -/
theorem between {low high : Char} (hlow : IsAscii low) (hhigh : IsAscii high) :
  Reflects (fun b => byte low ≤ b && b ≤ byte high)
    fun c => low.toNat ≤ c.toNat && c.toNat ≤ high.toNat
  := by
  intro c b hb
  simp only [UInt8.le_iff_toNat_le, toNat_byte hlow, toNat_byte hhigh]
  by_cases hc : IsAscii c
  · rw [utf8EncodeChar_of_isAscii hc, List.mem_singleton] at hb
    rw [hb, toNat_byte hc]
  · have hle := le_of_mem_utf8EncodeChar hc hb
    rw [UInt8.le_iff_toNat_le] at hle
    have hbyte : ¬ b.toNat ≤ high.toNat := Nat.not_le_of_lt (Nat.lt_of_lt_of_le hhigh hle)
    have hchar : ¬ c.toNat ≤ high.toNat := fun h => hc (Nat.lt_of_le_of_lt h hhigh)
    rw [decide_eq_false hbyte, decide_eq_false hchar, Bool.and_false, Bool.and_false]

/-- The characters beyond ASCII. -/
theorem beyond :
  Reflects (0x80 ≤ ·) (0x80 ≤ ·.toNat)
  := by
  intro c b hb
  dsimp only
  by_cases hc : IsAscii c
  · rw [utf8EncodeChar_of_isAscii hc, List.mem_singleton] at hb
    rw [hb, decide_eq_false (byte_lt hc), decide_eq_false (Nat.not_le_of_lt hc)]
  · rw [decide_eq_true (le_of_mem_utf8EncodeChar hc hb), decide_eq_true (Nat.le_of_not_lt hc)]

/-- Classes that have one more ASCII character. -/
theorem or_eq (h : Reflects kind kind') (hd : IsAscii d) :
  Reflects (fun b => kind b || b == byte d) fun c => kind' c || c = d
  := h.or (single hd)

end Reflects

theorem reflects_isSpacing :
  Reflects isSpacing Scan.isSpacing
  := (Reflects.any (forall_isAscii (by decide))).congr fun c => by
    simp [Scan.isSpacing, Bool.or_assoc]

theorem reflects_isDigit :
  Reflects isDigit Char.isDigit
  := (Reflects.between (by decide) (by decide)).congr fun c => by
    have hdigit : c.isDigit = (decide (c.val ≥ '0'.val) && decide (c.val ≤ '9'.val)) := rfl
    simp only [hdigit, ge_iff_le, UInt32.le_iff_toNat_le]
    rfl

theorem reflects_isAlpha :
  Reflects isAlpha Char.isAlpha
  := ((Reflects.between (by decide) (by decide)).or
      (.between (by decide) (by decide))).congr fun c => by
    have halpha : c.isAlpha =
        (decide (c.val ≥ 'A'.val ∧ c.val ≤ 'Z'.val) ||
          (decide (c.val ≥ 'a'.val) && decide (c.val ≤ 'z'.val))) := rfl
    simp only [halpha, ge_iff_le, UInt32.le_iff_toNat_le, Bool.decide_and]
    rfl

theorem reflects_isNameStart :
  Reflects isNameStart Scan.isNameStart
  := ((reflects_isAlpha.or_eq (by decide)).or_eq (by decide)).or .beyond

theorem reflects_isNameByte :
  Reflects isNameByte Scan.isNameChar
  := reflects_isNameStart.or reflects_isDigit

theorem reflects_isNumberByte :
  Reflects isNumberByte Scan.isNumberChar
  := ((reflects_isAlpha.or reflects_isDigit).or_eq (by decide)).or_eq (by decide)

theorem reflects_isTagNameByte :
  Reflects isTagNameByte Scan.isTagNameChar
  := (((reflects_isAlpha.or reflects_isDigit).or (.any (forall_isAscii (by decide)))).or
      .beyond).congr fun c => by
    simp [Scan.isTagNameChar, Scan.isNameChar, Scan.isNameStart, Bool.or_assoc, Bool.or_comm,
      Bool.or_left_comm]

theorem reflects_isAttributeNameByte :
  Reflects isAttributeNameByte Scan.isAttributeNameChar
  := (reflects_isSpacing.not.and
      (Reflects.any (forall_isAscii (by decide))).not).congr fun c => by
    simp [Scan.isAttributeNameChar, Scan.attributeNameEnds]

/-! ### Searching -/

variable {needle : List Char}

/-- The bytes of an ASCII text lie ahead where the text does. -/
theorem isPrefixOf_encode (h : ∀ d ∈ needle, IsAscii d) (text : List Char) :
  (encode needle).isPrefixOf (encode text) = needle.isPrefixOf text
  := by
  induction needle generalizing text with
  | nil => rfl
  | cons d needle ih =>
    rw [List.forall_mem_cons] at h
    rw [encode_cons_of_isAscii h.1]
    cases text with
    | nil => rfl
    | cons c text =>
      by_cases hc : IsAscii c
      · rw [encode_cons_of_isAscii hc, List.isPrefixOf, List.isPrefixOf, ih h.2]
        congr 1
        rw [Bool.eq_iff_iff, beq_iff_eq, beq_iff_eq, byte_inj h.1 hc]
      · obtain ⟨first, others, heq, -⟩ := exists_utf8EncodeChar_eq_cons c
        have hle : 0x80 ≤ first := le_of_mem_utf8EncodeChar hc (by simp [heq])
        have hbyte : (byte d == first) = false := by
          rw [beq_eq_false_iff_ne]
          rintro rfl
          exact byte_lt h.1 hle
        have hchar : (d == c) = false := beq_eq_false_iff_ne.mpr (ne_of_not_isAscii hc h.1).symm
        rw [encode_cons, heq, List.cons_append, List.isPrefixOf, List.isPrefixOf, hbyte, hchar,
          Bool.false_and, Bool.false_and]

/-- Bytes with which a needle does not start are passed over. -/
theorem firstMatch_append {b : UInt8} {bytes passed rest : List UInt8} (h : b ∉ passed) :
  firstMatch (b :: bytes) (passed ++ rest) =
    (firstMatch (b :: bytes) rest).map (· + passed.length)
  := by
  induction passed with
  | nil => simp
  | cons first passed ih =>
    rw [List.mem_cons, not_or] at h
    have hfirst : (b == first) = false := beq_eq_false_iff_ne.mpr h.1
    rw [List.cons_append, firstMatch, List.isPrefixOf, hfirst, Bool.false_and, if_neg (by simp),
      ih h.2, Option.map_map]
    congr 1

/-- An ASCII text is found among the bytes where it is found among the characters. -/
theorem firstMatch_encode (h : ∀ d ∈ needle, IsAscii d) (hne : needle ≠ []) (text : List Char) :
  firstMatch (encode needle) (encode text) =
    (Scan.offsetOf needle text).map fun count => byteSize (text.take count)
  := by
  obtain ⟨d, others, rfl⟩ := List.exists_cons_of_ne_nil hne
  have hd : IsAscii d := h d List.mem_cons_self
  induction text with
  | nil => rw [encode_cons_of_isAscii hd]; rfl
  | cons c text ih =>
    have hahead := isPrefixOf_encode h (c :: text)
    by_cases hstarts : (d :: others).isPrefixOf (c :: text) = true
    · obtain ⟨first, bytes, heq, -⟩ := exists_utf8EncodeChar_eq_cons c
      rw [hstarts, encode_cons (c := c), heq, List.cons_append] at hahead
      rw [encode_cons (c := c), heq, List.cons_append, firstMatch, if_pos hahead, Scan.offsetOf,
        if_pos hstarts]
      rfl
    · rw [Scan.offsetOf, if_neg hstarts, Option.map_map]
      by_cases hc : IsAscii c
      · rw [encode_cons_of_isAscii hc] at hahead ⊢
        rw [firstMatch, if_neg (by rw [hahead]; exact hstarts), ih, Option.map_map]
        congr 1
        funext count
        simp [byteSize, ← String.length_utf8EncodeChar, utf8EncodeChar_of_isAscii hc,
          Nat.add_comm]
      · rw [encode_cons_of_isAscii hd, encode_cons, firstMatch_append,
          ← encode_cons_of_isAscii hd, ih, Option.map_map]
        · congr 1
          funext count
          simp [byteSize, Nat.add_comm]
        · intro hmem
          exact byte_lt hd (le_of_mem_utf8EncodeChar hc hmem)

/-! ### Small letters -/

theorem toLower_byte (h : IsAscii c) :
  toLower (byte c) = byte c.toLower ∧ IsAscii c.toLower
  := by
  have hall : ∀ n < 128, toLower (UInt8.ofNat n) = byte (Char.ofNat n).toLower ∧
      IsAscii (Char.ofNat n).toLower := by decide +kernel
  have hc := hall c.toNat h
  rwa [Char.ofNat_toNat] at hc

theorem toLower_of_le {b : UInt8} (h : 0x80 ≤ b) :
  toLower b = b
  := by
  have hle : 'Z'.toNat < b.toNat := Nat.lt_of_lt_of_le (by decide) (UInt8.le_iff_toNat_le.mp h)
  have hnot : ¬ (b ≤ byte 'Z') := by
    rw [UInt8.le_iff_toNat_le]
    exact Nat.not_le_of_lt hle
  simp [toLower, hnot]

theorem toLower_of_not_isAscii (h : ¬ IsAscii c) :
  c.toLower = c
  := by
  have hgt : 128 ≤ c.val.toNat := Nat.le_of_not_lt h
  have hupper : 'Z'.val.toNat = 90 := rfl
  apply dif_neg
  simp only [UInt32.le_iff_toNat_le, not_and]
  omega

/-- The bytes in small letters are the bytes of the text in small letters. -/
theorem map_toLower_encode (text : List Char) :
  (encode text).map toLower = encode (text.map Char.toLower)
  := by
  induction text with
  | nil => rfl
  | cons c text ih =>
    rw [List.map_cons, encode_cons, List.map_append, ih]
    by_cases hc : IsAscii c
    · obtain ⟨hbyte, hlower⟩ := toLower_byte hc
      rw [utf8EncodeChar_of_isAscii hc, encode_cons_of_isAscii hlower, ← hbyte]
      rfl
    · have hbytes : (String.utf8EncodeChar c).map toLower = String.utf8EncodeChar c := by
        rw [List.map_congr_left fun b hb => toLower_of_le (le_of_mem_utf8EncodeChar hc hb)]
        apply List.map_id'
      rw [hbytes, toLower_of_not_isAscii hc, encode_cons]

/-! ### Texts -/

theorem toList_toUTF8 (text : String) :
  text.toUTF8.data.toList = encode text.toList
  := by
  rw [String.toUTF8_eq_toByteArray, ← String.utf8Encode_toList]
  exact List.toList_data_toByteArray

end UtilityClasses.Cursor

namespace UtilityClasses

theorem utf8ByteSize_eq (text : String) :
  text.utf8ByteSize = Text.byteSize text.toList
  := by
  rw [← Cursor.length_encode, ← Cursor.toList_toUTF8, Array.length_toList]
  rfl

end UtilityClasses
