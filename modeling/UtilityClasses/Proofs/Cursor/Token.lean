import UtilityClasses.Cursor.Token
import UtilityClasses.Proofs.Cursor.Byte
import UtilityClasses.Proofs.Text.Slice
import UtilityClasses.Proofs.Token.Affix

/-!
# Tokens read by their bytes

A token is cut by its bytes where it is cut by its characters. The bytes of a character beyond
ASCII are none of those that matter, so that it makes no difference whether a backslash passes
over the whole of such a character or over its first byte only.
-/

namespace UtilityClasses.Cursor

open Text (byteSize)
open Token (Place QuoteMark)

variable {bytes before beyond after : List UInt8} {b mark : UInt8} {quote : Option UInt8}
  {depth start pos : Nat} {c : Char}

/-! ### One byte -/

theorem rangesFrom_end (h : bytes.length ≤ pos) :
  rangesFrom bytes depth quote start pos =
    if start < bytes.length then [⟨start, bytes.length⟩] else []
  := by
  rw [rangesFrom, dif_neg (Nat.not_lt_of_le h)]

theorem rangesFrom_quoted (h : bytes = before ++ b :: after) :
  rangesFrom bytes depth (some mark) start before.length =
    if b = byte '\\' then rangesFrom bytes depth (some mark) start (before.length + 2)
    else rangesFrom bytes depth (if b = mark then none else some mark) start (before.length + 1)
  := by
  have hlt : before.length < bytes.length := by simp [h]
  have hget : bytes[before.length] = b := by simp [h]
  rw [rangesFrom, dif_pos hlt]
  simp only [hget]

theorem rangesFrom_outside (h : bytes = before ++ b :: after) :
  rangesFrom bytes depth none start before.length =
    if b = byte '\'' || b = byte '"' then
      rangesFrom bytes depth (some b) start (before.length + 1)
    else if b = byte '[' then rangesFrom bytes (depth + 1) none start (before.length + 1)
    else if b = byte ']' then rangesFrom bytes (depth - 1) none start (before.length + 1)
    else if b = byte ':' && depth = 0 then
      ⟨start, before.length⟩ ::
        rangesFrom bytes depth none (before.length + 1) (before.length + 1)
    else rangesFrom bytes depth none start (before.length + 1)
  := by
  have hlt : before.length < bytes.length := by simp [h]
  have hget : bytes[before.length] = b := by simp [h]
  rw [rangesFrom, dif_pos hlt]
  simp only [hget]

/-- A byte beyond ASCII is none of those that matter. -/
theorem ne_byte_of_le (h : 0x80 ≤ b) (hc : IsAscii c) :
  b ≠ byte c
  := by
  rintro rfl
  exact byte_lt hc h

/-- Bytes beyond ASCII are passed over. -/
theorem rangesFrom_beyond (hbeyond : ∀ b ∈ beyond, 0x80 ≤ b) (hquote : ∀ b ∈ quote, ¬ 0x80 ≤ b)
    (h : bytes = before ++ (beyond ++ after)) :
  rangesFrom bytes depth quote start before.length =
    rangesFrom bytes depth quote start (before ++ beyond).length
  := by
  induction beyond generalizing before with
  | nil => rw [List.append_nil]
  | cons b beyond ih =>
    rw [List.forall_mem_cons] at hbeyond
    obtain ⟨hb, hbeyond⟩ := hbeyond
    have hstep : rangesFrom bytes depth quote start before.length =
        rangesFrom bytes depth quote start (before.length + 1) := by
      cases quote with
      | none =>
        rw [rangesFrom_outside h]
        simp [ne_byte_of_le hb (show IsAscii '\'' by decide),
          ne_byte_of_le hb (show IsAscii '"' by decide),
          ne_byte_of_le hb (show IsAscii '[' by decide),
          ne_byte_of_le hb (show IsAscii ']' by decide),
          ne_byte_of_le hb (show IsAscii ':' by decide)]
      | some mark =>
        have hmark : b ≠ mark := by
          rintro rfl
          exact hquote b rfl hb
        rw [rangesFrom_quoted h, if_neg (ne_byte_of_le hb (by decide)), if_neg hmark]
    have hrest : rangesFrom bytes depth quote start (before ++ [b]).length =
        rangesFrom bytes depth quote start (before ++ [b] ++ beyond).length :=
      ih hbeyond (by simp [h])
    rw [List.length_append, List.length_singleton] at hrest
    rw [hstep, hrest, List.append_assoc]
    rfl

/-! ### One character -/

/-- The byte of a mark of quotation. -/
def markByte (mark : QuoteMark) : UInt8 :=
  byte mark

/-- The ranges from the offset of a character on, in the place where a reading of the characters
is. A byte of an escaped character has been passed over. -/
def rangesAt (bytes : List UInt8) (start pos : Nat) : Place → List Span
  | .outside depth => rangesFrom bytes depth none start pos
  | .quoted depth mark false => rangesFrom bytes depth (some (markByte mark)) start pos
  | .quoted depth mark true => rangesFrom bytes depth (some (markByte mark)) start (pos + 1)

theorem isAscii_mark (mark : QuoteMark) :
  IsAscii mark
  := by
  obtain ⟨mark, rfl | rfl⟩ := mark <;> decide

theorem rangesAt_ascii (hc : IsAscii c) (h : bytes = before ++ byte c :: after) (place : Place) :
  rangesAt bytes start before.length place =
    if c = ':' ∧ place = .top then
      ⟨start, before.length⟩ :: rangesAt bytes (before.length + 1) (before.length + 1) .top
    else rangesAt bytes start (before.length + 1) (place.next c)
  := by
  cases place with
  | outside depth =>
    rw [rangesAt, rangesFrom_outside h]
    simp only [byte_inj hc (show IsAscii '\'' by decide), byte_inj hc (show IsAscii '"' by decide),
      byte_inj hc (show IsAscii '[' by decide), byte_inj hc (show IsAscii ']' by decide),
      byte_inj hc (show IsAscii ':' by decide), Place.next, Place.top, Place.outside.injEq,
      Bool.or_eq_true, Bool.and_eq_true, decide_eq_true_eq]
    by_cases hmark : c = '"' ∨ c = '\''
    · have hcolon : ¬ (c = ':' ∧ depth = 0) := by
        rintro ⟨rfl, -⟩
        simp at hmark
      rw [if_pos hmark.symm, dif_pos hmark, if_neg hcolon]
      rfl
    · rw [if_neg (mt Or.symm hmark), dif_neg hmark]
      by_cases hcolon : c = ':' ∧ depth = 0
      · obtain ⟨rfl, rfl⟩ := hcolon
        rfl
      · rw [if_neg hcolon, if_neg hcolon]
        split_ifs <;> rfl
  | quoted depth mark escaped =>
    have hnot : ¬ (c = ':' ∧ Place.quoted depth mark escaped = .top) := by simp [Place.top]
    rw [if_neg hnot]
    cases escaped with
    | true => rfl
    | false =>
      rw [rangesAt, rangesFrom_quoted h]
      simp only [byte_inj hc (show IsAscii '\\' by decide), markByte,
        byte_inj hc (isAscii_mark mark), Place.next]
      split_ifs <;> rfl

/-- A character beyond ASCII does not change where a reading is, except that it may be escaped. -/
theorem rangesAt_beyond (hc : ¬ IsAscii c)
    (h : bytes = before ++ (String.utf8EncodeChar c ++ after)) (place : Place) :
  rangesAt bytes start before.length place =
    rangesAt bytes start (before ++ String.utf8EncodeChar c).length (place.next c)
  := by
  have hbeyond := fun b => le_of_mem_utf8EncodeChar (b := b) hc
  cases place with
  | outside depth =>
    have hnext : (Place.outside depth).next c = .outside depth := by
      have hmark : ¬ (c = '"' ∨ c = '\'') := by
        rintro (rfl | rfl) <;> exact hc (by decide)
      rw [Place.next, dif_neg hmark, if_neg (ne_of_not_isAscii hc (by decide)),
        if_neg (ne_of_not_isAscii hc (by decide))]
    rw [hnext]
    exact rangesFrom_beyond hbeyond (by simp) h
  | quoted depth mark escaped =>
    have hmark : ∀ b ∈ some (markByte mark), ¬ 0x80 ≤ b := by
      rintro _ ⟨⟩
      exact byte_lt (isAscii_mark mark)
    cases escaped with
    | true =>
      -- the first byte has been passed over with the backslash
      obtain ⟨first, others, heq, -⟩ := exists_utf8EncodeChar_eq_cons c
      rw [heq, List.forall_mem_cons] at hbeyond
      have hsplit : bytes = before ++ [first] ++ (others ++ after) := by
        simp [h, heq]
      have hothers : rangesFrom bytes depth (some (markByte mark)) start
          (before ++ [first]).length = rangesFrom bytes depth (some (markByte mark)) start
            (before ++ [first] ++ others).length :=
        rangesFrom_beyond hbeyond.2 hmark hsplit
      rw [List.length_append, List.length_singleton, List.append_assoc, List.singleton_append,
        ← heq] at hothers
      exact hothers
    | false =>
      have hnext : (Place.quoted depth mark false).next c = .quoted depth mark false := by
        rw [Place.next, if_neg (ne_of_not_isAscii hc (by decide)),
          if_neg (ne_of_not_isAscii hc (isAscii_mark mark))]
      rw [hnext]
      exact rangesFrom_beyond hbeyond hmark h

/-- The bytes of a character take a reading to the place that the character leads to. -/
theorem rangesAt_cons (place : Place) (front rest : List Char) (c : Char) (start : Nat) :
  rangesAt (encode (front ++ c :: rest)) start (byteSize front) place =
    if c = ':' ∧ place = .top then
      ⟨start, byteSize front⟩ ::
        rangesAt (encode (front ++ c :: rest)) (byteSize front + 1) (byteSize front + 1) .top
    else
      rangesAt (encode (front ++ c :: rest)) start (byteSize (front ++ [c])) (place.next c)
  := by
  simp only [← length_encode, encode_append]
  by_cases hc : IsAscii c
  · rw [encode_cons_of_isAscii hc, rangesAt_ascii hc rfl, encode_cons_of_isAscii hc]
    simp
  · have hcolon : ¬ (c = ':' ∧ place = .top) := by
      rintro ⟨rfl, -⟩
      exact hc (by decide)
    rw [if_neg hcolon, encode_cons, rangesAt_beyond hc rfl]
    simp [encode_cons]

/-! ### Segments -/

/-- The ranges of segments with colons between them, of which the first starts at an offset. -/
def rangesOf (start : Nat) : List (List Char) → List Span
  | [] => []
  | segment :: later =>
    ⟨start, start + byteSize segment⟩ :: rangesOf (start + byteSize segment + 1) later

/-- From a place in a segment on, the ranges are those of the pieces. -/
theorem rangesAt_eq (place : Place) (passed current text : List Char) :
  rangesAt (encode (passed ++ current ++ text)) (byteSize passed) (byteSize (passed ++ current))
      place =
    rangesOf (byteSize passed)
      (Token.dropEmptyLast ((place.pieces text).modifyHead (current ++ ·)))
  := by
  induction text generalizing place passed current with
  | nil =>
    have hend : rangesAt (encode (passed ++ current)) (byteSize passed)
        (byteSize (passed ++ current)) place =
          if byteSize passed < byteSize (passed ++ current) then
            [⟨byteSize passed, byteSize (passed ++ current)⟩]
          else [] := by
      rw [← length_encode (passed ++ current)]
      cases place with
      | outside => exact rangesFrom_end (Nat.le_refl _)
      | quoted _ _ escaped =>
        cases escaped with
        | true => exact rangesFrom_end (Nat.le_add_right _ 1)
        | false => exact rangesFrom_end (Nat.le_refl _)
    rw [List.append_nil, hend, Text.byteSize_append, Place.pieces, List.modifyHead_cons,
      List.append_nil]
    by_cases hempty : current = []
    · subst hempty
      simp [byteSize, Token.dropEmptyLast, rangesOf]
    · have hsize := Text.byteSize_pos hempty
      have hlast := Token.dropEmptyLast_of_ne_nil [] hempty
      rw [if_pos (by omega)]
      rw [List.nil_append] at hlast
      rw [hlast, rangesOf, rangesOf]
  | cons c text ih =>
    obtain ⟨first, later, hpieces⟩ := Place.exists_pieces_eq_cons (place.next c) text
    rw [rangesAt_cons, Place.pieces]
    split
    · next hcolon =>
      obtain ⟨rfl, rfl⟩ := hcolon
      have hnext : Place.top.next ':' = .top := rfl
      rw [hnext] at hpieces ⊢
      have hsize : byteSize (passed ++ current ++ [':']) = byteSize (passed ++ current) + 1 :=
        Text.byteSize_append (passed ++ current) [':']
      have hdrop : Token.dropEmptyLast (current :: first :: later) =
          current :: Token.dropEmptyLast (first :: later) :=
        Token.dropEmptyLast_append [current] (List.cons_ne_nil first later)
      have hrest := ih .top (passed ++ current ++ [':']) []
      rw [List.append_nil, hsize, List.append_assoc (passed ++ current), hpieces] at hrest
      rw [hpieces, List.modifyHead_cons, List.append_nil, hdrop, rangesOf,
        ← Text.byteSize_append]
      exact congrArg (List.cons _) hrest
    · have hrest := ih (place.next c) passed (current ++ [c])
      rw [hpieces] at hrest ⊢
      simpa using hrest

/-- The ranges of a token are those of its segments. -/
theorem ranges_encode (token : List Char) :
  ranges (encode token) = rangesOf 0 (Token.cut token)
  := by
  obtain ⟨first, later, hpieces⟩ := Place.exists_pieces_eq_cons .top token
  have hranges := rangesAt_eq .top [] [] token
  rw [hpieces] at hranges
  rw [Token.cut_eq_pieces, hpieces]
  exact hranges

/-- A text is cut out of a source exactly where it is a slice of it. -/
theorem textAt?_eq_some_iff {source inside : List Char} {span : Span} :
  textAt? source span = some inside ↔ Text.Slice source span inside
  := by
  simp only [textAt?, Option.bind_eq_bind, Option.bind_eq_some_iff, Prod.exists,
    Text.cutAt_eq_some_iff, Option.pure_def, Option.some.injEq]
  constructor
  · rintro ⟨_, after, ⟨rfl, hstop⟩, before, _, ⟨rfl, hstart⟩, rfl⟩
    refine ⟨before, after, rfl, hstart.symm, ?_⟩
    rw [← hstop, ← hstart, Text.byteSize_append]
  · rintro ⟨before, after, rfl, hstart, hstop⟩
    refine ⟨before ++ inside, after, ⟨rfl, ?_⟩, before, inside, ⟨rfl, hstart.symm⟩, rfl⟩
    rw [hstop, hstart, Text.byteSize_append]

/-- There is no text where there is no slice. -/
theorem textAt?_eq_none_iff {source : List Char} {span : Span} :
  textAt? source span = none ↔ ∀ inside, ¬ Text.Slice source span inside
  := by
  simp only [Option.eq_none_iff_forall_ne_some, ne_eq, textAt?_eq_some_iff]

/-- A range that is made of whole characters has a text. -/
theorem textAt?_eq (before inside later : List Char) :
  textAt? (before ++ inside ++ later) ⟨byteSize before, byteSize before + byteSize inside⟩ =
    some inside
  := textAt?_eq_some_iff.mpr ⟨before, later, rfl, rfl, rfl⟩

/-- Segments with colons between them are at the ranges that they have. -/
theorem mapM_textAt?_rangesOf (before later : List Char) (segments : List (List Char)) :
  (rangesOf (byteSize before) segments).mapM
      (textAt? (before ++ [':'].intercalate segments ++ later)) = some segments
  := by
  induction segments generalizing before with
  | nil => rfl
  | cons segment segments ih =>
    cases segments with
    | nil =>
      rw [rangesOf, rangesOf, List.intercalate_singleton, List.mapM_cons, textAt?_eq]
      rfl
    | cons next segments =>
      have hsize : byteSize (before ++ segment ++ [':']) =
          byteSize before + byteSize segment + 1 := by
        rw [Text.byteSize_append, Text.byteSize_append]
        rfl
      have hfirst := textAt?_eq before segment
        ([':'] ++ [':'].intercalate (next :: segments) ++ later)
      have hrest := ih (before ++ segment ++ [':'])
      rw [hsize] at hrest
      rw [rangesOf, List.mapM_cons, List.intercalate_cons_cons]
      simp only [List.append_assoc] at hfirst hrest ⊢
      rw [hfirst, hrest]
      rfl

/-- What a token is cut into by its bytes. -/
theorem segments?_eq (token : List Char) :
  segments? token = some (Token.cut token)
  := by
  obtain ⟨later, htoken⟩ : ∃ later, token = [':'].intercalate (Token.cut token) ++ later := by
    rw [Token.intercalate_cut]
    split
    · next hcolon =>
      use [':']
      exact (List.dropLast_append_getLast? _ hcolon.1).symm
    · use []
      rw [List.append_nil]
  have hsegments := mapM_textAt?_rangesOf [] later (Token.cut token)
  rw [List.nil_append, ← htoken] at hsegments
  rw [segments?, ranges_encode]
  exact hsegments

/-! ### Prefixing -/

variable {affix later rest : List Char}

/-- Whether an affix that lies at a segment reaches behind it can be told by counting bytes. -/
theorem byteSize_le_iff (h : affix <+: later ++ rest) :
  byteSize later ≤ byteSize affix ↔ later.length ≤ affix.length
  := by
  obtain ⟨more, hmore⟩ := h
  constructor
  · intro hsize
    obtain ⟨middle, rfl, -⟩ := Text.exists_append_of_byteSize_le hmore.symm hsize
    simp
  · intro hlength
    obtain ⟨middle, rfl⟩ :=
      List.prefix_of_prefix_length_le (List.prefix_append later rest) ⟨more, hmore⟩ hlength
    simp

/-- Whether the affix lies at a segment and reaches the root behind `later`. -/
theorem carriesAt?_eq (affix earlier later rest : List Char) (stop stop' : Nat) :
  carriesAt? affix (earlier ++ (later ++ rest)) ⟨byteSize earlier + byteSize later, stop⟩
      ⟨byteSize earlier, stop'⟩ =
    some (decide (later.length ≤ affix.length) && affix.isPrefixOf (later ++ rest))
  := by
  rw [carriesAt?, Text.cutAt_byteSize_append]
  by_cases hstarts : affix <+: later ++ rest
  · have hiff := byteSize_le_iff hstarts
    rw [← List.isPrefixOf_iff_prefix] at hstarts
    by_cases hlength : later.length ≤ affix.length <;> simp [hstarts, hiff, hlength]
  · rw [← List.isPrefixOf_iff_prefix, Bool.not_eq_true] at hstarts
    simp [hstarts]

theorem anyM_cons_some {α : Type} {p : α → Option Bool} {x : α} {xs : List α} {found others : Bool}
    (hx : p x = some found) (hxs : xs.anyM p = some others) :
  (x :: xs).anyM p = some (found || others)
  := by
  rw [List.anyM_cons, hx]
  cases found with
  | true => rfl
  | false => exact hxs

theorem byteSize_chain_cons (modifier : List Char) (later : List (List Char)) :
  byteSize (Token.chain (modifier :: later)) =
    byteSize modifier + 1 + byteSize (Token.chain later)
  := by
  rw [Token.chain_cons, Text.byteSize_append, Nat.add_assoc]
  rfl

/-- The affix is found by counting bytes where it is found by looking at the modifiers. -/
theorem anyM_carriesAt? (affix rest last : List Char) (earlier modifiers : List (List Char))
    (stop : Nat) :
  (rangesOf (byteSize (Token.chain earlier)) (modifiers ++ [last])).anyM
      (carriesAt? affix (Token.chain earlier ++ (Token.chain modifiers ++ rest))
        ⟨byteSize (Token.chain earlier) + byteSize (Token.chain modifiers), stop⟩) =
    some (Token.carries affix modifiers rest)
  := by
  induction modifiers generalizing earlier with
  | nil =>
    rw [List.nil_append, rangesOf, rangesOf, Token.carries]
    have hroot := anyM_cons_some (carriesAt?_eq affix (Token.chain earlier) [] rest stop
      (byteSize (Token.chain earlier) + byteSize last)) List.anyM_nil
    simpa using hroot
  | cons modifier modifiers ih =>
    have hrest := ih (earlier ++ [modifier])
    rw [Token.chain_append, Text.byteSize_append, byteSize_chain_cons] at hrest
    rw [Token.carries, List.cons_append, rangesOf]
    apply anyM_cons_some
    · exact carriesAt?_eq affix (Token.chain earlier) (Token.chain (modifier :: modifiers)) rest
        stop (byteSize (Token.chain earlier) + byteSize modifier)
    · rw [byteSize_chain_cons]
      simp only [Token.chain_cons, Token.chain_nil, byteSize, List.append_assoc, List.cons_append,
        List.nil_append, Nat.add_assoc, Nat.add_zero] at hrest ⊢
      exact hrest

/-- The last range is that of the root. -/
theorem getLast?_rangesOf (start : Nat) (modifiers : List (List Char)) (last : List Char) :
  ∃ stop, (rangesOf start (modifiers ++ [last])).getLast? =
    some ⟨start + byteSize (Token.chain modifiers), stop⟩
  := by
  induction modifiers generalizing start with
  | nil => exact ⟨_, rfl⟩
  | cons modifier modifiers ih =>
    obtain ⟨stop, hstop⟩ := ih (start + byteSize modifier + 1)
    use stop
    rw [List.cons_append, rangesOf, List.getLast?_cons, hstop, byteSize_chain_cons]
    simp [Nat.add_assoc]

/-- A token is prefixed by its bytes as it is by its characters. -/
theorem withAffix?_eq (affix token : List Char) :
  withAffix? affix token = some (Token.affixChars affix token)
  := by
  obtain ⟨marker, htoken, hmarker⟩ := Token.exists_marker token
  rw [hmarker]
  by_cases haffix : affix = []
  · rw [haffix, Token.affixBody_nil, ← htoken]
    rfl
  have hguard : affix.isEmpty = false := by simpa using haffix
  by_cases hempty : Token.body token = []
  · rw [hempty] at htoken ⊢
    simp only [withAffix?, hguard, hempty, ranges_encode]
    exact congrArg some htoken
  obtain ⟨root, hbody, hne, -⟩ := Token.exists_root hempty
  obtain ⟨modifiers, last, hcut⟩ :=
    (List.eq_nil_or_concat' _).resolve_left (Token.cut_ne_nil hempty)
  obtain ⟨stop, hlast⟩ := getLast?_rangesOf 0 modifiers last
  rw [Token.affixBody_of_root hbody hne]
  rw [hcut, List.dropLast_concat] at hbody ⊢
  have hcarries : (rangesOf 0 (modifiers ++ [last])).anyM (carriesAt? affix (Token.body token)
      ⟨0 + byteSize (Token.chain modifiers), stop⟩) =
        some (Token.carries affix modifiers root) := by
    rw [hbody]
    exact anyM_carriesAt? affix root last [] modifiers stop
  have hfront : Text.cutAt (byteSize token - byteSize (Token.body token) +
      (0 + byteSize (Token.chain modifiers))) token =
        some (marker ++ Token.chain modifiers, root) := by
    rw [Text.cutAt_eq_some_iff, List.append_assoc, ← hbody]
    use htoken
    nth_rewrite 1 [htoken]
    simp only [Text.byteSize_append]
    omega
  simp only [withAffix?, hguard, ranges_encode, hcut, hlast, hcarries, hfront]
  cases Token.carries affix modifiers root with
  | true => exact congrArg some htoken
  | false => simp

end UtilityClasses.Cursor

namespace UtilityClasses.Token

/-- The segments that are found by bytes are those of a reading of the characters, which cuts at
the colons outside brackets and quotations. With colons between them they are the token, up to a
colon at the top level that ends it, and none of them can be cut further. -/
theorem segments_exact (token : String) :
  Cursor.segments? token.toList = some ((segments token).map String.toList) ∧
    segments token = (dropEmptyLast (Place.top.pieces token.toList)).map String.ofList ∧
    ":".intercalate (segments token) =
      (if EndsAtColon token.toList then String.ofList token.toList.dropLast else token) ∧
    ∀ segment ∈ segments token, segment ≠ "" → segments segment = [segment]
  := by
  have hsegments : (segments token).map String.toList = cut token.toList := by
    simp [segments]
  refine ⟨?_, ?_, ?_, ?_⟩
  · rw [hsegments, Cursor.segments?_eq]
  · rw [segments, cut_eq_pieces]
  · have hcolon : ":".toList = [':'] := rfl
    rw [← String.toList_inj, String.toList_intercalate, hsegments, hcolon, intercalate_cut]
    split
    · rw [String.toList_ofList]
    · rfl
  · intro segment hsegment hne
    rw [segments, List.mem_map] at hsegment
    obtain ⟨text, htext, rfl⟩ := hsegment
    have hnil : text ≠ [] := by simpa using hne
    rw [segments, String.toList_ofList, cut_of_mem_cut htext hnil]
    rfl

end UtilityClasses.Token
