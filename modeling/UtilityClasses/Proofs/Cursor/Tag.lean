import UtilityClasses.Cursor.Tag
import UtilityClasses.Proofs.Cursor.Nested
import UtilityClasses.Scan.Tag

/-!
# Tags, byte by byte

The attributes of a tag are read as they are scanned.
-/

namespace UtilityClasses.Cursor

open Text (byteSize)
open Scan (Runs discard_bind)

variable {source : List Char} {s t : Scan.State} {mine : Context} {theirs : Scan.Context}
  {name : String} {start : Nat}

/-! ### Values -/

/-- A value in quotes is what lies between them. -/
theorem mirrors_quotedValue {quote : Quote} {delimiter : Char} (hascii : IsAscii delimiter)
    (hhead : s.rest.head? = some delimiter) :
  Mirrors source s (quotedValue quote delimiter name) (Scan.quotedValue quote delimiter name)
  := by
  apply Agrees.of_at
  intro hat
  rw [quotedValue, agrees_position, Scan.quotedValue, agrees_scan_position]
  apply (mirrors_advance hascii hhead).bind
  rintro _ t ht hfollows
  obtain rfl := Scan.runs_skip.mp ht
  obtain ⟨plain, later, hrest, hplain, hlater⟩ := exists_plain [delimiter] (s.after 1).rest
  simp only [List.mem_singleton] at hplain hlater
  rw [Agrees.congr_right (Scan.quotedTail_apply hrest hplain hlater)]
  apply (mirrors_skipPast (by simpa using hascii) (by simp)).bind
  intro found u hu hfollows'
  cases found with
  | true =>
    obtain ⟨rfl, hquote⟩ := Scan.runs_skipPast_singleton hrest hplain hlater hu
    have hvalue : (s.after 1).rest = plain ++ ((s.after 1).after plain.length).rest := by
      rw [Scan.State.after_length_rest hrest, hrest]
    rw [if_pos rfl, agrees_position, pos_after_one hascii hquote, Nat.add_sub_cancel,
      ← pos_after_one hascii hhead, agrees_slice (hat.after 1) ((hat.after 1).after _) hvalue,
      agrees_spanFrom, if_pos rfl, agrees_scan_spanFrom]
    exact .pure ⟨rfl, hfollows.trans hfollows'⟩
  | false => exact .fail

/-! ### Values without quotes -/

/-- Where a value without quotes ends. -/
theorem bareEnd_iff (text : List Char) :
  (text.isEmpty || isSpacing (lead text) || decide (lead text = byte '>') ||
    decide (lead text = byte '/') && decide ((encode text)[1]?.getD 0 = byte '>')) = true ↔
  text.head?.any Scan.isSpacing = true ∨ text.head? = some '>' ∨
    (text.head? = some '/' ∧ (text.drop 1).head? = some '>') ∨ text = []
  := by
  rw [Bool.or_eq_true, Bool.or_eq_true, Bool.or_eq_true, Bool.and_eq_true, decide_eq_true_eq,
    decide_eq_true_eq, decide_eq_true_eq, List.isEmpty_iff,
    reflects_isSpacing.lead (by decide), lead_eq_byte_and_iff (by decide) (by decide),
    lead_eq_byte_iff (by decide)]
  tauto

/-- A value without quotes is passed as a whole. -/
theorem mirrors_bareRounds (s : Scan.State) :
  Mirrors source s (rounds (fun _ => bareRound) ()) (Scan.skip (Scan.bareValue s.rest))
  := by
  by_cases hend : s.rest.head?.any Scan.isSpacing = true ∨ s.rest.head? = some '>' ∨
      (s.rest.head? = some '/' ∧ (s.rest.drop 1).head? = some '>') ∨ s.rest = []
  · rw [Mirrors, Scan.bareValue_end hend]
    apply Agrees.last
    rw [bareRound, agrees_current, agrees_atEnd, peek, agrees_byteAhead,
      if_pos ((bareEnd_iff s.rest).mpr hend)]
    exact .of_runs (b := ()) (Scan.runs_skip.mpr s.after_zero.symm) ⟨(), rfl, rfl, .refl s⟩
  · have hround : Agrees source s bareRound (Scan.skip 1) fun r _ _ => r = .again () := by
      rw [bareRound, agrees_current, agrees_atEnd, peek, agrees_byteAhead,
        if_neg (mt (bareEnd_iff s.rest).mp hend)]
      exact mirrors_advanceChar.bind_left fun _ _ _ _ _ => .pure rfl
    obtain ⟨c, later, hrest⟩ : ∃ c later, s.rest = c :: later :=
      List.exists_cons_of_ne_nil fun hnil => hend (.inr (.inr (.inr hnil)))
    have hafter : (s.after 1).rest = later := by
      rw [Scan.State.after_rest, hrest]
      rfl
    have hvalue : Scan.bareValue s.rest = Scan.bareValue (s.after 1).rest + 1 := by
      rw [hafter, hrest]
      simp only [hrest, List.head?_cons, Option.any_some, Option.some.injEq, List.drop_succ_cons,
        List.drop_zero, not_or] at hend
      exact Scan.bareValue_cons (Bool.eq_false_iff.mpr hend.1) hend.2.1 hend.2.2.1
    apply Agrees.again (by simp [hrest]) Nat.one_pos hround
    · rw [Scan.skip_apply, hvalue, Nat.add_comm, ← Scan.State.after_after, ← Scan.skip_apply]
    · exact (mirrors_bareRounds (s.after 1)).follow (.after s 1)
  termination_by s.rest.length
  decreasing_by exact Scan.length_after_lt (by simp [hrest]) Nat.one_pos

/-- A value without quotes is what is passed. -/
theorem mirrors_unquotedValue :
  Mirrors source s (unquotedValue name) (Scan.unquotedValue name)
  := by
  apply Agrees.of_at
  intro hat
  rw [unquotedValue, agrees_position, Scan.unquotedValue, agrees_scan_position, agrees_scan_rest]
  have hskip (g : List Char → Scan Literal) : (Scan.take (Scan.bareValue s.rest) >>= g) s =
      (Scan.skip (Scan.bareValue s.rest) >>= fun _ =>
        g (s.rest.take (Scan.bareValue s.rest))) s := rfl
  rw [Agrees.congr_right (hskip _)]
  apply (mirrors_bareRounds s).bind
  rintro _ t ht hfollows
  obtain rfl := Scan.runs_skip.mp ht
  rw [agrees_position]
  have hrest : s.rest = s.rest.take (Scan.bareValue s.rest) ++
      (s.after (Scan.bareValue s.rest)).rest := (List.take_append_drop _ _).symm
  have hempty := pos_after_eq_iff s (Scan.bareValue s.rest)
  simp only [hempty]
  split
  · next hnil =>
    rw [← hempty] at hnil
    apply Agrees.refused (fun _ => rfl)
    rw [Scan.fail_apply, hnil]
  · rw [agrees_sliceFrom hat hrest, agrees_spanFrom, agrees_scan_spanFrom]
    exact .pure ⟨rfl, hfollows⟩

/-- An expression in braces. -/
theorem advances_container (h : mine.Agrees source theirs s.rest.length)
    (hhead : s.rest.head? = some '\x7b') :
  Advances source s (container mine) (Scan.container theirs)
  := by
  rw [Advances, container, agrees_position, Scan.container, agrees_scan_position]
  apply Agrees.skip (by decide) hhead
  have hlt := Scan.length_after_lt (ne_nil_of_head? hhead) Nat.one_pos
  apply (h.nested.region hlt (by simp [AreStops])).bind
  intro node u _ hfollows
  rw [agrees_current, agrees_scan_rest]
  simp (disch := decide) only [lead_eq_byte_iff]
  split
  · next hclose =>
    apply (mirrors_advance (by decide) hclose).bind
    intro _ v _ hfollows'
    rw [agrees_spanFrom, agrees_scan_spanFrom]
    exact .pure ⟨rfl, hfollows.trans hfollows'⟩
  · exact .fail

theorem mirrors_attributeValue {count : Nat} (h : mine.Agrees source theirs count)
    (hlt : s.rest.length < count) :
  Mirrors source s (attributeValue mine name) (Scan.attributeValue theirs name)
  := by
  rw [Mirrors, attributeValue, agrees_position, agrees_current, Scan.attributeValue,
    agrees_scan_position, agrees_scan_rest, h.dialect]
  simp (disch := decide) only [lead_eq_byte_iff]
  split
  · next hhead =>
    apply (mirrors_quotedValue (by decide) hhead).bind
    intro literal t _ hfollows
    exact .pure ⟨rfl, hfollows⟩
  · split
    · next hhead =>
      apply (mirrors_quotedValue (by decide) hhead).bind
      intro literal t _ hfollows
      exact .pure ⟨rfl, hfollows⟩
    · split
      · next hcontainer =>
        rw [Bool.and_eq_true, decide_eq_true_eq] at hcontainer
        apply (advances_container (h.mono (Nat.le_of_lt hlt)) hcontainer.1).bind
        rintro value _ t - ⟨rfl, hfollows⟩
        exact .pure ⟨rfl, (Follows.after s 1).trans hfollows⟩
      · split
        · next helement =>
          rw [Bool.and_eq_true, decide_eq_true_eq] at helement
          apply (h.nested.element hlt helement.1).bind
          rintro found _ t - ⟨rfl, hpost⟩
          cases found with
          | true => exact .pure ⟨rfl, (Follows.after s 1).trans hpost⟩
          | false =>
            obtain rfl : t = s := hpost
            exact .refused (fun _ => rfl) rfl
        · split
          · apply mirrors_unquotedValue.bind
            intro literal t _ hfollows
            exact .pure ⟨rfl, hfollows⟩
          · exact .refused (fun _ => rfl) rfl

/-! ### Attributes -/

/-- An attribute after its name. -/
theorem mirrors_attributeTail {count : Nat} (h : mine.Agrees source theirs count)
    (hlt : s.rest.length < count) :
  Mirrors source s (attributeTail mine name start) (Scan.attributeTail theirs name start)
  := by
  apply Agrees.of_at
  intro hat
  rw [attributeTail, agrees_spanFrom, agrees_position, Scan.attributeTail, agrees_scan_spanFrom,
    agrees_scan_get]
  apply mirrors_eatSpacing.bind
  intro _ t ht hfollows
  obtain rfl := Scan.runs_skipSpacing.mp ht
  rw [agrees_current, agrees_scan_rest]
  simp (disch := decide) only [lead_eq_byte_iff]
  split
  · next hequal =>
    apply (mirrors_advance (by decide) hequal).bind
    intro _ u _ hfollows'
    apply mirrors_eatSpacing.bind
    intro _ v _ hfollows''
    have hv := (hfollows.trans hfollows').trans hfollows''
    apply (mirrors_attributeValue h (Nat.lt_of_le_of_lt hv.length_le hlt)).bind
    intro value w _ hw
    rw [agrees_spanFrom, agrees_scan_spanFrom]
    exact .pure ⟨rfl, hv.trans hw⟩
  · exact Agrees.moveBack hat rfl rfl (.pure ⟨rfl, .refl s⟩)

/-- An attribute, or a character that cannot start one. -/
theorem advances_attribute? {count : Nat} (h : mine.Agrees source theirs count)
    (hle : s.rest.length ≤ count) (hne : s.rest ≠ []) :
  Advances source s (attribute? mine) (Scan.attribute? theirs)
  := by
  apply Agrees.of_at
  intro hat
  rw [attribute?, agrees_position, Scan.attribute?, agrees_scan_position]
  apply Agrees.eatWhile reflects_isAttributeNameByte
  rw [agrees_position]
  have hempty : (s.after (s.rest.takeWhile Scan.isAttributeNameChar).length).pos = s.pos ↔
      (String.ofList (s.rest.takeWhile Scan.isAttributeNameChar)).isEmpty = true := by
    rw [pos_after_eq_iff, Scan.take_length_takeWhile]
    simp
  simp only [hempty]
  split
  · next hnil =>
    have hzero : s.after (s.rest.takeWhile Scan.isAttributeNameChar).length = s := by
      rw [String.isEmpty_iff, String.ofList_eq_empty_iff] at hnil
      rw [hnil, List.length_nil, s.after_zero]
    rw [hzero]
    apply mirrors_advanceChar.bind
    rintro _ t ht -
    obtain rfl := Scan.runs_skip.mp ht
    exact .pure ⟨rfl, .refl _⟩
  · next hname =>
    have hpos : 0 < (s.rest.takeWhile Scan.isAttributeNameChar).length := by
      rw [String.isEmpty_iff, String.ofList_eq_empty_iff] at hname
      exact List.length_pos_iff.mpr hname
    have hlt := Scan.length_after_lt hne hpos
    rw [agrees_sliceFrom hat (Scan.rest_eq_takeWhile_append _ s)]
    apply (mirrors_attributeTail h (Nat.lt_of_lt_of_le hlt hle)).bind
    intro attr t _ hfollows
    exact .pure ⟨rfl, (Follows.after_le s hpos).trans hfollows⟩

/-! ### Tags -/

/-- What the scan of a tag does between two attributes: it reads the next one, or the end of the
tag. -/
def tagItem (theirs : Scan.Context) (name : String) (start : Nat) (attributes : List Attribute) :
    Scan (Round (List Attribute) (Bool × List Attribute)) := do
  let ahead ← Scan.rest
  if ahead.head? = some '>' then
    Scan.skip 1
    return .done (false, attributes)
  else if ahead.head? = some '/' ∧ (ahead.drop 1).head? = some '>' then
    Scan.skip 2
    return .done (true, attributes)
  else if ahead.head? = some '\x7b' && theirs.dialect.hasContainers then
    Scan.braced theirs
    return .again attributes
  else if ahead.isEmpty then Scan.fail (.openTag name) start
  else
    let attr ← Scan.attribute? theirs
    return .again (attributes ++ attr.toList)

theorem tagTail_succ (budget : Nat) (attributes : List Attribute) :
  Scan.tagTail theirs name start (budget + 1) attributes =
    (Scan.between (!theirs.dialect.isMarkup) >>= fun _ =>
      tagItem theirs name start attributes >>= Round.goOn (Scan.tagTail theirs name start budget))
  := by
  have hbetween : Scan.betweenAttributes theirs.dialect =
      Scan.between (!theirs.dialect.isMarkup) := by
    cases hmarkup : theirs.dialect.isMarkup <;> simp [Scan.betweenAttributes, Scan.between, hmarkup]
  rw [Scan.tagTail, hbetween]
  congr! 2 with _
  rw [tagItem, bind_assoc]
  congr! 2 with ahead
  split
  · simp [Scan.fail_bind]
  · simp [Round.goOn]
  · simp [Round.goOn]
  · next c later hclose hslash =>
    have hend : ¬ (c = '/' ∧ later.head? = some '>') := by
      rintro ⟨rfl, hhead⟩
      obtain ⟨more, rfl⟩ := List.head?_eq_some_iff.mp hhead
      exact hslash more rfl rfl
    simp only [List.head?_cons, Option.some.injEq, List.drop_succ_cons, List.drop_zero,
      if_neg hclose, if_neg hend, List.isEmpty_cons, Bool.false_eq_true, if_false]
    split
    · simp only [bind_assoc, pure_bind, Round.goOn]
    · simp only [bind_assoc, pure_bind, Round.goOn]

theorem startsComment_iff (text : List Char) :
  lead text = byte '/' ∧ ((encode text)[1]?.getD 0 = byte '*' ∨
    (encode text)[1]?.getD 0 = byte '/') ↔ Scan.StartsComment text
  := by
  rw [and_or_left, lead_eq_byte_and_iff (by decide) (by decide),
    lead_eq_byte_and_iff (by decide) (by decide), ← and_or_left]
  rfl

/-- A round over a tag reads what the scan of the tag does. -/
theorem agrees_tagRound (h : mine.Agrees source theirs s.rest.length)
    (attributes : List Attribute) :
  Agrees source s (tagRound mine name start attributes)
    (Scan.betweenStep (!theirs.dialect.isMarkup) (tagItem theirs name start attributes))
    fun round item t => round = item.getD (.again attributes) ∧ Moves s t round
  := by
  rw [tagRound, Scan.betweenStep]
  apply mirrors_eatSpacing.bind
  intro _ t _ hfollows
  have hself : lead t.rest = byte '/' ∧ (encode t.rest)[1]?.getD 0 = byte '>' ↔
      t.rest.head? = some '/' ∧ (t.rest.drop 1).head? = some '>' :=
    lead_eq_byte_and_iff (by decide) (by decide)
  have hcomment : (decide (lead t.rest = byte '/') && !mine.dialect.isMarkup &&
      (decide ((encode t.rest)[1]?.getD 0 = byte '*') ||
        decide ((encode t.rest)[1]?.getD 0 = byte '/'))) = true ↔
      theirs.dialect.isMarkup = false ∧ Scan.StartsComment t.rest := by
    rw [← startsComment_iff, h.dialect]
    simp only [Bool.and_eq_true, Bool.or_eq_true, decide_eq_true_eq, Bool.not_eq_true']
    tauto
  rw [agrees_current]
  by_cases hstarts : theirs.dialect.isMarkup = false ∧ Scan.StartsComment t.rest
  · obtain ⟨hslash, hnext⟩ := hstarts.2
    have hlead := (lead_eq_byte_iff (by decide)).mpr hslash
    have hpeek : (encode t.rest)[1]?.getD 0 ≠ byte '>' := by
      intro hclose
      rw [(hself.mp ⟨hlead, hclose⟩).2] at hnext
      simp at hnext
    have hne : t.rest.isEmpty = false := by
      rw [List.isEmpty_eq_false_iff]
      exact ne_nil_of_head? hslash
    have hbrace : byte '/' ≠ byte '\x7b' := by decide
    rw [if_neg (by rw [hlead]; decide), peek, agrees_byteAhead, if_neg (by simp [hpeek]),
      if_neg (by simp [hlead, hbrace]), agrees_atEnd, if_neg (by simp [hne]), agrees_byteAhead,
      agrees_byteAhead, if_pos (hcomment.mpr hstarts), if_pos (by simp [hstarts.1])]
    rw [discard_bind]
    apply Agrees.bind (mirrors_skipComment t)
    rintro _ found u hu ⟨-, hfollows'⟩
    obtain rfl := Scan.eq_true_of_runs_commentStep hstarts.2 hu
    have hlt := Nat.lt_of_lt_of_le (Scan.commentStep_length_lt hu) hfollows.length_le
    exact .pure ⟨rfl, hfollows.trans hfollows', hlt⟩
  · have hnone (g : Bool → Scan (Option (Round (List Attribute) (Bool × List Attribute)))) :
        ((if (!theirs.dialect.isMarkup) = true then Scan.commentStep else pure false) >>= g) t =
          g false t := by
      split
      · next hmarkup =>
        rw [Scan.bind_apply, Scan.commentStep_of_not]
        intro hstart
        exact hstarts ⟨by simpa using hmarkup, hstart⟩
      · rfl
    rw [Agrees.congr_right (hnone _), if_neg Bool.false_ne_true]
    apply Agrees.map_right
    have hne {c : Char} (hhead : t.rest.head? = some c) : t.rest ≠ [] := ne_nil_of_head? hhead
    have hmoves {u : Scan.State} (hne : t.rest ≠ []) (hfollows' : Follows (t.after 1) u) :
        Follows s u ∧ u.rest.length < s.rest.length :=
      ⟨(hfollows.trans (.after t 1)).trans hfollows',
        Nat.lt_of_lt_of_le (hfollows'.length_lt_of_after hne) hfollows.length_le⟩
    have hmine := h.follow hfollows
    rw [tagItem, agrees_scan_rest]
    simp (disch := decide) only [lead_eq_byte_iff] at hself hcomment ⊢
    split
    · next hclose =>
      apply (mirrors_advance (by decide) hclose).bind
      intro _ u _ hfollows'
      exact .pure ⟨rfl, hfollows.trans hfollows'⟩
    · rw [peek, agrees_byteAhead]
      simp only [← Bool.decide_and, decide_eq_true_eq, hself]
      split
      · next hclose =>
        apply (mirrors_advanceBy ['/', '>'] (forall_isAscii (by decide))
          (prefix_of_head? hclose.1 hclose.2)).bind
        intro _ u _ hfollows'
        exact .pure ⟨rfl, hfollows.trans hfollows'⟩
      · rw [h.dialect]
        split
        · next hbrace =>
          rw [Bool.and_eq_true, decide_eq_true_eq] at hbrace
          apply (advances_skipBraced hmine hbrace.1).bind
          rintro _ _ u - ⟨rfl, hfollows'⟩
          exact .pure ⟨rfl, hmoves (hne hbrace.1) hfollows'⟩
        · rw [agrees_atEnd]
          split
          · exact .fail
          · next hrest =>
            rw [List.isEmpty_iff] at hrest
            rw [agrees_byteAhead, agrees_byteAhead, if_neg (mt hcomment.mp hstarts)]
            apply (advances_attribute? hmine (Nat.le_refl _) hrest).bind
            rintro attr _ u - ⟨rfl, hfollows'⟩
            exact .pure ⟨rfl, hmoves hrest hfollows'⟩

/-- A tag is read up to its end. -/
theorem mirrors_tagRounds (s : Scan.State) (h : mine.Agrees source theirs s.rest.length)
    {budget : Nat} (hbudget : s.rest.length < budget) (attributes : List Attribute) :
  Mirrors source s (rounds (tagRound mine name start) attributes)
    (Scan.tagTail theirs name start budget attributes)
  := by
  obtain ⟨more, rfl⟩ := Nat.exists_eq_succ_of_ne_zero (Nat.ne_zero_of_lt hbudget)
  rw [Nat.succ_eq_add_one, tagTail_succ, Mirrors, Agrees.congr_right (Scan.between_bind_apply ..),
    ← tagTail_succ]
  apply (agrees_tagRound h attributes).rounds
  · rintro result item t - ⟨hround, hfollows⟩
    cases item with
    | none => cases hround
    | some item =>
      obtain rfl : Round.done result = item := hround
      exact .pure ⟨rfl, hfollows⟩
  · rintro next item t - ⟨hround, hfollows, hlt⟩
    refine ⟨hfollows, hlt, ?_⟩
    cases item with
    | none =>
      cases hround
      exact (mirrors_tagRounds t (h.follow hfollows) (Nat.lt_trans hlt hbudget) _).follow hfollows
    | some item =>
      obtain rfl : Round.again next = item := hround
      have hbudget' : t.rest.length < more := by omega
      exact (mirrors_tagRounds t (h.follow hfollows) hbudget' next).follow hfollows
  termination_by s.rest.length

/-- A tag is read, and it is recorded. -/
theorem mirrors_tag (h : mine.Agrees source theirs s.rest.length) :
  Mirrors source s (tag mine name start) (Scan.tag theirs name start)
  := by
  rw [tag, Scan.tag]
  apply (mirrors_tagRounds s h h.budget []).bind
  intro result t _ hfollows
  rw [agrees_spanFrom, agrees_scan_spanFrom]
  apply mirrors_record.bind
  intro _ u _ hfollows'
  exact .pure ⟨rfl, hfollows.trans hfollows'⟩

end UtilityClasses.Cursor
