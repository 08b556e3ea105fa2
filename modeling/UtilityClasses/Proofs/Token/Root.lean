import UtilityClasses.ClassList
import UtilityClasses.Proofs.Cursor.Token

/-!
# The root of a token

An affix is put at the root and nowhere else. With an affix that has neither brackets nor quotes
in it, a token is left alone exactly if the parts of the affix are its last modifiers and the
beginning of its root. Modifiers make no difference to whether a token is a utility, nor to
what becomes of its root.
-/

namespace UtilityClasses.Token

variable {affix text root last : List Char} {modifiers before : List (List Char)}

/-! ### Texts without brackets and quotes -/

/-- The text has neither brackets nor quotes in it. -/
def IsPlain (text : List Char) : Prop :=
  ∀ c ∈ text, c ≠ '[' ∧ c ≠ ']' ∧ c ≠ '"' ∧ c ≠ '\''

instance (text : List Char) : Decidable (IsPlain text) :=
  List.decidableBAll _ text

theorem isPlain_cons {c : Char} :
  IsPlain (c :: text) ↔ (c ≠ '[' ∧ c ≠ ']' ∧ c ≠ '"' ∧ c ≠ '\'') ∧ IsPlain text
  := List.forall_mem_cons

namespace Place

theorem next_outside_of_plain {c : Char} (h : c ≠ '[' ∧ c ≠ ']' ∧ c ≠ '"' ∧ c ≠ '\'')
    (depth : Nat) :
  (outside depth).next c = outside depth
  := by
  obtain ⟨hopen, hclose, hdouble, hsingle⟩ := h
  have hmark : ¬ (c = '"' ∨ c = '\'') := not_or.mpr ⟨hdouble, hsingle⟩
  rw [next, dif_neg hmark, if_neg hopen, if_neg hclose]

theorem after_of_isPlain (h : IsPlain text) (depth : Nat) :
  (outside depth).after text = outside depth
  := by
  induction text with
  | nil => rfl
  | cons c text ih =>
    obtain ⟨hc, htext⟩ := isPlain_cons.mp h
    rw [after_cons, next_outside_of_plain hc, ih htext]

/-- Every colon of a text without brackets and quotes is at the top level. -/
theorem pieces_of_isPlain (h : IsPlain text) :
  top.pieces text = text.splitOn ':'
  := by
  induction text with
  | nil => rfl
  | cons c text ih =>
    obtain ⟨hc, htext⟩ := isPlain_cons.mp h
    have hnext : top.next c = top := next_outside_of_plain hc 0
    rw [pieces, hnext, ih htext, List.splitOn_cons_eq_if_modifyHead]
    simp

end Place

/-! ### Carrying an affix -/

/-- A text that does not end with a colon at the top level has its root last. -/
theorem cut_of_not_endsAtColon (hne : text ≠ []) (h : ¬ EndsAtColon text) :
  ∃ modifiers root, Place.top.pieces text = modifiers ++ [root] ∧
    cut text = modifiers ++ [root] ∧ root ≠ []
  := by
  obtain ⟨modifiers, root, hpieces⟩ := Place.exists_pieces_eq_concat .top text
  have hroot : root ≠ [] := by
    rintro rfl
    have hlast := Place.getLast?_pieces .top text
    rw [hpieces, List.getLast?_concat, eq_self, true_iff] at hlast
    exact h (hlast.resolve_left hne)
  use modifiers, root, hpieces
  rw [cut_eq_pieces, hpieces]
  exact ⟨dropEmptyLast_of_ne_nil modifiers hroot, hroot⟩

/-- The beginning of a text without colons at the top level has none either. -/
theorem pieces_of_prefix {more : List Char} (h : Place.top.pieces text = [text])
    (hmore : more <+: text) :
  Place.top.pieces more = [more]
  := by
  obtain ⟨rest, rfl⟩ := hmore
  obtain ⟨init, last, hinit⟩ := Place.exists_pieces_eq_concat .top more
  obtain ⟨first, others, hrest⟩ := Place.exists_pieces_eq_cons (Place.top.after more) rest
  rw [Place.pieces_append hinit, hrest, List.modifyHead_cons, List.append_eq_singleton_iff] at h
  obtain ⟨rfl, -⟩ | ⟨-, hnil⟩ := h
  · obtain rfl := eq_of_pieces_eq_singleton hinit
    exact hinit
  · cases hnil

/-- The last modifiers of a text stay modifiers when those before them are left out. -/
theorem pieces_chain_of_suffix {earlier later : List (List Char)}
    (h : Place.top.pieces text = earlier ++ later ++ [last]) (more : List Char) :
  Place.top.pieces (chain later ++ more) = later ++ Place.top.pieces more
  := by
  have hall := pieces_chain_append h more
  obtain ⟨first, others, hcons⟩ :=
    List.exists_cons_of_ne_nil (List.append_ne_nil_of_right_ne_nil later (List.cons_ne_nil last []))
  rw [List.append_assoc, hcons] at h
  rwa [chain_append, List.append_assoc, List.append_assoc, pieces_chain_append h,
    List.append_cancel_left_eq] at hall

/-- A token carries the affix if the parts of the affix are its last modifiers and the beginning
of its root. -/
theorem carries_iff_parts (htext : Place.top.pieces text = modifiers ++ [root])
    (haffix : Place.top.pieces affix = before ++ [last]) :
  carries affix modifiers root = true ↔ before <:+ modifiers ∧ last <+: root
  := by
  rw [carries_iff]
  constructor
  · rintro ⟨earlier, later, more, rfl, rfl, hmore⟩
    rw [pieces_chain_of_suffix htext, pieces_of_prefix (pieces_last htext) hmore] at haffix
    obtain ⟨rfl, hlast⟩ := List.append_inj' haffix rfl
    obtain rfl := List.singleton_inj.mp hlast
    exact ⟨List.suffix_append _ _, hmore⟩
  · rintro ⟨⟨earlier, rfl⟩, hlast⟩
    exact ⟨earlier, before, last, rfl, (chain_append_of_pieces haffix).symm, hlast⟩

/-- The parts of an affix that is put at the root become the last modifiers, and the beginning of
the root. -/
theorem cut_affixed (hplain : IsPlain affix) (htext : Place.top.pieces text = modifiers ++ [root])
    (hne : root ≠ []) (haffix : Place.top.pieces affix = before ++ [last]) :
  cut (chain modifiers ++ (affix ++ root)) = modifiers ++ before ++ [last ++ root]
  := by
  have hafter : Place.top.after affix = .top := Place.after_of_isPlain hplain 0
  rw [cut_eq_pieces, pieces_chain_append htext, Place.pieces_append haffix, hafter,
    pieces_last htext, List.modifyHead_cons, ← List.append_assoc]
  apply dropEmptyLast_of_ne_nil _ (List.append_ne_nil_of_right_ne_nil last hne)

/-- A token is left alone if it carries the affix, and else the affix is put in front of its
root, which adds the parts of the affix to its segments. This is what is found by counting
bytes. -/
theorem withAffix_exact {affix token : String} (hne : affix ≠ "") (hplain : IsPlain affix.toList)
    (hbody : body token.toList ≠ []) (hcolon : ¬ EndsAtColon (body token.toList)) :
  Cursor.withAffix? affix.toList token.toList = some (withAffix affix token).toList ∧
    ∃ marker modifiers root before last,
      token.toList = marker ++ body token.toList ∧
      cut (body token.toList) = modifiers ++ [root] ∧
      body token.toList = chain modifiers ++ root ∧
      affix.toList.splitOn ':' = before ++ [last] ∧
      (withAffix affix token = token ↔ before <:+ modifiers ∧ last <+: root) ∧
      (withAffix affix token ≠ token →
        (withAffix affix token).toList = marker ++ chain modifiers ++ affix.toList ++ root ∧
        cut ((withAffix affix token).toList.drop marker.length) =
          modifiers ++ before ++ [last ++ root])
  := by
  constructor
  · rw [withAffix, String.toList_ofList]
    apply Cursor.withAffix?_eq
  obtain ⟨marker, htoken, hmarker⟩ := exists_marker token.toList
  obtain ⟨modifiers, root, hpieces, hcut, hroot⟩ := cut_of_not_endsAtColon hbody hcolon
  obtain ⟨before, last, haffix⟩ := Place.exists_pieces_eq_concat .top affix.toList
  have hsplit : body token.toList = chain modifiers ++ root :=
    (chain_append_of_pieces hpieces).symm
  have hnew : (withAffix affix token).toList = marker ++
      if before <:+ modifiers ∧ last <+: root then chain modifiers ++ root
      else chain modifiers ++ (affix.toList ++ root) := by
    have hsplit' : body token.toList = chain (cut (body token.toList)).dropLast ++ root := by
      rw [hcut, List.dropLast_concat, hsplit]
    rw [withAffix, String.toList_ofList, hmarker, affixBody_of_root hsplit' hroot, hcut,
      List.dropLast_concat]
    simp only [carries_iff_parts hpieces haffix, hsplit]
  have hsame : withAffix affix token = token ↔ before <:+ modifiers ∧ last <+: root := by
    rw [← String.toList_inj, hnew, htoken, hsplit, List.append_cancel_left_eq]
    by_cases hcarries : before <:+ modifiers ∧ last <+: root
    · simp [hcarries]
    · simpa [hcarries] using hne
  use marker, modifiers, root, before, last, htoken, hcut, hsplit
  rw [← Place.pieces_of_isPlain hplain]
  use haffix, hsame
  intro hchanged
  rw [if_neg (mt hsame.mpr hchanged)] at hnew
  constructor
  · rw [hnew]
    simp
  · rw [hnew, List.drop_left, cut_affixed hplain hpieces hroot haffix]

/-- An affix of two parts is put behind modifiers, and its first part becomes one. -/
theorem withAffix_exact_modifiers :
  "tw:x-" ≠ "" ∧ IsPlain "tw:x-".toList ∧ body "!md:[&:hover]:flex".toList ≠ [] ∧
    ¬ EndsAtColon (body "!md:[&:hover]:flex".toList) ∧
    Cursor.withAffix? "tw:x-".toList "!md:[&:hover]:flex".toList =
      some "!md:[&:hover]:tw:x-flex".toList
  := by
  have hne : "tw:x-" ≠ "" := by decide
  have hplain : IsPlain "tw:x-".toList := by decide
  have hbody : body "!md:[&:hover]:flex".toList ≠ [] := by decide +kernel
  have hcolon : ¬ EndsAtColon (body "!md:[&:hover]:flex".toList) := by decide +kernel
  obtain ⟨hbytes, -⟩ := withAffix_exact hne hplain hbody hcolon
  exact ⟨hne, hplain, hbody, hcolon, hbytes.trans (by decide +kernel)⟩

/-! ### Modifiers in front of a token -/

variable {token : List Char}

/-- A colon after a text that ends at the top level is at the top level. -/
theorem pieces_modified (h : Place.top.after text = .top) (token : List Char) :
  Place.top.pieces (text ++ ':' :: token) = Place.top.pieces text ++ Place.top.pieces token
  := by
  obtain ⟨init, last, hinit⟩ := Place.exists_pieces_eq_concat .top text
  rw [Place.pieces_append hinit, h, Place.pieces_cons_colon, hinit]
  simp

theorem cut_modified (h : Place.top.after text = .top) (token : List Char) :
  cut (text ++ ':' :: token) = Place.top.pieces text ++ cut token
  := by
  obtain ⟨first, later, hpieces⟩ := Place.exists_pieces_eq_cons .top token
  rw [cut_eq_pieces, cut_eq_pieces, pieces_modified h, hpieces]
  apply dropEmptyLast_append _ (List.cons_ne_nil first later)

theorem chain_pieces (place : Place) (text : List Char) :
  chain (place.pieces text) = text ++ [':']
  := by
  obtain ⟨init, last, hinit⟩ := Place.exists_pieces_eq_concat place text
  rw [hinit, chain_append, chain_cons, chain_nil, ← List.append_assoc,
    chain_append_of_pieces hinit]

/-- An affix without colons is carried by the root. -/
theorem carries_eq_isPrefixOf (h : ':' ∉ affix) (modifiers : List (List Char))
    (rest : List Char) :
  carries affix modifiers rest = affix.isPrefixOf rest
  := by
  rw [Bool.eq_iff_iff, carries_iff, List.isPrefixOf_iff_prefix]
  constructor
  · rintro ⟨earlier, later, more, -, rfl, hmore⟩
    cases later with
    | nil => exact hmore
    | cons modifier later => simp at h
  · intro hstarts
    exact ⟨modifiers, [], affix, (List.append_nil _).symm, rfl, hstarts⟩

/-- An affix without colons is put at the root, whatever the modifiers. -/
theorem affixBody_modified (haffix : ':' ∉ affix) (h : Place.top.after text = .top)
    (hne : token ≠ []) :
  affixBody affix (text ++ ':' :: token) = text ++ ':' :: affixBody affix token
  := by
  obtain ⟨root, htoken, hroot, -⟩ := exists_root hne
  have hmodifiers : (cut (text ++ ':' :: token)).dropLast =
      Place.top.pieces text ++ (cut token).dropLast := by
    rw [cut_modified h, List.dropLast_append_of_ne_nil (cut_ne_nil hne)]
  have hchain : ∀ more, chain (cut (text ++ ':' :: token)).dropLast ++ more =
      text ++ ':' :: (chain (cut token).dropLast ++ more) := by
    intro more
    rw [hmodifiers, chain_append, chain_pieces]
    simp
  have hsplit : text ++ ':' :: token = chain (cut (text ++ ':' :: token)).dropLast ++ root := by
    rw [hchain, ← htoken]
  rw [affixBody_of_root hsplit hroot, affixBody_of_root htoken hroot, carries_eq_isPrefixOf haffix,
    carries_eq_isPrefixOf haffix, hchain]
  split <;> rfl

/-- Modifiers may start with the marker, and the marker is not read as a part of them. -/
theorem exists_marker_modified (text token : List Char) :
  ∃ marker, text = marker ++ body text ∧ Place.top.after (body text) = Place.top.after text ∧
    body (text ++ ':' :: token) = body text ++ ':' :: token ∧
    ∀ affix, affixChars affix (text ++ ':' :: token) =
      marker ++ affixBody affix (body text ++ ':' :: token)
  := by
  by_cases hmark : text.head? = some '!'
  · obtain ⟨rest, rfl⟩ := List.head?_eq_some_iff.mp hmark
    exact ⟨['!'], rfl, rfl, rfl, fun _ => rfl⟩
  · have hhead : (text ++ ':' :: token).head? ≠ some '!' := by
      cases text with
      | nil => simp
      | cons c text => exact hmark
    rw [body_of_head?_ne hmark, body_of_head?_ne hhead]
    exact ⟨[], rfl, rfl, rfl, fun _ => affixChars_of_head?_ne hhead⟩

/-- Modifiers make no difference to whether a token is a utility. -/
theorem isUtility_modified {modifiers token : String} (h : Place.top.after modifiers.toList = .top)
    (hlower : modifiers.toList.any Text.isUppercase = false) (hne : token.toList ≠ [])
    (hmark : token.toList.head? ≠ some '!') :
  isUtility (modifiers ++ ":" ++ token) = isUtility token
  := by
  have htext : (modifiers ++ ":" ++ token).toList = modifiers.toList ++ ':' :: token.toList := by
    simp
  obtain ⟨-, -, hafter, hbody, -⟩ := exists_marker_modified modifiers.toList token.toList
  have hany : (modifiers.toList ++ ':' :: token.toList).any Text.isUppercase =
      token.toList.any Text.isUppercase := by
    have hcolon : Text.isUppercase ':' = false := by decide
    rw [List.any_append, hlower, List.any_cons, hcolon, Bool.false_or, Bool.false_or]
  have hlast : (cut (body modifiers.toList ++ ':' :: token.toList)).getLast? =
      (cut token.toList).getLast? := by
    rw [cut_modified (hafter.trans h), List.getLast?_append_of_ne_nil _ (cut_ne_nil hne)]
  rw [isUtility, isUtility, htext, hany, hbody, hlast, body_of_head?_ne hmark]

/-- Modifiers make no difference to what becomes of a token. -/
theorem affixChars_modified (haffix : ':' ∉ affix) (h : Place.top.after text = .top)
    (hne : token ≠ []) (hmark : token.head? ≠ some '!') :
  affixChars affix (text ++ ':' :: token) = text ++ ':' :: affixChars affix token
  := by
  obtain ⟨marker, htext, hafter, -, hmarker⟩ := exists_marker_modified text token
  rw [hmarker, affixBody_modified haffix (hafter.trans h) hne, affixChars_of_head?_ne hmark,
    ← List.append_assoc, ← htext]

/-- To tell whether a token is a utility and to prefix it commutes with putting modifiers in front
of it: modifiers that end at the top level, with the marker or not, in front of any token. -/
theorem modifiers_transparent {affix modifiers token : String}
    (hmodifiers : Place.top.after modifiers.toList = .top)
    (hlower : modifiers.toList.any Text.isUppercase = false)
    (hne : token ≠ "") (hmark : token.toList.head? ≠ some '!') (haffix : ':' ∉ affix.toList) :
  isUtility (modifiers ++ ":" ++ token) = isUtility token ∧
    withAffix affix (modifiers ++ ":" ++ token) = modifiers ++ ":" ++ withAffix affix token ∧
    ClassList.affixedToken affix Classifier.lexical (modifiers ++ ":" ++ token).toList =
      (ClassList.affixedToken affix Classifier.lexical token.toList).map
        fun new => modifiers.toList ++ ':' :: new
  := by
  have hnil : token.toList ≠ [] := by simpa using hne
  have htext : (modifiers ++ ":" ++ token).toList = modifiers.toList ++ ':' :: token.toList := by
    simp
  have hutility := isUtility_modified hmodifiers hlower hnil hmark
  have hnew := affixChars_modified haffix hmodifiers hnil hmark
  refine ⟨hutility, ?_, ?_⟩
  · rw [← String.toList_inj, withAffix, htext, hnew]
    simp [withAffix]
  · simp only [ClassList.affixedToken, Classifier.lexical, Classifier.ofPredicate,
      String.ofList_toList, hutility, Option.map_some]
    rw [htext, hnew]
    split <;> rfl

/-- The modifiers may have brackets, quotes and the marker in them, and the token may have a
bracket too many and end with a colon. -/
theorem modifiers_transparent_nested :
  Place.top.after "!md:[&[a=':']]".toList = .top ∧
    "!md:[&[a=':']]".toList.any Text.isUppercase = false ∧
    "x]:p-4:" ≠ "" ∧ "x]:p-4:".toList.head? ≠ some '!' ∧ ':' ∉ "tw-".toList ∧
    (withAffix "tw-" "!md:[&[a=':']]:x]:p-4:").toList = "!md:[&[a=':']]:x]:tw-p-4:".toList
  := by
  have hmodifiers : Place.top.after "!md:[&[a=':']]".toList = .top := by decide +kernel
  have hlower : "!md:[&[a=':']]".toList.any Text.isUppercase = false := by decide +kernel
  have hne : "x]:p-4:" ≠ "" := by decide
  have hmark : "x]:p-4:".toList.head? ≠ some '!' := by decide
  have haffix : ':' ∉ "tw-".toList := by decide
  obtain ⟨-, hprefixed, -⟩ := modifiers_transparent hmodifiers hlower hne hmark haffix
  refine ⟨hmodifiers, hlower, hne, hmark, haffix, ?_⟩
  exact (congrArg String.toList hprefixed).trans (by decide +kernel)

end UtilityClasses.Token
