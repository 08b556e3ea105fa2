import UtilityClasses.Proofs.Token.Place
import UtilityClasses.Token.Affix

/-!
# Cutting tokens

What a token is cut into when it is put together from modifiers, an affix and a root. The pieces
of a text include the empty one after a colon at the end.
-/

namespace UtilityClasses.Token

variable {place : Place} {text segment rest last : List Char}
  {modifiers later : List (List Char)}

/-! ### Chains -/

@[simp]
theorem chain_nil :
  chain [] = []
  := rfl

@[simp]
theorem chain_cons (modifier : List Char) (later : List (List Char)) :
  chain (modifier :: later) = modifier ++ ':' :: chain later
  := by
  simp [chain]

theorem chain_append (first later : List (List Char)) :
  chain (first ++ later) = chain first ++ chain later
  := by
  simp [chain]

/-- Segments with colons between them are modifiers and a root. -/
theorem intercalate_concat (modifiers : List (List Char)) (last : List Char) :
  [':'].intercalate (modifiers ++ [last]) = chain modifiers ++ last
  := by
  induction modifiers with
  | nil => simp [chain]
  | cons modifier modifiers ih =>
    rw [List.cons_append, List.intercalate_cons_of_ne_nil (by simp), ih]
    simp

/-- The pieces make up the text, with a colon between one and the next. -/
theorem chain_append_of_pieces (h : place.pieces text = modifiers ++ [last]) :
  chain modifiers ++ last = text
  := by
  induction text generalizing place modifiers last with
  | nil =>
    obtain ⟨rfl, rfl⟩ : modifiers = [] ∧ last = [] := by
      simpa [Place.pieces, List.singleton_eq_append_iff] using h
    rfl
  | cons c text ih =>
    rw [Place.pieces] at h
    split at h
    · next hcolon =>
      cases modifiers with
      | nil =>
        obtain ⟨first, later, hfirst⟩ := Place.exists_pieces_eq_cons (place.next c) text
        simp [hfirst] at h
      | cons modifier modifiers =>
        obtain ⟨rfl, hlater⟩ := List.cons.inj h
        rw [chain_cons, List.nil_append, List.cons_append, ih hlater, hcolon.1]
    · obtain ⟨first, later, hfirst⟩ := Place.exists_pieces_eq_cons (place.next c) text
      rw [hfirst, List.modifyHead_cons] at h
      cases modifiers with
      | nil =>
        obtain ⟨rfl, rfl⟩ := List.cons.inj h
        have hnext : (place.next c).pieces text = [] ++ [first] := hfirst
        exact congrArg (List.cons c) (ih hnext)
      | cons modifier modifiers =>
        obtain ⟨rfl, rfl⟩ := List.cons.inj h
        have hnext : (place.next c).pieces text = (first :: modifiers) ++ [last] := hfirst
        rw [← ih hnext, chain_cons, chain_cons]
        rfl

/-- A text that is not cut is its only piece. -/
theorem eq_of_pieces_eq_singleton (h : place.pieces text = [segment]) :
  segment = text
  := by
  have htext : place.pieces text = [] ++ [segment] := h
  rw [← chain_append_of_pieces htext, chain_nil, List.nil_append]

/-- What follows the first piece and its colon is cut from the top level on. -/
theorem exists_rest_of_pieces {first next : List Char}
    (h : place.pieces text = first :: next :: later) :
  (∃ rest, text = first ++ ':' :: rest ∧ Place.top.pieces rest = next :: later) ∧
    ∀ more, place.pieces (first ++ ':' :: more) = first :: Place.top.pieces more
  := by
  induction text generalizing place first with
  | nil => simp [Place.pieces] at h
  | cons c text ih =>
    rw [Place.pieces] at h
    split at h
    · next hcolon =>
      obtain ⟨rfl, rfl⟩ := hcolon
      obtain ⟨rfl, hlater⟩ := List.cons.inj h
      exact ⟨⟨text, rfl, hlater⟩, fun _ => rfl⟩
    · next hcolon =>
      obtain ⟨first', others, hfirst⟩ := Place.exists_pieces_eq_cons (place.next c) text
      rw [hfirst, List.modifyHead_cons] at h
      obtain ⟨rfl, rfl⟩ := List.cons.inj h
      obtain ⟨⟨rest, rfl, hrest⟩, hmore⟩ := ih hfirst
      use ⟨rest, rfl, hrest⟩
      intro more
      rw [List.cons_append, Place.pieces_cons_of_not hcolon, hmore, List.modifyHead_cons]

/-- The modifiers of a text stay its modifiers when another text follows them. -/
theorem pieces_chain_append (h : Place.top.pieces text = modifiers ++ last :: later)
    (more : List Char) :
  Place.top.pieces (chain modifiers ++ more) = modifiers ++ Place.top.pieces more
  := by
  induction modifiers generalizing text with
  | nil => rfl
  | cons modifier modifiers ih =>
    obtain ⟨next, others, hnext⟩ := List.exists_cons_of_ne_nil
      (List.append_ne_nil_of_right_ne_nil modifiers (List.cons_ne_nil last later))
    rw [List.cons_append, hnext] at h
    obtain ⟨⟨rest, -, hrest⟩, hmore⟩ := exists_rest_of_pieces h
    rw [chain_cons, List.append_assoc, List.cons_append, hmore, ih (hrest.trans hnext.symm),
      List.cons_append]

/-- What stands behind the modifiers of a text is cut as it is in the text. -/
theorem pieces_behind_chain
    (h : Place.top.pieces (chain modifiers ++ rest) = modifiers ++ last :: later) :
  Place.top.pieces rest = last :: later
  := by
  have hrest := pieces_chain_append h rest
  rwa [h, List.append_cancel_left_eq, eq_comm] at hrest

/-- The last piece of a text is cut no further. -/
theorem pieces_last (h : Place.top.pieces text = modifiers ++ [last]) :
  Place.top.pieces last = [last]
  := by
  rw [← chain_append_of_pieces h] at h
  exact pieces_behind_chain h

/-! ### Empty segments -/

@[simp]
theorem dropEmptyLast_nil (init : List (List Char)) :
  dropEmptyLast (init ++ [[]]) = init
  := by
  rw [dropEmptyLast, List.getLast?_concat, if_pos rfl, List.dropLast_concat]

theorem dropEmptyLast_of_ne_nil (init : List (List Char)) {last : List Char} (h : last ≠ []) :
  dropEmptyLast (init ++ [last]) = init ++ [last]
  := by
  rw [dropEmptyLast, List.getLast?_concat, if_neg]
  simpa using h

theorem dropEmptyLast_append (init : List (List Char)) (h : later ≠ []) :
  dropEmptyLast (init ++ later) = init ++ dropEmptyLast later
  := by
  obtain ⟨others, last, rfl⟩ := (List.eq_nil_or_concat' later).resolve_left h
  rw [← List.append_assoc]
  by_cases hlast : last = []
  · rw [hlast, dropEmptyLast_nil, dropEmptyLast_nil]
  · rw [dropEmptyLast_of_ne_nil _ hlast, dropEmptyLast_of_ne_nil _ hlast, List.append_assoc]

theorem cut_ne_nil (h : text ≠ []) :
  cut text ≠ []
  := by
  obtain ⟨init, last, hpieces⟩ := Place.exists_pieces_eq_concat .top text
  have htext := chain_append_of_pieces hpieces
  rw [cut_eq_pieces, hpieces]
  by_cases hlast : last = []
  · subst hlast
    rw [dropEmptyLast_nil]
    rintro rfl
    exact h htext.symm
  · rw [dropEmptyLast_of_ne_nil init hlast]
    simp

/-- Whether a token ends with a colon at the top level. -/
def EndsAtColon (token : List Char) : Prop :=
  token.getLast? = some ':' ∧ Place.top.after token.dropLast = .top

instance (token : List Char) : Decidable (EndsAtColon token) :=
  inferInstanceAs (Decidable (_ ∧ _))

/-- A token is its segments with colons between them, and possibly one more colon at its end. -/
theorem intercalate_cut (token : List Char) :
  [':'].intercalate (cut token) = if EndsAtColon token then token.dropLast else token
  := by
  obtain ⟨init, last, hpieces⟩ := Place.exists_pieces_eq_concat .top token
  have hlast := Place.getLast?_pieces .top token
  have htoken := chain_append_of_pieces hpieces
  rw [hpieces, List.getLast?_concat, Option.some.injEq] at hlast
  rw [cut_eq_pieces, hpieces]
  by_cases hempty : last = []
  · subst hempty
    rw [dropEmptyLast_nil]
    obtain rfl | ⟨modifiers, modifier, rfl⟩ := List.eq_nil_or_concat' init
    · subst htoken
      simp [chain]
    · have hne : token ≠ [] := by
        rw [← htoken]
        simp [chain]
      have hcolon : EndsAtColon token := (hlast.mp rfl).resolve_left hne
      rw [if_pos hcolon, intercalate_concat, ← htoken, chain_append]
      simp [chain]
  · have hcolon : ¬ EndsAtColon token := fun hcolon => hempty (hlast.mpr (.inr hcolon))
    rw [dropEmptyLast_of_ne_nil init hempty, if_neg hcolon, intercalate_concat, htoken]

/-- A segment is cut no further. -/
theorem cut_of_mem_cut {token : List Char} (h : segment ∈ cut token) (hne : segment ≠ []) :
  cut segment = [segment]
  := by
  obtain ⟨first, later, hpieces⟩ := Place.exists_pieces_eq_cons .top token
  obtain ⟨hfirst, hlater⟩ := Place.pieces_of_pieces hpieces
  have hmem : segment ∈ first :: later := by
    rw [cut_eq_pieces, hpieces, dropEmptyLast] at h
    split at h
    · exact List.dropLast_subset _ h
    · exact h
  have hsegment : Place.top.pieces segment = [segment] := by
    rcases List.mem_cons.mp hmem with rfl | hmem
    · exact hfirst
    · exact hlater segment hmem
  rw [cut_eq_pieces, hsegment]
  exact dropEmptyLast_of_ne_nil [] hne

/-! ### Brackets -/

namespace Place

/-- A place in more brackets. -/
inductive Within : Place → Place → Prop where
  | outside {depth depth' : Nat} : depth ≤ depth' → Within (outside depth) (outside depth')
  | quoted {depth depth' : Nat} {mark : QuoteMark} {escaped : Bool} :
    depth ≤ depth' → Within (quoted depth mark escaped) (quoted depth' mark escaped)

theorem Within.next {place' : Place} (h : Within place place') (c : Char) :
  Within (place.next c) (place'.next c)
  := by
  cases h with
  | outside h =>
    simp only [Place.next]
    split_ifs
    · exact .quoted h
    · exact .outside (by omega)
    · exact .outside (by omega)
    · exact .outside h
  | @quoted _ _ mark escaped h =>
    cases escaped with
    | true => exact .quoted h
    | false =>
      simp only [Place.next]
      split_ifs
      · exact .quoted h
      · exact .outside h
      · exact .quoted h

theorem Within.eq_top (h : Within place top) :
  place = top
  := by
  obtain ⟨hdepth⟩ := h
  obtain rfl := Nat.le_zero.mp hdepth
  rfl

/-- A text without quotes does not lead into a quotation. -/
theorem exists_after_outside (depth : Nat) (hdouble : '"' ∉ text) (hsingle : '\'' ∉ text) :
  ∃ depth', (outside depth).after text = outside depth'
  := by
  induction text generalizing depth with
  | nil => use depth; rfl
  | cons c text ih =>
    rw [List.mem_cons, not_or] at hdouble hsingle
    have hmark : ¬ (c = '"' ∨ c = '\'') := by
      rw [not_or]
      exact ⟨Ne.symm hdouble.1, Ne.symm hsingle.1⟩
    rw [after_cons, Place.next, dif_neg hmark]
    split_ifs
    all_goals apply ih _ hdouble.2 hsingle.2

end Place

/-- The text has no colon at the top level, or only one at its end. -/
def IsRoot (place : Place) (text : List Char) : Prop :=
  (place.pieces text).tail = [] ∨ (place.pieces text).tail = [[]]

/-- A root is a root inside more brackets. -/
theorem IsRoot.mono {place' : Place} (h : IsRoot place text) (hwithin : place.Within place') :
  IsRoot place' text
  := by
  induction text generalizing place place' with
  | nil => exact .inl rfl
  | cons c text ih =>
    by_cases hcut : c = ':' ∧ place = .top
    · obtain ⟨rfl, rfl⟩ := hcut
      -- the colon ends the text, wherever it is read
      rw [IsRoot, Place.pieces_cons_colon, List.tail_cons] at h
      have hlast : Place.top.pieces text = [[]] :=
        h.resolve_left fun hnil => by
          obtain ⟨first, later, hcons⟩ := Place.exists_pieces_eq_cons .top text
          simp [hcons] at hnil
      obtain rfl := eq_of_pieces_eq_singleton hlast
      rw [IsRoot, Place.pieces]
      split
      · exact .inr rfl
      · exact .inl rfl
    · have hcut' : ¬ (c = ':' ∧ place' = .top) := by
        rintro ⟨rfl, rfl⟩
        exact hcut ⟨rfl, hwithin.eq_top⟩
      rw [IsRoot, Place.pieces_cons_of_not hcut, List.tail_modifyHead] at h
      rw [IsRoot, Place.pieces_cons_of_not hcut', List.tail_modifyHead]
      exact ih h (hwithin.next c)

end UtilityClasses.Token
