import Mathlib.Data.List.Basic
import UtilityClasses.Proofs.Token.Segments

/-!
# Prefixing a token twice

A token that has been prefixed carries the affix, so that it is not prefixed again.
-/

namespace UtilityClasses.Token

variable {affix body token : List Char}

/-- A token is its modifiers and a root. -/
theorem exists_root (h : body ≠ []) :
  ∃ root, body = chain (cut body).dropLast ++ root ∧ root ≠ [] ∧ IsRoot .top root ∧
    ∀ more, Place.top.pieces (chain (cut body).dropLast ++ more) =
      (cut body).dropLast ++ Place.top.pieces more
  := by
  obtain ⟨init, last, hpieces⟩ := Place.exists_pieces_eq_concat .top body
  have hbody := chain_append_of_pieces hpieces
  rw [cut_eq_pieces, hpieces]
  by_cases hlast : last = []
  · subst hlast
    obtain rfl | ⟨modifiers, modifier, rfl⟩ := List.eq_nil_or_concat' init
    · exact absurd hbody.symm (by simpa [chain] using h)
    · have hsplit : Place.top.pieces body = modifiers ++ modifier :: [[]] := by
        rw [hpieces, List.append_assoc]
        rfl
      have hroot : body = chain modifiers ++ (modifier ++ [':']) := by
        rw [← hbody, chain_append]
        simp
      rw [dropEmptyLast_nil, List.dropLast_concat]
      refine ⟨modifier ++ [':'], hroot, by simp, ?_, pieces_chain_append hsplit⟩
      rw [hroot] at hsplit
      rw [IsRoot, pieces_behind_chain hsplit]
      exact .inr rfl
  · rw [dropEmptyLast_of_ne_nil init hlast, List.dropLast_concat]
    refine ⟨last, hbody.symm, hlast, ?_, pieces_chain_append hpieces⟩
    rw [IsRoot, pieces_last hpieces]
    exact .inl rfl

/-- The affix goes in front of the root. -/
theorem affixBody_of_root {root : List Char} (h : body = chain (cut body).dropLast ++ root)
    (hne : root ≠ []) :
  affixBody affix body =
    if carries affix (cut body).dropLast root = true then body
    else chain (cut body).dropLast ++ (affix ++ root)
  := by
  have hdrop : body.drop (chain (cut body).dropLast).length = root := by
    nth_rewrite 2 [h]
    rw [List.drop_left]
  have hempty : body.isEmpty = false := by
    rw [h]
    simpa using fun _ => hne
  rw [affixBody, hdrop, hempty, Bool.false_or, List.append_assoc]

/-- An affix that reaches behind the modifiers starts with them. -/
theorem prefix_chain_append_iff {rest : List Char} {later : List (List Char)} :
  (chain later).length ≤ affix.length ∧ affix <+: chain later ++ rest ↔
    ∃ more, affix = chain later ++ more ∧ more <+: rest
  := by
  constructor
  · rintro ⟨hlength, hstarts⟩
    obtain ⟨more, rfl⟩ :=
      List.prefix_of_prefix_length_le (List.prefix_append _ rest) hstarts hlength
    exact ⟨more, rfl, (List.prefix_append_right_inj _).mp hstarts⟩
  · rintro ⟨more, rfl, hmore⟩
    exact ⟨by simp, (List.prefix_append_right_inj _).mpr hmore⟩

/-- The affix is found if its last part starts the root, and the parts before it are the last
modifiers. -/
theorem carries_iff {rest : List Char} {modifiers : List (List Char)} :
  carries affix modifiers rest = true ↔
    ∃ earlier later more, modifiers = earlier ++ later ∧ affix = chain later ++ more ∧
      more <+: rest
  := by
  induction modifiers with
  | nil =>
    rw [carries, List.isPrefixOf_iff_prefix]
    constructor
    · intro hstarts
      exact ⟨[], [], affix, rfl, rfl, hstarts⟩
    · rintro ⟨earlier, later, more, hnil, rfl, hstarts⟩
      obtain ⟨rfl, rfl⟩ := List.append_eq_nil_iff.mp hnil.symm
      exact hstarts
  | cons modifier modifiers ih =>
    rw [carries, Bool.or_eq_true, Bool.and_eq_true, decide_eq_true_eq,
      List.isPrefixOf_iff_prefix, prefix_chain_append_iff, ih]
    constructor
    · rintro (⟨more, haffix, hmore⟩ | ⟨earlier, later, more, rfl, haffix, hmore⟩)
      · exact ⟨[], modifier :: modifiers, more, rfl, haffix, hmore⟩
      · exact ⟨modifier :: earlier, later, more, rfl, haffix, hmore⟩
    · rintro ⟨earlier, later, more, hsplit, haffix, hmore⟩
      cases earlier with
      | nil =>
        obtain rfl : modifier :: modifiers = later := hsplit
        exact .inl ⟨more, haffix, hmore⟩
      | cons first earlier =>
        obtain ⟨-, rfl⟩ := List.cons.inj hsplit
        exact .inr ⟨earlier, later, more, rfl, haffix, hmore⟩

/-- The modifiers of a token after it has been prefixed: those of the affix come last. -/
theorem dropLast_cut_affixed (hdouble : '"' ∉ affix) (hsingle : '\'' ∉ affix) {root : List Char}
    {modifiers : List (List Char)} (hne : root ≠ []) (hroot : IsRoot .top root)
    (hchain : ∀ more, Place.top.pieces (chain modifiers ++ more) =
      modifiers ++ Place.top.pieces more) :
  ∃ later last, affix = chain later ++ last ∧
    (cut (chain modifiers ++ (affix ++ root))).dropLast = modifiers ++ later
  := by
  obtain ⟨later, last, haffix⟩ := Place.exists_pieces_eq_concat .top affix
  obtain ⟨depth, hdepth⟩ : ∃ depth, Place.top.after affix = .outside depth :=
    Place.exists_after_outside 0 hdouble hsingle
  have hdeeper : IsRoot (.outside depth) root := hroot.mono (.outside (Nat.zero_le depth))
  obtain ⟨first, others, hpieces⟩ := Place.exists_pieces_eq_cons (.outside depth) root
  refine ⟨later, last, (chain_append_of_pieces haffix).symm, ?_⟩
  rw [cut_eq_pieces, hchain, Place.pieces_append haffix, hdepth, hpieces, List.modifyHead_cons]
  rw [IsRoot, hpieces, List.tail_cons] at hdeeper
  obtain rfl | rfl := hdeeper
  · obtain rfl := eq_of_pieces_eq_singleton hpieces
    have hlast : last ++ first ≠ [] := List.append_ne_nil_of_right_ne_nil _ hne
    rw [← List.append_assoc, dropEmptyLast_of_ne_nil _ hlast, List.dropLast_concat]
  · have hsplit : modifiers ++ (later ++ (last ++ first) :: [[]]) =
        (modifiers ++ later ++ [last ++ first]) ++ [[]] := by
      simp
    rw [hsplit, dropEmptyLast_nil, List.dropLast_concat]

/-- A body that has been prefixed is not prefixed again. -/
theorem affixBody_affixBody (hdouble : '"' ∉ affix) (hsingle : '\'' ∉ affix)
    (body : List Char) :
  affixBody affix (affixBody affix body) = affixBody affix body
  := by
  by_cases hempty : body = []
  · subst hempty
    rfl
  obtain ⟨root, hbody, hne, hroot, hchain⟩ := exists_root hempty
  by_cases hcarries : carries affix (cut body).dropLast root = true
  · have hsame : affixBody affix body = body := by
      rw [affixBody_of_root hbody hne, if_pos hcarries]
    rw [hsame, hsame]
  · have hnew : affixBody affix body = chain (cut body).dropLast ++ (affix ++ root) := by
      rw [affixBody_of_root hbody hne, if_neg hcarries]
    obtain ⟨later, last, haffix, hmodifiers⟩ :=
      dropLast_cut_affixed hdouble hsingle hne hroot hchain
    rw [← hnew] at hmodifiers
    have hsplit : affixBody affix body =
        chain (cut (affixBody affix body)).dropLast ++ (last ++ root) := by
      rw [hmodifiers, hnew, chain_append]
      nth_rewrite 1 [haffix]
      simp
    have hagain : carries affix (cut (affixBody affix body)).dropLast (last ++ root) = true := by
      rw [hmodifiers]
      exact carries_iff.mpr ⟨_, later, last, rfl, haffix, List.prefix_append last root⟩
    rw [affixBody_of_root hsplit (List.append_ne_nil_of_right_ne_nil last hne), if_pos hagain]

/-- The empty affix is carried by every token. -/
theorem affixBody_nil (body : List Char) :
  affixBody [] body = body
  := by
  by_cases hempty : body = []
  · subst hempty
    rfl
  obtain ⟨root, hbody, hne, -⟩ := exists_root hempty
  rw [affixBody_of_root hbody hne, if_pos]
  exact carries_iff.mpr ⟨_, [], [], (List.append_nil _).symm, rfl, List.nil_prefix⟩

/-- A prefixed body is made of the affix and of what it was. -/
theorem mem_affixBody {c : Char} (h : c ∈ affixBody affix body) :
  c ∈ affix ∨ c ∈ body
  := by
  by_cases hempty : body = []
  · subst hempty
    simp [affixBody] at h
  obtain ⟨root, hbody, hne, -⟩ := exists_root hempty
  rw [affixBody_of_root hbody hne] at h
  split at h
  · exact .inr h
  · rw [hbody]
    simp only [List.mem_append] at h ⊢
    obtain h | h | h := h
    · exact .inr (.inl h)
    · exact .inl h
    · exact .inr (.inr h)

theorem affixBody_ne_nil (h : body ≠ []) :
  affixBody affix body ≠ []
  := by
  obtain ⟨root, hbody, hne, -⟩ := exists_root h
  rw [affixBody_of_root hbody hne]
  split
  · exact h
  · simp [hne]

/-- A prefixed body starts as before, or with the affix. -/
theorem head?_affixBody_cases (affix body : List Char) :
  (affixBody affix body).head? = body.head? ∨ (affixBody affix body).head? = affix.head?
  := by
  by_cases hempty : body = []
  · subst hempty
    exact .inl rfl
  obtain ⟨root, hbody, hne, -⟩ := exists_root hempty
  have hhead := congrArg List.head? hbody
  rw [affixBody_of_root hbody hne]
  split
  · exact .inl rfl
  · rw [hhead]
    generalize chain (cut body).dropLast = front
    cases front with
    | cons c rest => exact .inl rfl
    | nil =>
      cases affix with
      | nil => exact .inl rfl
      | cons c affix => exact .inr rfl

/-- A body that does not start with the marker does not start with it after it has been
prefixed. -/
theorem head?_affixBody (hmark : affix.head? ≠ some '!') (h : body.head? ≠ some '!') :
  (affixBody affix body).head? ≠ some '!'
  := by
  obtain heq | heq := head?_affixBody_cases affix body
  · rwa [heq]
  · rwa [heq]

/-- A prefixed body ends as before. -/
theorem getLast?_affixBody (affix body : List Char) :
  (affixBody affix body).getLast? = body.getLast?
  := by
  by_cases hempty : body = []
  · subst hempty
    rfl
  obtain ⟨root, hbody, hne, -⟩ := exists_root hempty
  rw [affixBody_of_root hbody hne]
  split
  · rfl
  · nth_rewrite 2 [hbody]
    rw [← List.append_assoc, List.getLast?_append_of_ne_nil _ hne,
      List.getLast?_append_of_ne_nil _ hne]

/-- An affix that is found at a segment stands in the token. -/
theorem infix_of_carries {rest : List Char} {modifiers : List (List Char)}
    (h : carries affix modifiers rest = true) :
  affix <:+: chain modifiers ++ rest
  := by
  obtain ⟨earlier, later, more, rfl, rfl, hmore⟩ := carries_iff.mp h
  rw [chain_append, List.append_assoc]
  apply List.IsInfix.trans _ (List.suffix_append _ _).isInfix
  apply ((List.prefix_append_right_inj _).mpr hmore).isInfix

/-- A body in which the affix does not occur is prefixed. -/
theorem affixBody_ne_self (haffix : affix ≠ []) (hbody : body ≠ []) (h : ¬ affix <:+: body) :
  affixBody affix body ≠ body
  := by
  obtain ⟨root, hroot, hne, -⟩ := exists_root hbody
  have hcarries : ¬ carries affix (cut body).dropLast root = true := by
    intro hcarries
    apply h
    rw [hroot]
    exact infix_of_carries hcarries
  rw [affixBody_of_root hroot hne, if_neg hcarries]
  nth_rewrite 2 [hroot]
  simpa using haffix

/-! ### Tokens -/

/-- The marker of a token stays in front of it. -/
theorem exists_marker (token : List Char) :
  ∃ marker, token = marker ++ Token.body token ∧
    ∀ affix, affixChars affix token = marker ++ affixBody affix (Token.body token)
  := by
  rw [Token.body.eq_def]
  split
  · use ['!'], rfl
    intro affix
    rfl
  · next hmark =>
    use [], rfl
    intro affix
    rw [affixChars]
    · rfl
    · exact hmark

theorem body_of_head?_ne (h : token.head? ≠ some '!') :
  Token.body token = token
  := by
  rw [Token.body.eq_def]
  split
  · simp at h
  · rfl

theorem affixChars_of_head?_ne (h : token.head? ≠ some '!') :
  affixChars affix token = affixBody affix token
  := by
  rw [affixChars.eq_def]
  split
  · simp at h
  · rfl

/-- A token that has been prefixed is not prefixed again. -/
theorem affixChars_affixChars (hdouble : '"' ∉ affix) (hsingle : '\'' ∉ affix)
    (hmark : affix.head? ≠ some '!') (token : List Char) :
  affixChars affix (affixChars affix token) = affixChars affix token
  := by
  by_cases hhead : token.head? = some '!'
  · obtain ⟨body, rfl⟩ := List.head?_eq_some_iff.mp hhead
    rw [affixChars, affixChars, affixBody_affixBody hdouble hsingle]
  · rw [affixChars_of_head?_ne hhead, affixChars_of_head?_ne (head?_affixBody hmark hhead),
      affixBody_affixBody hdouble hsingle]

/-- An affix without quotes is put on every token once exactly if it does not start with the
marker: the second time, the marker of the affix is taken for that of the token. -/
theorem affixChars_affixChars_iff (hdouble : '"' ∉ affix) (hsingle : '\'' ∉ affix) :
  (∀ token, affixChars affix (affixChars affix token) = affixChars affix token) ↔
    affix.head? ≠ some '!'
  := by
  constructor
  · intro honce hmark
    obtain ⟨rest, rfl⟩ := List.head?_eq_some_iff.mp hmark
    have hfirst : affixChars ('!' :: rest) ['a'] = '!' :: (rest ++ ['a']) := rfl
    -- the affix is as long as what stands behind the marker, and has one marker more
    have hnot : ¬ '!' :: rest <:+: rest ++ ['a'] := by
      intro hwithin
      have hcount := congrArg (List.count '!') (hwithin.eq_of_length (by simp))
      simp at hcount
    have hagain := honce ['a']
    rw [hfirst, affixChars, List.cons.injEq] at hagain
    exact affixBody_ne_self (List.cons_ne_nil _ _) (by simp) hnot hagain.2
  · intro hmark token
    exact affixChars_affixChars hdouble hsingle hmark token

example :
    affixChars ['!'] (affixChars ['!'] ['f', 'l', 'e', 'x']) = ['!', '!', 'f', 'l', 'e', 'x'] := by
  decide

/-- A prefixed token starts as before, or with the affix. -/
theorem head?_affixChars_cases (affix token : List Char) :
  (affixChars affix token).head? = token.head? ∨ (affixChars affix token).head? = affix.head?
  := by
  by_cases hhead : token.head? = some '!'
  · obtain ⟨body, rfl⟩ := List.head?_eq_some_iff.mp hhead
    exact .inl rfl
  · rw [affixChars_of_head?_ne hhead]
    exact head?_affixBody_cases affix token

/-- A prefixed token ends as before. -/
theorem getLast?_affixChars (affix token : List Char) :
  (affixChars affix token).getLast? = token.getLast?
  := by
  by_cases hhead : token.head? = some '!'
  · obtain ⟨body, rfl⟩ := List.head?_eq_some_iff.mp hhead
    rw [affixChars, List.getLast?_cons, List.getLast?_cons, getLast?_affixBody]
  · rw [affixChars_of_head?_ne hhead, getLast?_affixBody]

/-- A prefixed token is made of the affix and of what it was. -/
theorem mem_affixChars {c : Char} (h : c ∈ affixChars affix token) :
  c ∈ affix ∨ c ∈ token
  := by
  by_cases hhead : token.head? = some '!'
  · obtain ⟨body, rfl⟩ := List.head?_eq_some_iff.mp hhead
    rw [affixChars, List.mem_cons] at h
    obtain rfl | h := h
    · exact .inr List.mem_cons_self
    · exact (mem_affixBody h).imp_right (List.mem_cons_of_mem '!')
  · rw [affixChars_of_head?_ne hhead] at h
    exact mem_affixBody h

theorem affixChars_ne_nil (h : token ≠ []) :
  affixChars affix token ≠ []
  := by
  by_cases hhead : token.head? = some '!'
  · obtain ⟨body, rfl⟩ := List.head?_eq_some_iff.mp hhead
    apply List.cons_ne_nil
  · rw [affixChars_of_head?_ne hhead]
    apply affixBody_ne_nil h

end UtilityClasses.Token
