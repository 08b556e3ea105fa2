import UtilityClasses.Proofs.Region.Lexeme
import UtilityClasses.Proofs.Scan.Ample
import UtilityClasses.Proofs.Trace.Source

/-!
# Closing tags of blocks

Where braces in the text of a document hold code, `{/if}` closes a block. Its slash stands where
code expects an operand, so that a regular expression is looked for, and the search does not stop
at the brace but only at the end of the line. The tag ends at its own brace exactly if no regular
expression is found, that is, if no slash on the line behind the tag can end one.
-/

namespace UtilityClasses.Scan

open Text (byteSize)

variable {context : Context} {s s' t : State} {name later : List Char}

/-! ### Regular expressions -/

/-- The character means nothing in a regular expression. -/
def IsPlainInRegex (c : Char) : Prop :=
  c ≠ '\\' ∧ c ≠ '/' ∧ c ≠ '[' ∧ c ≠ ']' ∧ isLineBreak c = false

/-- A regular expression goes on over characters that mean nothing in it. -/
theorem regexBody_append {plain : List Char} (h : ∀ c ∈ plain, IsPlainInRegex c) (inClass : Bool)
    (later : List Char) :
  regexBody inClass (plain ++ later) = (regexBody inClass later).map (· + plain.length)
  := by
  induction plain with
  | nil => simp
  | cons c plain ih =>
    rw [List.forall_mem_cons] at h
    obtain ⟨⟨hbackslash, hslash, hopening, hclosing, hbreak⟩, hall⟩ := h
    rw [List.cons_append, regexBody.eq_2 _ _ _ fun _ _ heq _ => hbackslash heq]
    simp only [hslash, hbreak, hopening, hclosing, ih hall, decide_false, Bool.false_and,
      Bool.false_eq_true, if_false, Option.map_map, List.length_cons]
    rfl

/-- A line without a slash has no end of a regular expression. -/
theorem regexBody_eq_none {text : List Char}
    (h : '/' ∉ text.takeWhile fun c => !isLineBreak c) (inClass : Bool) :
  regexBody inClass text = none
  := by
  fun_induction regexBody inClass text with
  | case1 => rfl
  | case2 inClass c later hbreak ih =>
    rw [ih, Option.map_none]
    intro hmem
    apply h
    have hescape : isLineBreak '\\' = false := rfl
    simp [hescape, hbreak, hmem]
  | case3 inClass c later hnot hslash =>
    obtain ⟨rfl, -⟩ : c = '/' ∧ _ := by simpa using hslash
    exact absurd (by simp [isLineBreak]) h
  | case4 => rfl
  | case5 inClass c later hnot hslash hbreak inner ih =>
    rw [ih, Option.map_none]
    intro hmem
    apply h
    simp [hbreak, hmem]
  | case6 => rfl

/-- A regular expression is passed with its flags. -/
theorem exists_runs_skipRegex {count : Nat} (h : regexBody false (s.rest.drop 1) = some count) :
  ∃ flags, Runs skipRegex s true (s.after (count + 1 + flags))
  := by
  simp only [skipRegex, runs_bind, runs_rest, and_assoc, exists_and_left, exists_eq_left, h,
    runs_skip, runs_discard, runs_takeWhile, runs_pure, exists_const, true_and]
  rw [State.after_after]
  exact ⟨_, rfl⟩

/-- Where no regular expression is, the scan stays. -/
theorem runs_skipRegex_of_none (h : regexBody false (s.rest.drop 1) = none) :
  Runs skipRegex s false s
  := by
  simp only [skipRegex, runs_bind, runs_rest, and_assoc, exists_and_left, exists_eq_left, h]
  exact runs_pure.mpr ⟨rfl, rfl⟩

/-! ### Code in front of a lexeme -/

variable {stops : List Char} {budget : Nat} {place : Place} {c : Char} {found : Bool}

/-- The scan of code passes over the lexeme ahead. -/
theorem runs_codeFrom_lexeme (htrivia : trivia s.rest = .closed 0) (hhead : s.rest.head? = some c)
    (hstop : c ∉ stops) :
  Runs (codeFrom context stops (budget + 1) place) s found s' ↔
    ∃ next t, Runs (lexeme context place c) s next t ∧
      Runs (codeFrom context stops budget next) t found s'
  := by
  obtain ⟨later, hrest⟩ := List.head?_eq_some_iff.mp hhead
  rw [hrest] at htrivia
  simp [codeFrom, hrest, htrivia, hstop]

/-- The scan of code stays where a stop is. -/
theorem runs_codeFrom_stop (htrivia : trivia s.rest = .closed 0) (hhead : s.rest.head? = some c)
    (hdepth : place.depth = 0) (hstop : c ∈ stops) :
  Runs (codeFrom context stops (budget + 1) place) s found s' ↔ found = true ∧ s' = s
  := by
  obtain ⟨later, hrest⟩ := List.head?_eq_some_iff.mp hhead
  rw [hrest] at htrivia
  simp [codeFrom, hrest, htrivia, hstop, hdepth]

/-! ### Closing tags -/

/-- The closing tag of a block. -/
def closingBlock (name : List Char) : List Char :=
  '\x7b' :: '/' :: (name ++ ['\x7d'])

/-- Letters and the closing brace mean nothing in a regular expression. -/
theorem isPlainInRegex_of_mem (hname : ∀ c ∈ name, c.isAlpha = true) {c : Char}
    (hc : c ∈ name ++ ['\x7d']) :
  IsPlainInRegex c
  := by
  obtain hc | hc := List.mem_append.mp hc
  · have hletter := hname c hc
    refine ⟨?_, ?_, ?_, ?_, ?_⟩
    iterate 4
      · rintro rfl
        simp at hletter
    · rw [isLineBreak, Bool.or_eq_false_iff, decide_eq_false_iff_not, decide_eq_false_iff_not]
      constructor <;> rintro rfl <;> simp at hletter
  · obtain rfl := List.mem_singleton.mp hc
    exact ⟨by decide, by decide, by decide, by decide, rfl⟩

/-- What the scan looks for behind the slash of a closing tag lies behind the tag. -/
theorem regexBody_closingBlock (hname : ∀ c ∈ name, c.isAlpha = true) (later : List Char) :
  regexBody false (name ++ '\x7d' :: later) =
    (regexBody false later).map (· + (name.length + 1))
  := by
  have h := regexBody_append (fun c => isPlainInRegex_of_mem hname) false later
  rwa [List.append_assoc, List.length_append] at h

theorem trivia_of_isSolid (h : IsSolid c) (later : List Char) :
  trivia (c :: later) = .closed 0
  := by
  apply trivia_append (List.forall_mem_nil _)
  rintro d ⟨⟩
  exact h

/-- No blank and no comment stands where a closing tag has its slash. -/
theorem trivia_closingBlock (hne : name ≠ []) (hname : ∀ c ∈ name, c.isAlpha = true)
    (later : List Char) :
  trivia ('/' :: (name ++ later)) = .closed 0
  := by
  obtain ⟨c, rest, rfl⟩ := List.exists_cons_of_ne_nil hne
  have hletter : c.isAlpha = true := hname c List.mem_cons_self
  rw [trivia_of_comment (by simp [isSpacing])]
  have habsent : comment ('/' :: (c :: rest ++ later)) = .absent := by
    rw [List.cons_append]
    unfold comment
    split
    · next heq =>
      obtain ⟨rfl, -⟩ : c = '/' ∧ _ := by simpa using heq
      simp at hletter
    · next heq =>
      obtain ⟨rfl, -⟩ : c = '*' ∧ _ := by simpa using heq
      simp at hletter
    · rfl
  rw [habsent]

theorem isNameStart_of_isAlpha (h : c.isAlpha = true) :
  isNameStart c = true
  := by
  simp [isNameStart, h]

/-- The scan of code passes over a name and stays at the brace behind it. -/
theorem runs_codeFrom_name (hrest : s.rest = name ++ '\x7d' :: later) (hne : name ≠ [])
    (hname : ∀ c ∈ name, c.isAlpha = true) (budget : Nat) (previous : Previous) :
  Runs (codeFrom context ['\x7d'] (budget + 2) ⟨0, previous⟩) s true (s.after name.length)
  := by
  have hstart : ∀ c ∈ name, isNameStart c = true := fun c hc => isNameStart_of_isAlpha (hname c hc)
  have hall : ∀ c ∈ name, isNameChar c = true := fun c hc => isNameChar_of_isNameStart (hstart c hc)
  have hword : s.rest.takeWhile isNameChar = name := by
    rw [hrest, eq_takeWhile_iff]
    apply And.intro hall
    rintro d ⟨⟩
    rfl
  have hbrace : (s.after name.length).rest = '\x7d' :: later := State.after_length_rest hrest
  have hend : Runs (codeFrom context ['\x7d'] (budget + 1) ⟨0,
      if operatorWords.contains (String.ofList name) then .operator else .operand⟩)
      (s.after name.length) true (s.after name.length) := by
    apply (runs_codeFrom_stop _ (by rw [hbrace]; rfl) rfl (by simp)).mpr ⟨rfl, rfl⟩
    rw [hbrace]
    exact trivia_of_isSolid ⟨rfl, by decide⟩ later
  obtain ⟨c, rest, rfl⟩ := List.exists_cons_of_ne_nil hne
  have hc := hall c List.mem_cons_self
  rw [runs_codeFrom_lexeme (hrest ▸ trivia_of_isSolid (isSolid_of_isNameChar hc) _)
      (by rw [hrest]; rfl) (by simpa using ne_of_isNameChar hc rfl),
    lexeme_of_isNameChar hc, if_pos (hstart c List.mem_cons_self)]
  simp only [runs_bind, runs_takeWhile, hword, runs_pure, and_assoc, exists_and_left,
    exists_eq_left]
  exact hend

/-- If no regular expression is found, the scan of the code in a closing tag stays at the brace
of the tag. -/
theorem runs_codeFrom_closingBlock (hrest : s.rest = '/' :: (name ++ '\x7d' :: later))
    (hne : name ≠ []) (hname : ∀ c ∈ name, c.isAlpha = true)
    (hregex : regexBody false later = none) (budget : Nat) :
  Runs (codeFrom context ['\x7d'] (budget + 3) ⟨0, .operator⟩) s true
    (s.after (name.length + 1))
  := by
  have hslash : Runs (lexeme context ⟨0, .operator⟩ '/') s ⟨0, .operator⟩ (s.after 1) := by
    have hlexeme : lexeme context ⟨0, .operator⟩ '/' = slash ⟨0, .operator⟩ := rfl
    have hnone : regexBody false (s.rest.drop 1) = none := by
      rw [hrest, List.drop_succ_cons, List.drop_zero, regexBody_closingBlock hname, hregex]
      rfl
    rw [hlexeme, slash, if_pos rfl]
    exact runs_bind.mpr ⟨false, s, runs_skipRegex_of_none hnone, by simp [operator]⟩
  have hafter : (s.after 1).rest = name ++ '\x7d' :: later := by
    rw [State.after_rest, hrest, List.drop_succ_cons, List.drop_zero]
  rw [runs_codeFrom_lexeme (hrest ▸ trivia_closingBlock hne hname _) (by rw [hrest]; rfl)
    (by simp)]
  refine ⟨_, _, hslash, ?_⟩
  rw [Nat.add_comm name.length, ← State.after_after]
  exact runs_codeFrom_name hafter hne hname budget .operator

/-- If a regular expression is found, the scan of the code in a closing tag goes beyond the brace
of the tag. -/
theorem closingBlock_le_pos (hnested : context.nested.Traced)
    (hrest : s.rest = '/' :: (name ++ '\x7d' :: later)) (hne : name ≠ [])
    (hname : ∀ c ∈ name, c.isAlpha = true) {count : Nat}
    (hregex : regexBody false later = some count) {budget : Nat}
    (h : Runs (codeFrom context ['\x7d'] (budget + 1) ⟨0, .operator⟩) s found s') :
  s.pos + byteSize ('/' :: (name ++ ['\x7d'])) ≤ s'.pos
  := by
  rw [runs_codeFrom_lexeme (hrest ▸ trivia_closingBlock hne hname _) (by rw [hrest]; rfl)
    (by simp)] at h
  obtain ⟨next, t, hslash, hmore⟩ := h
  have hlexeme : lexeme context ⟨0, .operator⟩ '/' = slash ⟨0, .operator⟩ := rfl
  have hsome : regexBody false (s.rest.drop 1) = some (count + (name.length + 1)) := by
    rw [hrest, List.drop_succ_cons, List.drop_zero, regexBody_closingBlock hname, hregex]
    rfl
  obtain ⟨flags, hskip⟩ := exists_runs_skipRegex hsome
  rw [hlexeme, slash, if_pos rfl, runs_bind] at hslash
  obtain ⟨skipped, u, hskipped, hslash⟩ := hslash
  obtain ⟨rfl, rfl⟩ := Prod.mk.inj (Except.ok.inj (hskipped.symm.trans hskip))
  obtain ⟨-, rfl⟩ := runs_pure.mp hslash
  have htag : s.Passes ('/' :: (name ++ ['\x7d'])) (s.after (name.length + 2)) := by
    have hahead : s.rest = '/' :: (name ++ ['\x7d']) ++ later := by simp [hrest]
    simpa using State.passes_after hahead
  have hcount : count + (name.length + 1) + 1 + flags = (name.length + 2) + (count + flags) := by
    omega
  calc s.pos + byteSize ('/' :: (name ++ ['\x7d']))
    _ = (s.after (name.length + 2)).pos := htag.pos.symm
    _ ≤ ((s.after (name.length + 2)).after (count + flags)).pos := State.pos_le_after _ _
    _ = (s.after (count + (name.length + 1) + 1 + flags)).pos := by rw [State.after_after, hcount]
    _ ≤ s'.pos := (codeFrom_steps hnested hmore []).pos_le

/-- Braces with code end behind the brace at which the scan of the code stays. -/
theorem runs_braced_iff :
  Runs (braced context) s () t ↔
    ∃ u, Runs (context.nested.code ['\x7d']) (s.after 1) true u ∧ t = u.after 1
  := by
  simp only [braced, runs_bind, runs_position, runs_skip, and_assoc, exists_and_left,
    exists_eq_left, exists_const]
  constructor
  · rintro ⟨found, u, hcode, hclose⟩
    split at hclose
    · next hfound => exact ⟨u, hfound ▸ hcode, runs_skip.mp hclose⟩
    · simp at hclose
  · rintro ⟨u, hcode, rfl⟩
    exact ⟨true, u, hcode, runs_skip.mpr rfl⟩

/-- The code in a closing tag of a block is scanned from the slash on. -/
theorem runs_documentBraces_iff (hcontext : context.Ample s.rest.length)
    (hdialect : context.dialect.hasContainers = true) (hne : name ≠ [])
    (hpasses : s.Passes (closingBlock name) t) :
  ∃ (inner : Context) (budget : Nat), inner.nested.Traced ∧
    (s.after 1).rest = '/' :: (name ++ '\x7d' :: t.rest) ∧
    (Runs (documentBraces context) s () t ↔
      ∃ u, Runs (codeFrom inner ['\x7d'] (budget + 3) ⟨0, .operator⟩) (s.after 1) true u ∧
        t = u.after 1)
  := by
  have hahead : s.rest = '\x7b' :: '/' :: (name ++ '\x7d' :: t.rest) := by
    simpa [closingBlock] using hpasses.ahead
  have hrest : (s.after 1).rest = '/' :: (name ++ '\x7d' :: t.rest) := by
    rw [State.after_rest, hahead, List.drop_succ_cons, List.drop_zero]
  have hless : (s.after 1).rest.length < s.rest.length := by
    rw [hrest, hahead]
    simp
  obtain ⟨inner, hample, -, hnested⟩ := hcontext.exists_scans hless
  obtain ⟨budget, hbudget⟩ : ∃ budget, inner.budget = budget + 3 := by
    have hlt := hample.lt_budget
    rw [hrest, List.length_cons, List.length_append, List.length_cons] at hlt
    exact ⟨inner.budget - 3, by have := List.length_pos_iff.mpr hne; omega⟩
  have hcode : context.nested.code ['\x7d'] =
      codeFrom inner ['\x7d'] (budget + 3) ⟨0, .operator⟩ := by
    rw [hnested, ← hbudget]
    rfl
  use inner, budget, hample.nested_eq ▸ nested_traced _ _, hrest
  rw [documentBraces, if_pos hdialect, runs_braced_iff, hcode]

/-- A closing tag of a block ends at its own brace if the text behind it does not end a regular
expression on the same line. -/
theorem runs_documentBraces_closingBlock (hcontext : context.Ample s.rest.length)
    (hdialect : context.dialect.hasContainers = true) (hne : name ≠ [])
    (hname : ∀ c ∈ name, c.isAlpha = true) (hpasses : s.Passes (closingBlock name) t)
    (hregex : regexBody false t.rest = none) :
  Runs (documentBraces context) s () t
  := by
  obtain ⟨inner, budget, -, hrest, hruns⟩ :=
    runs_documentBraces_iff hcontext hdialect hne hpasses
  apply hruns.mpr
  refine ⟨_, runs_codeFrom_closingBlock hrest hne hname hregex budget, ?_⟩
  rw [State.after_after, State.after_after, hpasses.eq_after, closingBlock]
  simp [Nat.add_comm]

/-- A closing tag of a block that ends at its own brace has no end of a regular expression behind
it on the same line. -/
theorem regexBody_of_runs_documentBraces (hcontext : context.Ample s.rest.length)
    (hdialect : context.dialect.hasContainers = true) (hne : name ≠ [])
    (hname : ∀ c ∈ name, c.isAlpha = true) (hpasses : s.Passes (closingBlock name) t)
    (h : Runs (documentBraces context) s () t) :
  regexBody false t.rest = none
  := by
  obtain ⟨inner, budget, htraced, hrest, hruns⟩ :=
    runs_documentBraces_iff hcontext hdialect hne hpasses
  obtain ⟨u, hfrom, rfl⟩ := hruns.mp h
  cases hregex : regexBody false (u.after 1).rest with
  | none => rfl
  | some count =>
    exfalso
    have hle := closingBlock_le_pos htraced hrest hne hname hregex hfrom
    have hpos : (u.after 1).pos = (s.after 1).pos + byteSize ('/' :: (name ++ ['\x7d'])) := by
      rw [hpasses.pos, State.after, hpasses.ahead, closingBlock, byteSize]
      simp [byteSize, Nat.add_assoc]
    -- behind the tag there is a character, since a regular expression ends there
    obtain ⟨c, hc⟩ : ∃ c, u.rest.head? = some c := by
      cases hu : u.rest with
      | nil => simp [hu, regexBody] at hregex
      | cons c rest => exact ⟨c, rfl⟩
    have hlt := State.pos_lt_after hc Nat.one_pos
    omega

/-- A closing tag of a block ends at its own brace exactly if the text behind it does not end a
regular expression on the same line. -/
theorem runs_documentBraces_closingBlock_iff (hcontext : context.Ample s.rest.length)
    (hdialect : context.dialect.hasContainers = true) (hne : name ≠ [])
    (hname : ∀ c ∈ name, c.isAlpha = true) (hpasses : s.Passes (closingBlock name) t) :
  Runs (documentBraces context) s () t ↔ regexBody false t.rest = none
  := ⟨regexBody_of_runs_documentBraces hcontext hdialect hne hname hpasses,
    runs_documentBraces_closingBlock hcontext hdialect hne hname hpasses⟩

/-- A closing tag ends at its own brace in front of a line break, and not in front of another tag on
the same line. -/
theorem runs_documentBraces_closingBlock_iff_lineBreak :
  let context := Context.ofLength .svelte 10
  let first := State.initial "\x7b/if\x7d\n</p>".toList
  let second := State.initial "\x7b/if\x7d</p>".toList
  Runs (documentBraces context) first () (first.after 5) ∧
    ¬ Runs (documentBraces context) second () (second.after 5)
  := by
  intro context first second
  have hname : ∀ c ∈ ['i', 'f'], c.isAlpha = true := by simp
  have hample (s : State) (hlength : s.rest.length ≤ 10) : context.Ample s.rest.length :=
    (Context.ample_ofLength .svelte 10).mono hlength
  have hfirst : first.Passes (closingBlock ['i', 'f']) (first.after 5) := ⟨rfl, rfl⟩
  have hsecond : second.Passes (closingBlock ['i', 'f']) (second.after 5) := ⟨rfl, rfl⟩
  rw [runs_documentBraces_closingBlock_iff (hample first (by decide)) rfl (by simp) hname hfirst,
    runs_documentBraces_closingBlock_iff (hample second (by decide)) rfl (by simp) hname hsecond]
  decide

/-- A closing tag of a block with no slash behind it on its line ends at its own brace. -/
theorem runs_documentBraces_of_notMem (hcontext : context.Ample s.rest.length)
    (hdialect : context.dialect.hasContainers = true) (hne : name ≠ [])
    (hname : ∀ c ∈ name, c.isAlpha = true) (hpasses : s.Passes (closingBlock name) t)
    (hline : '/' ∉ t.rest.takeWhile fun c => !isLineBreak c) :
  Runs (documentBraces context) s () t
  := by
  apply runs_documentBraces_closingBlock hcontext hdialect hne hname hpasses
  exact regexBody_eq_none hline false

/-- Behind the closing tag, `</` on the same line ends what is taken for a regular expression. -/
example :
    (Markup.parse .svelte "\x7b#if a\x7db\x7b/if\x7d</p>").isOk = false ∧
      (Markup.parse .svelte "\x7b#if a\x7db\x7b/if\x7d\n</p>").isOk = true := by
  decide +kernel

end UtilityClasses.Scan
