import UtilityClasses.Cursor.Source
import UtilityClasses.Proofs.Cursor.Expression
import UtilityClasses.Proofs.Cursor.Token

/-!
# Sources, byte by byte

A source is read by its bytes as it is scanned by its characters, and with the same result. So the
cursor is never put into a character or past the end, no text is cut inside a character, and every
loop comes to its end.
-/

namespace UtilityClasses.Cursor

open Allocator (unbounded)
open Text (byteSize)
open Scan (Runs discard_bind)

variable {source : List Char} {s t : Scan.State} {mine : Context} {theirs : Scan.Context}

/-! ### Constructs in one another -/

/-- Constructs nested no deeper than there are characters left are read as they are scanned. -/
theorem agrees_nested (source : List Char) (dialect : Dialect) {count depth budget : Nat}
    (hdepth : count ≤ depth) (hbudget : count ≤ budget) :
  (unbounded.nested dialect depth).Agrees source (Scan.nested dialect budget) count
  := by
  induction count generalizing depth budget with
  | zero => exact ⟨nofun, nofun, nofun, nofun, nofun⟩
  | succ count ih =>
    obtain ⟨depth, rfl⟩ := Nat.exists_eq_succ_of_ne_zero (Nat.ne_zero_of_lt hdepth)
    obtain ⟨budget, rfl⟩ := Nat.exists_eq_succ_of_ne_zero (Nat.ne_zero_of_lt hbudget)
    have hinner : Context.Agrees source ⟨dialect, unbounded.nested dialect depth⟩
        ⟨dialect, budget + 1, Scan.nested dialect budget⟩ count :=
      ⟨rfl, hbudget, ih (Nat.le_of_succ_le_succ hdepth) (Nat.le_of_succ_le_succ hbudget)⟩
    have hmine {s : Scan.State} (h : s.rest.length < count + 1) :=
      hinner.mono (Nat.le_of_lt_succ h)
    exact {
      code := fun h _ hstops => agrees_code (hmine h) hstops
      element := fun h hhead => agrees_element (hmine h) hhead
      region := fun h _ hstops => mirrors_region (hmine h) hstops
      expression := fun h => mirrors_expression (hmine h)
      operand := fun h => mirrors_operand (hmine h) }

/-! ### Code -/

theorem mirrors_script (h : mine.Agrees source theirs s.rest.length) :
  Mirrors source s (script mine) (Scan.script theirs)
  := by
  have hcode {t : Scan.State} (hfollows : Follows s t) :
      Agrees source t (discard (code mine [])) (discard (Scan.code theirs [])) fun a b u =>
        a = b ∧ Follows s u := by
    rw [← bind_pure (discard (code mine [])), ← bind_pure (discard (Scan.code theirs [])),
      discard_bind, discard_bind]
    apply (agrees_code (h.follow hfollows) (by simp [AreStops])).bind
    rintro _ _ u - ⟨-, hu, -⟩
    exact .pure ⟨rfl, hfollows.trans hu⟩
  rw [script, Scan.script, Scan.interpreterLine, Mirrors,
    agrees_startsWith (forall_isAscii (by decide)), bind_assoc, agrees_scan_rest]
  split
  · exact mirrors_eatLine.bind fun _ t _ hfollows => hcode hfollows
  · rw [pure_bind]
    exact hcode (.refl s)

/-! ### Fenced code -/

theorem mirrors_frontmatter (source : List Char) (s : Scan.State) :
  Mirrors source s frontmatter Scan.frontmatter
  := by
  apply Agrees.of_at
  intro hat
  rw [frontmatter, Scan.frontmatter, agrees_position, agrees_scan_get]
  apply mirrors_eatSpacing.bind
  intro _ t ht hfollows
  rw [agrees_scan_rest]
  apply (agrees_eatText (forall_isAscii (by decide))).tests
  · intro _
    rw [if_pos rfl]
    apply (mirrors_skipPast (forall_isAscii (by decide)) (by simp)).bind
    intro found u _ hu
    have hsu := (hfollows.trans (.after t 3)).trans hu
    split
    · exact mirrors_eatLine.follow hsu
    · exact .pure ⟨rfl, hsu⟩
  · intro _
    obtain rfl := Scan.runs_skipSpacing.mp ht
    rw [if_neg Bool.false_ne_true, ← bind_pure (moveTo s.pos), ← bind_pure (set s)]
    exact Agrees.moveBack hat rfl rfl (.pure ⟨rfl, .refl s⟩)

/-! ### Content that is not markup -/

/-- What the scan passes of content that is not markup: what is in front of the next closing tag, if
it has the right name, and otherwise the start of that tag as well. -/
def rawTextItem (name : List Char) : Scan (Round Unit Unit) := do
  let ahead ← Scan.rest
  match Scan.offsetOf ['<', '/'] ahead with
  | some before =>
    if Scan.startsWithFolded name (ahead.drop (before + 2)) then
      Scan.skip before
      return .done ()
    else
      Scan.skip (before + 2)
      return .again ()
  | none =>
    Scan.skip ahead.length
    return .done ()

/-- No letter becomes one of the characters of a closing tag when it is put in small letters. -/
theorem toLower_eq_iff {c d : Char} (hd : d = '<' ∨ d = '/') :
  c.toLower = d ↔ c = d
  := by
  by_cases hc : IsAscii c
  · have hall : ∀ n < 128, ((Char.ofNat n).toLower == '<') = (Char.ofNat n == '<') ∧
        ((Char.ofNat n).toLower == '/') = (Char.ofNat n == '/') := by decide +kernel
    have hchar := hall c.toNat hc
    rw [Char.ofNat_toNat] at hchar
    rw [← beq_iff_eq, ← beq_iff_eq (a := c)]
    obtain rfl | rfl := hd
    · rw [hchar.1]
    · rw [hchar.2]
  · rw [toLower_of_not_isAscii hc]

theorem startsWithFolded_closing (name text : List Char) :
  Scan.startsWithFolded ('<' :: '/' :: name) text = true ↔
    ['<', '/'] <+: text ∧ Scan.startsWithFolded name (text.drop 2) = true
  := by
  have hopen : '<'.toLower = '<' := by decide
  have hslash : '/'.toLower = '/' := by decide
  simp only [Scan.startsWithFolded, List.isPrefixOf_iff_prefix]
  match text with
  | [] => simp
  | [c] => simp
  | c :: d :: text =>
    simp only [List.map_cons, hopen, hslash, List.cons_prefix_cons, List.nil_prefix, and_true,
      List.drop_succ_cons, List.drop_zero, and_assoc, eq_comm (a := '<'), eq_comm (a := '/'),
      toLower_eq_iff (.inl rfl), toLower_eq_iff (.inr rfl)]

/-- The closing tag is looked for where closing tags are. -/
theorem rawText_eq_of_offsetOf (name text : List Char) :
  Scan.rawText name text =
    match Scan.offsetOf ['<', '/'] text with
    | some before =>
      if Scan.startsWithFolded name (text.drop (before + 2)) then before
      else before + 2 + Scan.rawText name (text.drop (before + 2))
    | none => text.length
  := by
  induction text with
  | nil => rfl
  | cons c text ih =>
    rw [Scan.rawText]
    by_cases hopen : ['<', '/'] <+: c :: text
    · rw [Scan.offsetOf_eq_zero hopen]
      simp only [startsWithFolded_closing, hopen, true_and, Nat.zero_add]
      split
      · rfl
      · obtain ⟨later, hlater⟩ := hopen
        obtain ⟨rfl, rfl⟩ := List.cons.inj hlater
        have hno : ¬ Scan.startsWithFolded ('<' :: '/' :: name) ('/' :: later) = true := by
          rw [startsWithFolded_closing]
          simp
        change Scan.rawText name ('/' :: later) + 1 = 2 + Scan.rawText name later
        rw [Scan.rawText, if_neg hno]
        omega
    · rw [if_neg (by simp [startsWithFolded_closing, hopen]), Scan.offsetOf_cons hopen, ih]
      cases Scan.offsetOf ['<', '/'] text with
      | none => rfl
      | some before =>
        simp only [Option.map_some, Nat.add_right_comm before 1 2, List.drop_succ_cons]
        split
        · rfl
        · apply Nat.add_right_comm

theorem rawText_bind (name : List Char) (s : Scan.State) :
  (Scan.rest >>= fun ahead => Scan.skip (Scan.rawText name ahead)) s =
    (rawTextItem name >>= Round.goOn fun _ =>
      Scan.rest >>= fun ahead => Scan.skip (Scan.rawText name ahead)) s
  := by
  rw [rawTextItem, bind_assoc, Scan.bind_apply, Scan.bind_apply, Scan.rest_apply]
  simp only [rawText_eq_of_offsetOf name s.rest]
  cases Scan.offsetOf ['<', '/'] s.rest with
  | none => rfl
  | some before =>
    dsimp only
    split
    · rfl
    · rw [bind_assoc, Scan.bind_apply, Scan.skip_apply, ← Scan.State.after_after]
      rfl

theorem Mirrors.apply {α : Type} {x : Reading α} {y : Scan α} {a : α} (h : Mirrors source s x y)
    (hat : s.At source) (hy : Runs y s a t) :
  x source (.of s) = .ok (a, .of t)
  := by
  obtain ⟨_, b, u, hx, hy', -, rfl, -⟩ | ⟨_, -, herror⟩ := h hat
  · rw [Runs, hy, Except.ok.injEq, Prod.mk.injEq] at hy'
    rw [hx, hy'.1, hy'.2]
  · rw [Runs, herror] at hy
    cases hy

/-- A round over content that is not markup passes what the scan does. -/
theorem agrees_rawTextRound {name : List Char} (hname : ∀ d ∈ name, IsAscii d) :
  Agrees source s (rawTextRound name) (rawTextItem name) fun r r' t => r = r' ∧ Moves s t r
  := by
  have hpast : Mirrors source s (skipPast ['<', '/']) (Scan.skipPast ['<', '/']) :=
    mirrors_skipPast (forall_isAscii (by decide)) (by simp)
  apply Agrees.of_at
  intro hat
  rw [rawTextRound, rawTextItem, agrees_scan_rest]
  cases hfound : Scan.offsetOf ['<', '/'] s.rest with
  | none =>
    have hruns : Runs (Scan.skipPast ['<', '/']) s false (s.after s.rest.length) :=
      Scan.runs_skipPast.mpr (.inr ⟨hfound, rfl, rfl⟩)
    have hscan : (Scan.skip s.rest.length >>= fun _ => pure (.done ()) : Scan (Round Unit Unit)) s =
        (pure (.done ()) : Scan (Round Unit Unit)) (s.after s.rest.length) := rfl
    apply Agrees.move (fun hat => hpast.apply hat hruns) (fun hat => hat.after _) hscan
    exact .pure ⟨rfl, .after s _⟩
  | some before =>
    have hruns : Runs (Scan.skipPast ['<', '/']) s true (s.after (before + 2)) :=
      Scan.runs_skipPast.mpr (.inl ⟨before, hfound, rfl, rfl⟩)
    obtain ⟨body, later, hrest, hbody, -⟩ := Scan.exists_append_of_offsetOf hfound
    have hahead : Scan.startsWithFolded name (s.after (before + 2)).rest =
        Scan.startsWithFolded name (s.rest.drop (before + 2)) := rfl
    dsimp only
    split
    · next hstarts =>
      have hscan : (Scan.skip before >>= fun _ => pure (.done ()) : Scan (Round Unit Unit)) s =
          (set (s.after before) >>= fun _ => pure (.done ()) : Scan (Round Unit Unit))
            (s.after (before + 2)) := rfl
      have hpos : (s.after (before + 2)).pos - 2 = (s.after before).pos := by
        have hclosing : (s.after before).rest = ['<', '/'] ++ later := by
          rw [Scan.State.after_rest, hrest, ← hbody, List.append_assoc, List.drop_left]
        have hafter := after_length_pos hclosing
        rw [Scan.State.after_after] at hafter
        exact Nat.sub_eq_of_eq_add hafter
      apply Agrees.move (fun hat => hpast.apply hat hruns) (fun hat => hat.after _) hscan
      rw [if_pos rfl, agrees_startsWithFolded hname, hahead, if_pos hstarts, agrees_position, hpos]
      exact Agrees.moveBack (hat.after _) rfl rfl (.pure ⟨rfl, .after s _⟩)
    · next hstarts =>
      have hscan :
          (Scan.skip (before + 2) >>= fun _ => pure (.again ()) : Scan (Round Unit Unit)) s =
            (pure (.again ()) : Scan (Round Unit Unit)) (s.after (before + 2)) := rfl
      apply Agrees.move (fun hat => hpast.apply hat hruns) (fun hat => hat.after _) hscan
      rw [if_pos rfl, agrees_startsWithFolded hname, hahead, if_neg hstarts]
      have hne : s.rest ≠ [] := by simp [hrest]
      exact .pure ⟨rfl, .after s _, Scan.length_after_lt hne (by omega)⟩

/-- Content that is not markup is passed as a whole. -/
theorem mirrors_rawTextRounds {name : List Char} (hname : ∀ d ∈ name, IsAscii d)
    (s : Scan.State) :
  Mirrors source s (rounds (fun _ => rawTextRound name) ())
    (Scan.rest >>= fun ahead => Scan.skip (Scan.rawText name ahead))
  := by
  rw [Mirrors, Agrees.congr_right (rawText_bind name s)]
  apply Mirrors.loop (agrees_rawTextRound hname)
  exact fun _ t _ hlt => mirrors_rawTextRounds hname t
  termination_by s.rest.length

/-! ### Documents -/

theorem advances_documentElement (h : mine.Agrees source theirs s.rest.length)
    (hhead : s.rest.head? = some '<') :
  Advances source s (documentElement mine) (Scan.documentElement theirs)
  := by
  apply Agrees.of_at
  intro hat
  rw [documentElement, agrees_position, Scan.documentElement, agrees_scan_position]
  apply Agrees.skip (by decide) hhead
  rw [agrees_position]
  apply Agrees.eatWhile reflects_isTagNameByte
  rw [agrees_sliceFrom (hat.after 1) (Scan.rest_eq_takeWhile_append _ _)]
  have hafter := Follows.after (s.after 1) ((s.after 1).rest.takeWhile Scan.isTagNameChar).length
  apply (mirrors_tag (h.follow ((Follows.after s 1).trans hafter))).bind
  intro selfClosing t _ hfollows
  have ht := hafter.trans hfollows
  split
  · exact .pure ⟨rfl, ht⟩
  · cases hraw : Scan.rawTextElements.find?
      (· = ((s.after 1).rest.takeWhile Scan.isTagNameChar).map Char.toLower) with
    | none => exact .pure ⟨rfl, ht⟩
    | some raw =>
      have hascii : ∀ name ∈ Scan.rawTextElements, ∀ d ∈ name, IsAscii d := by
        intro name hname
        simp only [Scan.rawTextElements, List.mem_cons, List.not_mem_nil, or_false] at hname
        obtain rfl | rfl := hname <;> exact forall_isAscii (by decide)
      exact (mirrors_rawTextRounds (hascii raw (List.mem_of_find?_eq_some hraw)) t).follow ht

theorem advances_advance {c : Char} (hascii : IsAscii c) (hhead : s.rest.head? = some c) :
  Advances source s advance (Scan.skip 1)
  := by
  apply (mirrors_advance hascii hhead).mono
  rintro _ _ t ht - ⟨rfl, -⟩
  obtain rfl := Scan.runs_skip.mp ht
  exact ⟨rfl, .refl _⟩

/-- Two characters are passed, and all up to the end of a text behind them. -/
theorem advances_twoPast {text closing : List Char} (hascii : ∀ d ∈ text, IsAscii d)
    (hahead : text <+: s.rest) (hlength : text.length = 2) (hascii' : ∀ d ∈ closing, IsAscii d)
    (hne : closing ≠ []) :
  Advances source s (advanceBy 2 >>= fun _ => discard (skipPast closing))
    (Scan.skip 2 >>= fun _ => discard (Scan.skipPast closing))
  := by
  rw [← hlength]
  apply Agrees.skipBy text hascii hahead
  rw [← bind_pure (discard (skipPast closing)), ← bind_pure (discard (Scan.skipPast closing)),
    discard_bind, discard_bind]
  apply (mirrors_skipPast hascii' hne).bind
  intro _ t _ hfollows
  exact .pure ⟨rfl, (Follows.after_le s (by omega)).trans hfollows⟩

/-- Passes over what starts with `<` in a document and is no comment, given the character behind
the `<`. -/
def documentMark (theirs : Scan.Context) (next : Option Char) : Scan Unit := do
  if next = some '/' ∨ next = some '!' ∨ next = some '?' then
    Scan.skip 2
    discard (Scan.skipPast ['>'])
  else if next.any Char.isAlpha then Scan.documentElement theirs
  else Scan.skip 1

theorem documentTag_apply (hhead : s.rest.head? = some '<') :
  Scan.documentTag theirs s =
    (if ['<', '!', '-', '-'].isPrefixOf s.rest then
      Scan.skip 4 >>= fun _ => do
        if ← Scan.skipPast ['-', '-', '>'] then return () else Scan.fail .openComment s.pos
    else documentMark theirs (s.rest.drop 1).head? : Scan Unit) s
  := by
  obtain ⟨later, hrest⟩ := List.head?_eq_some_iff.mp hhead
  rw [Scan.documentTag, Scan.bind_apply, Scan.rest_apply]
  by_cases hcomment : ['<', '!', '-', '-'] <+: s.rest
  · rw [if_pos (List.isPrefixOf_iff_prefix.mpr hcomment)]
    obtain ⟨inside, hinside⟩ := hcomment
    rw [← hinside]
    rfl
  · rw [if_neg (mt List.isPrefixOf_iff_prefix.mp hcomment), hrest]
    rw [hrest] at hcomment
    refine congrFun ?_ s
    split
    · next heq => exact (hcomment ⟨_, heq.symm⟩).elim
    · next heq =>
      cases heq
      simp [documentMark, or_assoc]
    · next hno =>
      cases later with
      | nil => rfl
      | cons c later => exact (hno _ _ _ rfl).elim

/-- What starts with `<` is passed, if only the `<` itself. -/
theorem advances_documentTag (h : mine.Agrees source theirs s.rest.length)
    (hhead : s.rest.head? = some '<') :
  Advances source s (documentTag mine) (Scan.documentTag theirs)
  := by
  have hnext {c : Char} (hc : IsSign c) :
      (encode s.rest)[1]?.getD 0 = byte c ↔ (s.rest.drop 1).head? = some c :=
    next_eq_byte_iff (by decide) hhead hc
  rw [Advances, Agrees.congr_right (documentTag_apply hhead), documentTag, agrees_position]
  apply (agrees_eatText (forall_isAscii (by decide))).tests
  · intro _
    rw [if_pos rfl]
    apply (mirrors_skipPast (forall_isAscii (by decide)) (by simp)).bind
    intro found t _ hfollows
    split
    · exact .pure ⟨rfl, (Follows.after_le s (by decide)).trans hfollows⟩
    · exact .fail
  · intro _
    rw [if_neg Bool.false_ne_true, peek, agrees_byteAhead, documentMark]
    apply Agrees.ite
    · simp (disch := decide) only [Bool.or_eq_true, decide_eq_true_eq, hnext, or_assoc]
    · intro hmark
      have htwo {c : Char} (hc : (s.rest.drop 1).head? = some c) := prefix_of_head? hhead hc
      obtain hc | hc | hc := hmark
      all_goals
        exact advances_twoPast (forall_isAscii (by decide)) (htwo hc) rfl
          (forall_isAscii (by decide)) (by simp)
    intro _
    apply Agrees.ite
    · obtain ⟨later, hrest⟩ := List.head?_eq_some_iff.mp hhead
      rw [hrest, encode_cons_getElem? (by decide)]
      exact Bool.eq_iff_iff.mp (reflects_isAlpha.lead (by decide) later)
    · exact fun _ => advances_documentElement h hhead
    · exact fun _ => advances_advance (by decide) hhead

/-- What starts with a brace is passed, if only the brace itself. -/
theorem advances_documentBraces (h : mine.Agrees source theirs s.rest.length)
    (hhead : s.rest.head? = some '\x7b') :
  Advances source s (documentBraces mine) (Scan.documentBraces theirs)
  := by
  rw [documentBraces, Scan.documentBraces, h.dialect]
  split
  · exact advances_skipBraced h hhead
  · rw [Advances, peek, agrees_byteAhead, agrees_scan_rest]
    apply Agrees.ite
    · rw [Bool.and_eq_true, Bool.and_eq_true, decide_eq_true_eq, decide_eq_true_eq,
        next_eq_byte_iff (by decide) hhead (by decide), decide_eq_true_eq]
    · intro htwo
      rw [Bool.and_eq_true, decide_eq_true_eq, decide_eq_true_eq] at htwo
      exact advances_twoPast (forall_isAscii (by decide)) (prefix_of_head? hhead htwo.2) rfl
        (forall_isAscii (by decide)) (by simp)
    · exact fun _ => advances_advance (by decide) hhead

/-- What the scan of a document passes at once: text, and a tag or braces behind it. -/
def documentItem (theirs : Scan.Context) : Scan (Round Unit Unit) := do
  discard (Scan.takeWhile Scan.isTextChar)
  match ← Scan.rest with
  | [] => return .done ()
  | c :: _ =>
    if c = '<' then Scan.documentTag theirs else Scan.documentBraces theirs
    return .again ()

theorem document_succ (budget : Nat) :
  Scan.document theirs (budget + 1) =
    documentItem theirs >>= Round.goOn fun _ => Scan.document theirs budget
  := by
  rw [Scan.document, documentItem, bind_assoc]
  refine bind_congr fun _ => ?_
  rw [bind_assoc]
  refine bind_congr fun ahead => ?_
  cases ahead with
  | nil => rfl
  | cons c later =>
    dsimp only
    split
    · simp only [bind_assoc, pure_bind, Round.goOn]
    · simp only [bind_assoc, pure_bind, Round.goOn]

/-- A round over a document passes what the scan does. -/
theorem agrees_documentRound (h : mine.Agrees source theirs s.rest.length) :
  Agrees source s (documentRound mine) (documentItem theirs) fun r r' t => r = r' ∧ Moves s t r
  := by
  rw [documentRound, documentItem]
  apply Agrees.seekText
  intro t hfollows hstop
  have hmine := h.follow hfollows
  have hmoves {u : Scan.State} (hne : t.rest ≠ []) (hu : Follows (t.after 1) u) :
      Moves s u (.again () : Round Unit Unit) :=
    ⟨(hfollows.trans (.after t 1)).trans hu,
      Nat.lt_of_lt_of_le (hu.length_lt_of_after hne) hfollows.length_le⟩
  rw [agrees_scan_rest]
  simp (disch := decide) only [lead_eq_byte_iff]
  cases hrest : t.rest with
  | nil => exact .pure ⟨rfl, hfollows⟩
  | cons c later =>
    have hne : t.rest ≠ [] := by simp [hrest]
    rw [hrest] at hstop
    obtain rfl | rfl := hstop c rfl
    · dsimp only
      rw [List.head?_cons, if_pos rfl, if_pos rfl]
      apply (advances_documentTag hmine (by rw [hrest]; rfl)).bind
      rintro _ _ u - ⟨rfl, hu⟩
      exact .pure ⟨rfl, hmoves hne hu⟩
    · dsimp only
      rw [List.head?_cons, if_neg (by simp), if_pos rfl, if_neg (by simp)]
      apply (advances_documentBraces hmine (by rw [hrest]; rfl)).bind
      rintro _ _ u - ⟨rfl, hu⟩
      exact .pure ⟨rfl, hmoves hne hu⟩

/-- A document is passed as a whole. -/
theorem mirrors_documentRounds (s : Scan.State) (h : mine.Agrees source theirs s.rest.length)
    {budget : Nat} (hbudget : s.rest.length < budget) :
  Mirrors source s (rounds (fun _ => documentRound mine) ()) (Scan.document theirs budget)
  := by
  obtain ⟨more, rfl⟩ := Nat.exists_eq_succ_of_ne_zero (Nat.ne_zero_of_lt hbudget)
  rw [Nat.succ_eq_add_one, document_succ]
  apply Mirrors.loop (agrees_documentRound h)
  intro _ t hfollows hlt
  have hbudget' : t.rest.length < more := by omega
  exact mirrors_documentRounds t (h.follow hfollows) hbudget'
  termination_by s.rest.length

/-! ### Sources -/

/-- A source is passed as a whole. -/
theorem mirrors_source (h : mine.Agrees source theirs s.rest.length) :
  Mirrors source s (Cursor.source mine) (Scan.source theirs)
  := by
  rw [Cursor.source, Scan.source, document, h.dialect]
  by_cases hastro : mine.dialect = .astro
  · rw [if_pos hastro, if_pos hastro, hastro, if_pos (by rfl)]
    apply (mirrors_frontmatter source s).bind
    intro _ t _ hfollows
    have hmine := h.follow hfollows
    exact (mirrors_documentRounds t hmine hmine.budget).follow hfollows
  · rw [if_neg hastro, if_neg hastro]
    split
    · exact mirrors_documentRounds s h h.budget
    · exact mirrors_script h

/-- Read by its bytes, a source has the result that it has read by its characters, and it is
refused for the same reason. -/
theorem parse_agrees (dialect : Dialect) (text : String) :
  (∃ markup, parse dialect text = .ok markup ∧ Markup.parse dialect text = .ok markup) ∨
  (∃ error, parse dialect text = .error (.refused error) ∧
    Markup.parse dialect text = .error (.error error))
  := by
  have hat : (Scan.State.initial text.toList).At text.toList := ⟨[], rfl, rfl⟩
  have hcontext : Context.Agrees text.toList
      ⟨dialect, unbounded.nested dialect (byteSize text.toList)⟩
      (Scan.Context.ofLength dialect text.toList.length) text.toList.length :=
    ⟨rfl, Nat.lt_succ_self _, agrees_nested _ dialect (Text.length_le_byteSize _) (Nat.le_refl _)⟩
  have hsource : Mirrors text.toList (.initial text.toList)
      (Cursor.source ⟨dialect, unbounded.nested dialect (byteSize text.toList)⟩)
      (Scan.source (Scan.Context.ofLength dialect text.toList.length)) := mirrors_source hcontext
  have hparse : parse dialect text = (Cursor.source _ text.toList (.of (.initial text.toList))).bind
      fun found => .ok ⟨found.2.elements.toList.mergeSort fun a b =>
        a.span.start ≤ b.span.start, found.2.arena⟩ := rfl
  have hscan : Markup.parse dialect text = (Scan.source _ (.initial text.toList)).bind
      fun found => .ok ⟨found.2.elements.toList.mergeSort fun a b =>
        a.span.start ≤ b.span.start, found.2.arena⟩ := rfl
  rw [hparse, hscan]
  obtain ⟨_, _, t, hmine, htheirs, -⟩ | ⟨error, hmine, htheirs⟩ := hsource hat
  · rw [hmine, htheirs]
    exact .inl ⟨_, rfl, rfl⟩
  · rw [hmine, htheirs]
    exact .inr ⟨error, rfl, rfl⟩

/-! ### What cannot happen -/

/-- The cursor is misplaced exactly where no first part of the source ends. -/
theorem moveTo_eq_misplaced_iff (pos : Nat) (source : List Char) (state : State) :
  moveTo pos source state = .error .misplaced ↔
    ¬ ∃ before after, source = before ++ after ∧ byteSize before = pos
  := by
  have hcut : (Text.cutAt pos source).isSome = true ↔
      ∃ before after, source = before ++ after ∧ byteSize before = pos := by
    simp only [Option.isSome_iff_exists, Prod.exists, Text.cutAt_eq_some_iff]
  have hmove : moveTo pos source state =
      if (Text.cutAt pos source).isSome then .ok ((), { state with pos := pos })
      else .error .misplaced := by
    rw [moveTo, read_bind_apply]
    split <;> rfl
  rw [← hcut, hmove]
  split
  · next hsome => simp [hsome]
  · next hnone => simp [hnone]

/-- A text is not cut exactly if the two offsets are not those of a slice of the source. -/
theorem slice_eq_missliced_iff (start stop : Nat) (source : List Char) (state : State) :
  slice start stop source state = .error .missliced ↔
    ¬ ∃ inside, Text.Slice source ⟨start, stop⟩ inside
  := by
  have hslice : slice start stop source state =
      (textAt? source ⟨start, stop⟩).elim (.error .missliced) fun inside =>
        .ok (inside, state) := by
    rw [slice, read_bind_apply, textAt?]
    cases Text.cutAt stop source with
    | none => rfl
    | some cut =>
      simp only [Option.bind_eq_bind, Option.bind_some]
      cases Text.cutAt start cut.1 <;> rfl
  rw [hslice, not_exists, ← textAt?_eq_none_iff]
  cases textAt? source ⟨start, stop⟩ <;> simp

/-- Wherever the cursor is put, it is at a character or at the end, and whatever is cut is made of
whole characters. -/
theorem parse_keeps_to_characters (dialect : Dialect) (text : String) :
  parse dialect text ≠ .error .misplaced ∧ parse dialect text ≠ .error .missliced
  := by
  obtain ⟨markup, hparse, -⟩ | ⟨error, hparse, -⟩ := parse_agrees dialect text
  all_goals
    rw [hparse]
    exact ⟨nofun, nofun⟩

/-- A source has a result or it is refused: every loop comes to its end, whatever the source, and no
construct is nested deeper than the budget allows. -/
theorem parse_terminates (dialect : Dialect) (text : String) :
  ((∃ markup, parse dialect text = .ok markup) ∨
    ∃ error, parse dialect text = .error (.refused error)) ∧
  Markup.parse dialect text ≠ .error .exhausted
  := by
  obtain ⟨markup, hparse, hscan⟩ | ⟨error, hparse, hscan⟩ := parse_agrees dialect text
  · rw [hscan]
    exact ⟨.inl ⟨markup, hparse⟩, nofun⟩
  · rw [hscan]
    exact ⟨.inr ⟨error, hparse⟩, nofun⟩

end UtilityClasses.Cursor
