import UtilityClasses.Cursor.Code
import UtilityClasses.Proofs.Cursor.Element
import UtilityClasses.Scan.Code

/-!
# Code, byte by byte

Code is passed as it is scanned. The text of a template is passed in rounds where the scan passes
it in one step.
-/

namespace UtilityClasses.Cursor

open Scan (Runs Place templateText discard_bind)

variable {source : List Char} {s t u : Scan.State} {mine : Context} {theirs : Scan.Context}

/-! ### The text of a template -/

/-- The second place lies within the text of a template that starts at the first one. -/
def WithinText (s t : Scan.State) : Prop :=
  ∃ count, t = s.after count ∧
    templateText s.rest = (s.rest.take count).length + templateText t.rest

namespace WithinText

theorem refl (s : Scan.State) :
  WithinText s s
  := ⟨0, s.after_zero.symm, (Nat.zero_add _).symm⟩

theorem after {count : Nat} (h : WithinText s t)
    (htext : templateText t.rest = (t.rest.take count).length + templateText (t.after count).rest) :
  WithinText s (t.after count)
  := by
  obtain ⟨passed, rfl, hpassed⟩ := h
  refine ⟨passed + count, Scan.State.after_after .., ?_⟩
  rw [hpassed, htext, List.take_add, List.length_append, Scan.State.after_rest, Nat.add_assoc]

/-- The text has been passed. -/
theorem eq_after (h : WithinText s t) (hend : templateText t.rest = 0) :
  t = s.after (templateText s.rest)
  := by
  obtain ⟨count, rfl, hcount⟩ := h
  rw [hcount, hend, Nat.add_zero, s.after_length_take]

end WithinText

section Part

variable {σ α β : Type} {again : σ} {start : Nat} {closing hole : Reading (Round σ α)}
  {plain later : List Char} (hrest : t.rest = plain ++ later)
  (hplain : ∀ c ∈ plain, c ∉ ['\x60', '\\', '$'])
  (hlater : ∀ c ∈ later.head?, c ∈ ['\x60', '\\', '$'])
include hrest hplain hlater

/-- A round over a template that comes to the end of the text. -/
theorem Agrees.templateEnd {item : Scan β} {P : Round σ α → β → Scan.State → Prop}
    (hend : templateText later = 0) (hu : t.after plain.length = u)
    (hclosing : u.rest.head? = some '\x60' → Agrees source u closing item P)
    (hhole : ['$', '\x7b'] <+: u.rest → Agrees source u hole item P)
    (hopen : u.rest = [] → item u = .error (.error ⟨.openTemplate, ⟨start, u.pos⟩⟩)) :
  Agrees source t (templatePart again start closing hole) (set u >>= fun _ => item) P
  := by
  have hlater' : u.rest = later := by rw [← hu, Scan.State.after_length_rest hrest]
  have hsplit := Scan.drop_templateText later
  rw [hend, List.drop_zero] at hsplit
  rw [templatePart]
  apply Agrees.seek (w := item) (forall_isAscii (by decide)) hrest hplain hlater
  · rw [hu]
    rfl
  · rw [hu]
    obtain rfl | hquote | ⟨more, rfl⟩ := hsplit
    · have hzero : ¬ (0 : UInt8) = byte '$' := by decide
      rw [lead_nil, if_neg (by decide), if_neg (by decide), peek, agrees_byteAhead,
        if_neg (by simp [hzero]), if_neg hzero]
      exact .refused (fun _ => rfl) (hopen hlater')
    · rw [if_pos ((lead_eq_byte_iff (by decide)).mpr hquote)]
      exact hclosing (by rw [hlater', hquote])
    · rw [lead_cons_of_isAscii (by decide), if_neg (by decide), if_neg (by decide),
        agrees_peek (by decide) hlater', lead_cons_of_isAscii (by decide), if_pos (by decide)]
      exact hhole ⟨more, hlater'.symm⟩

/-- A round over a template that stays in the text. -/
theorem exists_textStep (source : List Char) (start : Nat) (closing hole : Reading (Round σ α))
    (hend : templateText later ≠ 0) :
  ∃ count, 0 < count ∧
    templateText later = (later.take count).length + templateText (later.drop count) ∧
    Agrees source t (templatePart again start closing hole) (Scan.skip (plain.length + count))
      fun r _ _ => r = .again again
  := by
  have hafter := Scan.State.after_length_rest hrest
  have hseek {w : Scan Unit} {count : Nat} {f : UInt8 → Reading (Round σ α)}
      (hskip : Scan.skip count (t.after plain.length) = w (t.after plain.length))
      (hnext : Agrees source (t.after plain.length) (f (lead later)) w fun r _ _ =>
        r = .again again) :
      Agrees source t (seek (['\x60', '\\', '$'].map byte) >>= f)
        (Scan.skip (plain.length + count)) fun r _ _ => r = .again again := by
    apply Agrees.seek (forall_isAscii (by decide)) hrest hplain hlater _ hnext
    rw [← hskip, Scan.skip_apply, Scan.skip_apply, Scan.State.after_after]
  cases later with
  | nil => exact (hend rfl).elim
  | cons c later =>
    have hc := hlater c rfl
    simp only [List.mem_cons, List.not_mem_nil, or_false] at hc
    have hhead : (t.after plain.length).rest.head? = some c := by rw [hafter, List.head?_cons]
    obtain rfl | rfl | rfl := hc
    · exact (hend (by simp [templateText])).elim
    · refine ⟨2, Nat.two_pos, Scan.templateText_backslash later, ?_⟩
      rw [templatePart]
      refine hseek (w := Scan.skip 2) rfl ?_
      rw [lead_cons_of_isAscii (by decide), if_neg (by decide), if_pos (by decide)]
      apply Agrees.advance (w := Scan.skip 1) (by decide) hhead
      · simp only [Scan.skip_apply, Scan.State.after_after]
      · exact mirrors_advanceChar.bind_left fun _ _ _ _ _ => .pure rfl
    · have hdollar : later.head? ≠ some '\x7b' := by
        intro hbrace
        obtain ⟨more, rfl⟩ := List.head?_eq_some_iff.mp hbrace
        exact hend rfl
      refine ⟨1, Nat.one_pos, Scan.templateText_dollar hdollar, ?_⟩
      rw [templatePart]
      refine hseek (w := Scan.skip 1) rfl ?_
      rw [lead_cons_of_isAscii (by decide), if_neg (by decide), if_neg (by decide),
        agrees_peek (by decide) hafter]
      simp (disch := decide) only [lead_eq_byte_iff, hdollar, decide_true, decide_false,
        Bool.and_false, Bool.false_eq_true, if_false, if_true]
      exact (mirrors_advance (by decide) hhead).bind_left fun _ _ _ _ _ => .pure rfl

end Part

/-- A template is passed in rounds. The scan passes its text in one step to the place `u`, and then
it comes to the same end or hole. -/
theorem Agrees.templateRounds {σ α β δ : Type} {round : σ → Reading (Round σ α)} {state : σ}
    {start : Nat} {closing hole : Reading (Round σ α)} {item : Scan β} {g : β → Scan δ}
    {P : Round σ α → β → Scan.State → Prop} {Q : α → δ → Scan.State → Prop}
    (hround : round state = templatePart state start closing hole)
    (hu : u = s.after (templateText s.rest))
    (hclosing : u.rest.head? = some '\x60' → Agrees source u closing item P)
    (hhole : ['$', '\x7b'] <+: u.rest → Agrees source u hole item P)
    (hopen : u.rest = [] → item u = .error (.error ⟨.openTemplate, ⟨start, u.pos⟩⟩))
    (hdone : ∀ result b v, P (.done result) b v → Agrees source v (Pure.pure result) (g b) Q)
    (hagain : ∀ next b v, P (.again next) b v → Follows u v ∧ v.rest.length < u.rest.length ∧
      Agrees source v (Cursor.rounds round next) (g b) Q)
    (t : Scan.State) (hwithin : WithinText s t) :
  Agrees source t (Cursor.rounds round state) (set u >>= fun _ => item >>= g) Q
  := by
  obtain ⟨plain, later, hrest, hplain, hlater⟩ := exists_plain ['\x60', '\\', '$'] t.rest
  have hafter : (t.after plain.length).rest = later := Scan.State.after_length_rest hrest
  have hwithin' : WithinText s (t.after plain.length) := by
    apply hwithin.after
    rw [hafter, hrest, List.take_left, Scan.templateText_append]
    intro c hc
    have hc := hplain c hc
    simp only [List.mem_cons, List.not_mem_nil, or_false, not_or] at hc
    exact hc
  by_cases hend : templateText later = 0
  · have heq : t.after plain.length = u := by
      rw [hu]
      apply hwithin'.eq_after
      rw [hafter, hend]
    have hfollows : Follows t u := heq ▸ Follows.after t _
    rw [← bind_assoc]
    apply Agrees.rounds (P := P)
    · rw [hround]
      exact Agrees.templateEnd hrest hplain hlater hend heq hclosing hhole hopen
    · exact fun result b v _ hP => hdone result b v hP
    · intro next b v _ hP
      obtain ⟨hfollows', hlt, hnext⟩ := hagain next b v hP
      exact ⟨hfollows.trans hfollows', Nat.lt_of_lt_of_le hlt hfollows.length_le, hnext⟩
  · obtain ⟨count, hcount, htext, hstep⟩ :=
      exists_textStep hrest hplain hlater source start closing hole hend
    have hne : t.rest ≠ [] := by
      rintro hnil
      obtain ⟨-, rfl⟩ := List.append_eq_nil_iff.mp (hrest.symm.trans hnil)
      exact hend rfl
    have hcount' : 0 < plain.length + count := Nat.add_pos_right _ hcount
    have hwithin'' : WithinText s (t.after (plain.length + count)) := by
      rw [← Scan.State.after_after]
      apply hwithin'.after
      rw [hafter, htext, Scan.State.after_rest, hafter]
    rw [← hround] at hstep
    have hsame : (set u >>= fun _ => item >>= g) t =
        (set u >>= fun _ => item >>= g) (t.after (plain.length + count)) := rfl
    apply Agrees.again hne hcount' hstep hsame
    exact templateRounds hround hu hclosing hhole hopen hdone hagain _ hwithin''
  termination_by t.rest.length
  decreasing_by exact Scan.length_after_lt hne hcount'

/-- What the scan of a template does behind a text: it comes to the end, or passes over a hole. -/
def templateItem (theirs : Scan.Context) (start : Nat) : Scan (Round Unit Unit) := do
  let ahead ← Scan.rest
  if ahead.head? = some '\x60' then
    Scan.skip 1
    return .done ()
  else if ahead.isEmpty then Scan.fail .openTemplate start
  else
    Scan.skip 2
    if ← theirs.nested.code ['\x7d'] then
      Scan.skip 1
      return .again ()
    else
      Scan.fail .openTemplate start

theorem templateTail_succ (budget start : Nat) (s : Scan.State) :
  Scan.templateTail theirs start (budget + 1) s =
    (set (s.after (templateText s.rest)) >>= fun _ => templateItem theirs start >>=
      Round.goOn fun _ => Scan.templateTail theirs start budget) s
  := by
  have hend := Scan.drop_templateText s.rest
  rw [← Scan.State.after_rest] at hend
  change _ = (templateItem theirs start >>= _) (s.after (templateText s.rest))
  simp only [Scan.templateTail, Scan.bind_apply Scan.rest, Scan.rest_apply,
    Scan.bind_apply (Scan.skip (templateText s.rest)), Scan.skip_apply, templateItem, bind_assoc]
  generalize s.after (templateText s.rest) = u at hend
  obtain hnil | hquote | ⟨later, hhole⟩ := hend
  · rw [hnil]
    rfl
  · obtain ⟨later, hlater⟩ := List.head?_eq_some_iff.mp hquote
    rw [hlater]
    rfl
  · rw [hhole, List.head?_cons, if_neg (by decide), List.isEmpty_cons,
      if_neg Bool.false_ne_true]
    simp only [bind_assoc]
    refine congrFun (bind_congr fun _ => bind_congr fun found => ?_) u
    cases found with
    | true => rfl
    | false => rfl

/-- The rest of a template is passed as a whole. -/
theorem mirrors_templateRounds (s : Scan.State) (h : mine.Agrees source theirs s.rest.length)
    {budget : Nat} (hbudget : s.rest.length < budget) (start : Nat) :
  Mirrors source s (rounds (fun _ => templateRound mine start) ())
    (Scan.templateTail theirs start budget)
  := by
  obtain ⟨more, rfl⟩ := Nat.exists_eq_succ_of_ne_zero (Nat.ne_zero_of_lt hbudget)
  rw [Nat.succ_eq_add_one, Mirrors, Agrees.congr_right (templateTail_succ ..)]
  have hfollows := Follows.after s (templateText s.rest)
  apply Agrees.templateRounds
    (P := fun r r' v => r = r' ∧ Moves (s.after (templateText s.rest)) v r) (by rfl) rfl
    _ _ _ _ _ s (.refl s)
  · intro hquote
    rw [templateItem, agrees_scan_rest, if_pos hquote]
    apply (mirrors_advance (by decide) hquote).bind
    intro _ t _ hfollows'
    exact .pure ⟨rfl, hfollows'⟩
  · intro hhole
    have hhead : (s.after (templateText s.rest)).rest.head? = some '$' := by
      obtain ⟨later, hlater⟩ := hhole
      rw [← hlater]
      rfl
    have hne := ne_nil_of_head? hhead
    rw [templateItem, agrees_scan_rest, if_neg (by rw [hhead]; decide),
      if_neg (by rwa [List.isEmpty_iff])]
    apply Agrees.skipBy ['$', '\x7b'] (forall_isAscii (by decide)) hhole
    have hlt := Scan.length_after_lt hne Nat.two_pos
    apply Agrees.bind
      (h.nested.code (Nat.lt_of_lt_of_le hlt hfollows.length_le) (by simp [AreStops]))
    rintro found _ v - ⟨rfl, hfollows', hstop⟩
    have hlt' := Nat.lt_of_le_of_lt hfollows'.length_le hlt
    cases found with
    | true =>
      obtain ⟨c, hc, hclose⟩ := hstop rfl
      obtain rfl := List.mem_singleton.mp hc
      apply (mirrors_advance (by decide) hclose).bind
      intro _ w _ hfollows''
      refine .pure ⟨rfl, ((Follows.after _ 2).trans hfollows').trans hfollows'', ?_⟩
      exact Nat.lt_of_le_of_lt hfollows''.length_le hlt'
    | false => exact .fail
  · intro hnil
    rw [templateItem, Scan.bind_apply, Scan.rest_apply]
    simp only [hnil]
    rfl
  · rintro _ _ t ⟨rfl, hfollows'⟩
    exact .pure ⟨rfl, hfollows.trans hfollows'⟩
  · rintro _ _ t ⟨rfl, hfollows', hlt⟩
    have hlt' := Nat.lt_of_lt_of_le hlt hfollows.length_le
    have hbudget' : t.rest.length < more := by omega
    refine ⟨hfollows', hlt, ?_⟩
    exact (mirrors_templateRounds t (h.mono (Nat.le_of_lt hlt')) hbudget' start).follow
      (hfollows.trans hfollows')
  termination_by s.rest.length

/-- A template is passed as a whole. -/
theorem advances_skipTemplate (h : mine.Agrees source theirs s.rest.length)
    (hhead : s.rest.head? = some '\x60') :
  Advances source s (skipTemplate mine) (Scan.skipTemplate theirs)
  := by
  rw [Advances, skipTemplate, agrees_position, Scan.skipTemplate, agrees_scan_position]
  apply (mirrors_advance (by decide) hhead).bind
  rintro _ t ht hfollows
  obtain rfl := Scan.runs_skip.mp ht
  exact mirrors_templateRounds _ (h.follow hfollows) (h.follow hfollows).budget s.pos

/-! ### Lexemes -/

/-- A lexeme of one character. -/
theorem advances_single {c : Char} (hascii : IsAscii c) (hhead : s.rest.head? = some c)
    (place : Place) :
  Advances source s (do advance; return place) (do Scan.skip 1; return place)
  := by
  apply Agrees.skip hascii hhead
  exact .pure ⟨rfl, .refl _⟩

theorem advances_operator {c : Char} (hascii : IsAscii c) (hhead : s.rest.head? = some c)
    (place : Place) :
  Advances source s (operator place) (Scan.operator place)
  := advances_single hascii hhead _

theorem advances_slash (hhead : s.rest.head? = some '/') (place : Place) :
  Advances source s (slash place) (Scan.slash place)
  := by
  have hoperator : Advances source s (operator place) (Scan.operator place) :=
    advances_operator (by decide) hhead place
  rw [Advances, slash, Scan.slash]
  split
  · apply (mirrors_skipRegex hhead).bind
    intro found t ht _
    obtain ⟨count, rfl, hcount⟩ := Scan.runs_skipRegex ht
    cases found with
    | true => exact .pure ⟨rfl, .after_le s hcount⟩
    | false =>
      obtain rfl : count = 0 := hcount
      rw [s.after_zero]
      exact hoperator
  · exact hoperator

theorem advances_angle (h : mine.Agrees source theirs s.rest.length)
    (hhead : s.rest.head? = some '<') (place : Place) :
  Advances source s (angle mine place) (Scan.angle theirs place)
  := by
  have hoperator : Advances source s (operator place) (Scan.operator place) :=
    advances_operator (by decide) hhead place
  rw [Advances, angle, Scan.angle, h.dialect]
  split
  · apply Agrees.bind (agrees_element h hhead)
    rintro found _ t - ⟨rfl, hpost⟩
    cases found with
    | true => exact .pure ⟨rfl, hpost⟩
    | false =>
      obtain rfl : t = s := hpost
      exact hoperator
  · exact hoperator

/-- A lexeme of code is passed as a whole. -/
theorem advances_lexeme (h : mine.Agrees source theirs s.rest.length) {c : Char} {later : List Char}
    (hrest : s.rest = c :: later) (place : Place) :
  Advances source s (lexeme mine place (lead s.rest)) (Scan.lexeme theirs place c)
  := by
  apply Agrees.of_at
  intro hat
  have hhead : s.rest.head? = some c := by rw [hrest, List.head?_cons]
  have hstart : isNameStart (lead s.rest) = Scan.isNameStart c := by
    rw [hrest]
    exact reflects_isNameStart.lead_cons
  have hdigit : isDigit (lead s.rest) = c.isDigit := by
    rw [hrest]
    exact reflects_isDigit.lead_cons
  have hlength {kind : Char → Bool} (hkind : kind c = true) :
      0 < (s.rest.takeWhile kind).length := by
    rw [hrest, List.takeWhile_cons_of_pos hkind, List.length_cons]
    exact Nat.succ_pos _
  have hlead {d : Char} (hsign : IsSign d) : lead s.rest = byte d ↔ c = d := by
    rw [lead_eq_byte_iff hsign, hhead, Option.some.injEq]
  rw [lexeme, Scan.lexeme]
  apply Agrees.ite
  · simp (disch := decide) only [hlead]
  · intro hquote
    rw [Bool.or_eq_true, decide_eq_true_eq, decide_eq_true_eq] at hquote
    rw [discard_bind, discard_bind]
    apply (agrees_skipString hquote hhead).bind
    rintro _ literal t ht -
    obtain ⟨-, -, rfl⟩ := Scan.runs_stringLiteral ht hhead
    exact .pure ⟨rfl, .after_le s (Nat.le_add_left 1 _)⟩
  intro _
  apply Agrees.ite (hlead (by decide))
  · intro hquote
    apply (advances_skipTemplate h (by rw [hhead, hquote])).bind
    rintro _ _ t - ⟨-, hfollows⟩
    exact .pure ⟨rfl, hfollows⟩
  intro _
  apply Agrees.ite (hlead (by decide))
  · intro hslash
    exact advances_slash (by rw [hhead, hslash]) place
  intro _
  apply Agrees.ite (hlead (by decide))
  · intro hangle
    exact advances_angle h (by rw [hhead, hangle]) place
  intro _
  apply Agrees.ite (by simp (disch := decide) only [hlead])
  · intro hopen
    have hascii : IsAscii c := by
      simp only [Bool.or_eq_true, decide_eq_true_eq] at hopen
      obtain (rfl | rfl) | rfl := hopen <;> decide
    exact advances_single hascii hhead _
  intro _
  apply Agrees.ite (by simp (disch := decide) only [hlead])
  · intro hclose
    have hascii : IsAscii c := by
      simp only [Bool.or_eq_true, decide_eq_true_eq] at hclose
      obtain (rfl | rfl) | rfl := hclose <;> decide
    simp (disch := decide) only [hlead]
    exact advances_single hascii hhead _
  intro _
  apply Agrees.ite (by rw [hstart])
  · intro hname
    have hkind : Scan.isNameChar c = true := by simp [Scan.isNameChar, hname]
    rw [agrees_position]
    apply Agrees.eatName
    rw [agrees_sliceFrom hat (Scan.rest_eq_takeWhile_append _ s)]
    exact .pure ⟨rfl, .after_le s (hlength hkind)⟩
  intro hname
  apply Agrees.ite (by rw [hdigit])
  · intro hdigit
    have hkind : Scan.isNumberChar c = true := by
      simp [Scan.isNumberChar, Char.isAlphanum, hdigit]
    apply (mirrors_eatWhile reflects_isNumberByte).bind
    rintro _ t ht -
    obtain ⟨_, ht⟩ := Scan.runs_discard.mp ht
    obtain ⟨-, rfl⟩ := Scan.runs_takeWhile.mp ht
    exact .pure ⟨rfl, .after_le s (hlength hkind)⟩
  intro _
  have hascii : IsAscii c := by
    by_contra h
    exact hname (isNameStart_of_not_isAscii h)
  exact advances_operator hascii hhead place

/-! ### Code -/

/-- What the scan of code does behind blanks and comments: it ends, or it passes over a lexeme. -/
def codeItem (theirs : Scan.Context) (stops : List Char) (place : Place) :
    Scan (Round Place Bool) := do
  match ← Scan.rest with
  | [] => return .done false
  | c :: _ =>
    if place.depth = 0 && stops.contains c then return .done true
    else return .again (← Scan.lexeme theirs place c)

theorem codeFrom_succ (budget : Nat) (stops : List Char) (place : Place) :
  Scan.codeFrom theirs stops (budget + 1) place =
    (Scan.between true >>= fun _ => codeItem theirs stops place >>=
      Round.goOn (Scan.codeFrom theirs stops budget))
  := by
  rw [Scan.codeFrom, Scan.between, if_pos rfl]
  congr! 2 with _
  rw [codeItem, bind_assoc]
  congr! 2 with ahead
  cases ahead with
  | nil => rfl
  | cons c later =>
    dsimp only
    split
    · rfl
    · rw [bind_assoc]
      rfl

/-- Code that ends before the source does stands at a stop. -/
theorem exists_stop_of_runs_codeFrom {stops : List Char} {budget : Nat} {place : Place}
    (h : Runs (Scan.codeFrom theirs stops budget place) s true t) :
  ∃ c ∈ stops, t.rest.head? = some c
  := by
  induction budget generalizing s place with
  | zero => exact (Scan.not_runs_exhaust h).elim
  | succ budget ih =>
    simp only [Scan.codeFrom, Scan.runs_bind, Scan.runs_rest, and_assoc, exists_and_left,
      exists_eq_left] at h
    obtain ⟨_, u, -, h⟩ := h
    cases hrest : u.rest with
    | nil => simp [hrest] at h
    | cons c later =>
      simp only [hrest] at h
      split at h
      · next hstop =>
        obtain ⟨-, rfl⟩ := Scan.runs_pure.mp h
        rw [Bool.and_eq_true, List.contains_iff_mem] at hstop
        exact ⟨c, hstop.2, by rw [hrest, List.head?_cons]⟩
      · obtain ⟨_, _, -, h⟩ := Scan.runs_bind.mp h
        exact ih h

/-- Whether one of the stops lies ahead. -/
theorem any_lead_eq {stops : List Char} (hstops : AreStops stops) (text : List Char) :
  stops.any (lead text == byte ·) = text.head?.any stops.contains
  := by
  rw [Bool.eq_iff_iff, List.any_eq_true, Option.any_eq_true]
  constructor
  · rintro ⟨d, hd, hlead⟩
    rw [beq_iff_eq, lead_eq_byte_iff (hstops.isSign hd)] at hlead
    exact ⟨d, hlead, List.contains_iff_mem.mpr hd⟩
  · rintro ⟨d, hhead, hd⟩
    rw [List.contains_iff_mem] at hd
    refine ⟨d, hd, ?_⟩
    rwa [beq_iff_eq, lead_eq_byte_iff (hstops.isSign hd)]

/-- A round over code passes what the scan does. -/
theorem agrees_codeRound (h : mine.Agrees source theirs s.rest.length) {stops : List Char}
    (hstops : AreStops stops) (place : Place) :
  Agrees source s (codeRound mine stops place)
    (Scan.betweenStep true (codeItem theirs stops place))
    fun round item t => round = item.getD (.again place) ∧ Moves s t round
  := by
  rw [codeRound, Scan.betweenStep]
  apply mirrors_eatSpacing.bind
  intro _ t _ hfollows
  have hmine := h.follow hfollows
  have hnone (hno : t.rest.head? ≠ some '/') : Scan.commentStep t = .ok (false, t) :=
    Scan.commentStep_of_not fun hstarts => hno hstarts.1
  have hskip {x : Reading (Round Place Bool)}
      {P : Round Place Bool → Option (Round Place Bool) → Scan.State → Prop}
      (hno : t.rest.head? ≠ some '/')
      (hx : Agrees source t x (some <$> codeItem theirs stops place) P) :
      Agrees source t x (Scan.commentStep >>= fun more =>
        if more then pure none else some <$> codeItem theirs stops place) P := by
    refine (Agrees.congr_right ?_).mpr hx
    rw [Scan.bind_apply, hnone hno]
    rfl
  rw [agrees_atEnd, if_pos rfl]
  cases hrest : t.rest with
  | nil =>
    rw [List.isEmpty_nil, if_pos rfl]
    apply hskip (by simp [hrest])
    apply Agrees.map_right
    rw [codeItem, agrees_scan_rest, hrest]
    exact .pure ⟨rfl, hfollows⟩
  | cons c later =>
    rw [List.isEmpty_cons, if_neg Bool.false_ne_true, agrees_current, any_lead_eq hstops]
    have hstop : t.rest.head?.any stops.contains = stops.contains c := by rw [hrest]; rfl
    rw [hstop]
    have hitem : codeItem theirs stops place t =
        (if place.depth = 0 && stops.contains c then pure (.done true)
          else .again <$> Scan.lexeme theirs place c : Scan (Round Place Bool)) t := by
      rw [codeItem, Scan.bind_apply, Scan.rest_apply, hrest, map_eq_pure_bind]
    split
    · next hend =>
      have hno : t.rest.head? ≠ some '/' := by
        rw [hrest, List.head?_cons, Ne, Option.some.injEq]
        rintro rfl
        rw [Bool.and_eq_true, List.contains_iff_mem] at hend
        have hmem := hstops _ hend.2
        simp at hmem
      apply hskip hno
      apply Agrees.map_right
      rw [Agrees.congr_right hitem, if_pos hend]
      exact .pure ⟨rfl, hfollows⟩
    · next hend =>
      have hlexeme : Agrees source t (lexeme mine place (lead t.rest) >>= fun place' =>
          pure (.again place')) (some <$> codeItem theirs stops place)
          fun round item u => round = item.getD (.again place) ∧ Moves s u round := by
        apply Agrees.map_right
        rw [Agrees.congr_right hitem, if_neg hend, map_eq_pure_bind]
        apply (advances_lexeme hmine hrest place).bind
        rintro place' _ u - ⟨rfl, hfollows'⟩
        refine .pure ⟨rfl, (hfollows.trans (.after t 1)).trans hfollows', ?_⟩
        exact Nat.lt_of_lt_of_le (hfollows'.length_lt_of_after (by simp [hrest]))
          hfollows.length_le
      dsimp only
      split
      · apply (mirrors_skipComment t).bind
        intro found u hu hfollows'
        cases found with
        | true =>
          have hlt := Nat.lt_of_lt_of_le (Scan.commentStep_length_lt hu) hfollows.length_le
          exact .pure ⟨rfl, hfollows.trans hfollows', hlt⟩
        | false =>
          obtain rfl := Scan.eq_of_runs_commentStep hu
          exact hlexeme
      · next hslash =>
        rw [lead_eq_byte_iff (by decide)] at hslash
        rw [pure_bind, if_neg Bool.false_ne_true]
        exact hskip hslash hlexeme

/-- Code is passed as a whole. -/
theorem mirrors_codeRounds (s : Scan.State) (h : mine.Agrees source theirs s.rest.length)
    {stops : List Char} (hstops : AreStops stops) {budget : Nat} (hbudget : s.rest.length < budget)
    (place : Place) :
  Mirrors source s (rounds (codeRound mine stops) place)
    (Scan.codeFrom theirs stops budget place)
  := by
  obtain ⟨more, rfl⟩ := Nat.exists_eq_succ_of_ne_zero (Nat.ne_zero_of_lt hbudget)
  rw [Nat.succ_eq_add_one, codeFrom_succ, Mirrors, Agrees.congr_right (Scan.between_bind_apply ..),
    ← codeFrom_succ]
  apply (agrees_codeRound h hstops place).rounds
  · rintro result item t - ⟨hround, hfollows⟩
    cases item with
    | none => cases hround
    | some item =>
      obtain rfl : Round.done result = item := hround
      exact .pure ⟨rfl, hfollows⟩
  · rintro next item t - ⟨hround, hfollows, hlt⟩
    refine ⟨hfollows, hlt, ?_⟩
    cases item with
    | none =>
      cases hround
      exact (mirrors_codeRounds t (h.follow hfollows) hstops (Nat.lt_trans hlt hbudget) _).follow
        hfollows
    | some item =>
      obtain rfl : Round.again next = item := hround
      have hbudget' : t.rest.length < more := by omega
      exact (mirrors_codeRounds t (h.follow hfollows) hstops hbudget' next).follow hfollows
  termination_by s.rest.length

/-- Code is passed as a whole, and it ends in front of a stop if it ends before the source. -/
theorem agrees_code (h : mine.Agrees source theirs s.rest.length) {stops : List Char}
    (hstops : AreStops stops) :
  AgreesCode source s stops (code mine stops) (Scan.code theirs stops)
  := by
  apply (mirrors_codeRounds s h hstops h.budget ⟨0, .operator⟩).mono
  rintro found _ t hruns - ⟨rfl, hfollows⟩
  refine ⟨rfl, hfollows, ?_⟩
  rintro rfl
  exact exists_stop_of_runs_codeFrom hruns

end UtilityClasses.Cursor
