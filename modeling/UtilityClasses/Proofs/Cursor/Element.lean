import UtilityClasses.Cursor.Element
import UtilityClasses.Proofs.Cursor.Tag

/-!
# Elements, byte by byte

An element in code is read as it is scanned. Where a `<` opens no tag, the cursor and the scan
have gone back to it.
-/

namespace UtilityClasses.Cursor

open Scan (Runs OpenTag discard_bind)

variable {source : List Char} {s t : Scan.State} {mine : Context} {theirs : Scan.Context}
  {outer : OpenTag}

/-! ### Lists of type parameters -/

/-- Whether a text starts with the word `extends`, and this is not the name of an attribute with a
value. -/
def startsExtends (text : List Char) : Bool :=
  text.takeWhile Scan.isNameChar = ['e', 'x', 't', 'e', 'n', 'd', 's'] &&
    ((text.dropWhile Scan.isNameChar).dropWhile Scan.isSpacing).head? ≠ some '='

/-- The cursor ends somewhere behind where it was. -/
theorem agrees_eatExtends (source : List Char) (s : Scan.State) :
  ∃ count, Agrees source s eatExtends (Scan.skip count) fun found _ _ =>
    found = startsExtends s.rest
  := by
  by_cases hstart : ['e', 'x', 't', 'e', 'n', 'd', 's'].isPrefixOf s.rest = true
  · let t := s.after (s.rest.takeWhile Scan.isNameChar).length
    use (s.rest.takeWhile Scan.isNameChar).length + (t.rest.takeWhile Scan.isSpacing).length
    have hskip : Scan.skip ((s.rest.takeWhile Scan.isNameChar).length +
          (t.rest.takeWhile Scan.isSpacing).length) s =
        (Scan.takeWhile Scan.isNameChar >>= fun _ => Scan.skipSpacing) s := by
      rw [Scan.skip_apply, ← Scan.State.after_after]
      rfl
    apply Agrees.of_at
    intro hat
    rw [Agrees.congr_right hskip, eatExtends, agrees_startsWith (forall_isAscii (by decide)),
      if_pos hstart, agrees_position]
    apply Agrees.eatName
    rw [agrees_sliceFrom hat (Scan.rest_eq_takeWhile_append _ s)]
    apply mirrors_eatSpacing.bind_left
    rintro _ _ u hu -
    obtain rfl := Scan.runs_skipSpacing.mp hu
    rw [agrees_current]
    apply Agrees.pure
    simp (disch := decide) only [startsExtends, ne_eq, lead_eq_byte_iff, Scan.State.after_rest,
      Scan.drop_length_takeWhile]
  · use 0
    rw [eatExtends, agrees_startsWith (forall_isAscii (by decide)), if_neg hstart]
    apply Agrees.of_runs (b := ()) (Scan.runs_skip.mpr s.after_zero.symm)
    rw [startsExtends, decide_eq_false, Bool.false_and]
    intro hword
    apply hstart
    rw [List.isPrefixOf_iff_prefix, ← hword]
    exact List.takeWhile_prefix _

/-- The cursor looks ahead and goes back. -/
theorem agrees_opensTypeParameters :
  Agrees source s opensTypeParameters (pure (Scan.opensTypeParameters s.rest))
    fun found found' t => found = found' ∧ t = s
  := by
  apply Agrees.of_at
  intro hat
  let t := s.after (s.rest.takeWhile Scan.isSpacing).length
  have ht : t.rest = s.rest.dropWhile Scan.isSpacing := Scan.drop_length_takeWhile ..
  have hback (u : Scan.State) {verdict : Bool} (helements : u.elements = s.elements)
      (harena : u.arena = s.arena) (hverdict : verdict = Scan.opensTypeParameters s.rest) :
      Agrees source u (moveTo s.pos >>= fun _ => pure verdict)
        (set s >>= fun _ => pure (Scan.opensTypeParameters s.rest))
        fun found found' t => found = found' ∧ t = s :=
    Agrees.moveBack hat helements harena (.pure ⟨hverdict, rfl⟩)
  have hspacing : (pure (Scan.opensTypeParameters s.rest) : Scan Bool) s =
      (Scan.skipSpacing >>= fun _ => set s >>= fun _ =>
        pure (Scan.opensTypeParameters s.rest)) s := rfl
  rw [opensTypeParameters, agrees_position, Agrees.congr_right hspacing]
  apply mirrors_eatSpacing.bind
  rintro _ u hu -
  obtain rfl : u = t := Scan.runs_skipSpacing.mp hu
  rw [agrees_current, agrees_position]
  simp (disch := decide) only [lead_eq_byte_iff, pure_bind]
  split
  · next hcomma =>
    refine hback _ (by rfl) (by rfl) ?_
    rw [Scan.opensTypeParameters, ← ht, if_pos hcomma]
  · next hcomma =>
    have hmoved := (Follows.after s (s.rest.takeWhile Scan.isSpacing).length).pos_lt_iff
    have hverdict : Scan.opensTypeParameters s.rest =
        (decide (t.rest.length < s.rest.length) && startsExtends t.rest) := by
      rw [Scan.opensTypeParameters, ← ht, if_neg hcomma, Bool.and_assoc]
      rfl
    split
    · next hlt =>
      obtain ⟨count, hextends⟩ := agrees_eatExtends source t
      have hskip : (set s >>= fun _ => pure (Scan.opensTypeParameters s.rest) : Scan Bool) t =
          (Scan.skip count >>= fun _ => set s >>= fun _ =>
            pure (Scan.opensTypeParameters s.rest)) t := rfl
      rw [Agrees.congr_right hskip]
      apply hextends.bind
      rintro found _ v hv hfound
      obtain rfl := Scan.runs_skip.mp hv
      refine hback _ (by rfl) (by rfl) ?_
      rw [hverdict, decide_eq_true (hmoved.mp hlt), hfound, Bool.true_and]
    · next hle =>
      refine hback _ (by rfl) (by rfl) ?_
      rw [hverdict, decide_eq_false (mt hmoved.mpr hle), Bool.false_and]

/-! ### Opening tags -/

/-- An opening tag is read, or the cursor and the scan have gone back. -/
theorem agrees_openTag? (h : mine.Agrees source theirs s.rest.length)
    (hhead : s.rest.head? = some '<') :
  Agrees source s (openTag? mine) (Scan.openTag? theirs) fun a b t =>
    a = b ∧ if b.isSome then Follows (s.after 1) t else t = s
  := by
  apply Agrees.of_at
  intro hat
  obtain ⟨later, hrest⟩ := List.head?_eq_some_iff.mp hhead
  rw [openTag?, agrees_position, agrees_peek (by decide) hrest, Scan.openTag?,
    agrees_scan_position, agrees_scan_rest, hrest]
  cases later with
  | nil =>
    rw [lead_nil, if_neg (by decide), if_neg (by decide)]
    exact .pure ⟨rfl, rfl⟩
  | cons c later =>
    have hstart : isNameStart (lead (c :: later)) = Scan.isNameStart c :=
      reflects_isNameStart.lead_cons
    by_cases hclose : c = '>'
    · subst hclose
      rw [if_pos ((lead_eq_byte_iff (by decide)).mpr rfl)]
      apply Agrees.skipBy ['<', '>'] (forall_isAscii (by decide)) ⟨later, hrest.symm⟩
      rw [agrees_spanFrom, agrees_scan_spanFrom]
      exact .pure ⟨rfl, .after_le s (by decide)⟩
    · have hnot : ¬ lead (c :: later) = byte '>' := by
        rwa [lead_eq_byte_iff (by decide), List.head?_cons, Option.some.injEq]
      simp only [if_neg hnot, hstart]
      split
      · next hname =>
        have hlt := Scan.length_after_lt (ne_nil_of_head? hhead) Nat.one_pos
        rw [agrees_scan_get]
        apply Agrees.skip (by decide) hhead
        rw [agrees_position]
        apply Agrees.eatWhile reflects_isTagNameByte
        rw [agrees_sliceFrom (hat.after 1) (Scan.rest_eq_takeWhile_append _ _), agrees_scan_rest]
        apply agrees_opensTypeParameters.look
        rintro _ ⟨rfl, -⟩
        split
        · exact Agrees.moveBack hat rfl rfl (.pure ⟨rfl, rfl⟩)
        · have hafter := Follows.after (s.after 1)
            ((s.after 1).rest.takeWhile Scan.isTagNameChar).length
          apply (mirrors_tag (h.follow ((Follows.after s 1).trans hafter))).bind
          intro selfClosing t _ hfollows
          rw [agrees_spanFrom, agrees_scan_spanFrom]
          exact .pure ⟨rfl, hafter.trans hfollows⟩
      · exact .pure ⟨rfl, rfl⟩

/-! ### Contents -/

/-- What the scan of the content of an element passes at once, when so many tags are open: text,
and a tag or braces behind it. -/
def contentItem (theirs : Scan.Context) (outer : OpenTag) (depth : Nat) :
    Scan (Round Nat Unit) := do
  discard (Scan.takeWhile Scan.isTextChar)
  let ahead ← Scan.rest
  if ahead.head? = some '\x7b' then
    Scan.braced theirs
    return .again depth
  else if ahead.head? = some '<' then
    if (ahead.drop 1).head? = some '/' then
      Scan.skip 2
      if ← Scan.skipPast ['>'] then
        if depth - 1 = 0 then return .done () else return .again (depth - 1)
      else
        throw (.error ⟨.openElement outer.name, outer.span⟩)
    else
      match ← Scan.openTag? theirs with
      | some tag => return .again (if tag.selfClosing then depth else depth + 1)
      | none =>
        Scan.skip 1
        return .again depth
  else
    throw (.error ⟨.openElement outer.name, outer.span⟩)

theorem content_succ (budget inner : Nat) :
  Scan.content theirs outer (budget + 1) inner =
    (contentItem theirs outer (inner + 1) >>=
      Round.goOn fun depth => Scan.content theirs outer budget (depth - 1))
  := by
  funext s
  rw [Scan.content.eq_def, contentItem]
  simp only [bind_assoc, discard_bind]
  rw [Scan.bind_apply, Scan.bind_apply (Scan.takeWhile _) _ s, Scan.takeWhile_apply]
  have hstop : ∀ c ∈ (s.after (s.rest.takeWhile Scan.isTextChar).length).rest.head?,
      c = '<' ∨ c = '\x7b' := by
    intro c hc
    rw [Scan.State.after_rest, Scan.drop_length_takeWhile] at hc
    have hend := List.head?_dropWhile_not Scan.isTextChar s.rest
    simp [Option.mem_def.mp hc, Scan.isTextChar] at hend
    tauto
  generalize s.after (s.rest.takeWhile Scan.isTextChar).length = t at hstop
  simp only [Scan.bind_apply Scan.rest, Scan.rest_apply]
  cases hrest : t.rest with
  | nil => rfl
  | cons c later =>
    rw [hrest] at hstop
    obtain rfl | rfl := hstop c rfl
    · rw [List.head?_cons, if_neg (by simp), if_pos rfl, List.drop_succ_cons, List.drop_zero]
      by_cases hslash : later.head? = some '/'
      · obtain ⟨more, rfl⟩ := List.head?_eq_some_iff.mp hslash
        rw [if_pos hslash]
        simp only [bind_assoc]
        refine congrFun (bind_congr fun _ => bind_congr fun found => ?_) t
        cases found with
        | true => cases inner <;> rfl
        | false => rfl
      · rw [if_neg hslash]
        refine congrFun ?_ t
        split
        · next heq => cases heq
        · next heq =>
          obtain ⟨-, rfl⟩ := List.cons.inj heq
          exact absurd rfl hslash
        · rw [bind_assoc]
          refine bind_congr fun tag => ?_
          cases tag with
          | none => rfl
          | some tag => cases htag : tag.selfClosing <;> simp [htag, Round.goOn]
        · next hno => exact (hno _ rfl).elim
    · rw [List.head?_cons, if_pos rfl, bind_assoc]
      rfl

/-- The cursor goes to the next `<` or brace as the scan passes text. -/
theorem Agrees.seekText {γ δ : Type} {f : UInt8 → Reading γ} {w : Scan δ}
    {Q : γ → δ → Scan.State → Prop}
    (hnext : ∀ t, Follows s t → (∀ c ∈ t.rest.head?, c = '<' ∨ c = '\x7b') →
      Agrees source t (f (lead t.rest)) w Q) :
  Agrees source s (Cursor.seek [byte '<', byte '\x7b'] >>= f)
    (discard (Scan.takeWhile Scan.isTextChar) >>= fun _ => w) Q
  := by
  obtain ⟨plain, later, hrest, hplain, hlater⟩ := exists_plain ['<', '\x7b'] s.rest
  have hkind : Scan.isTextChar = isNoStop ['<', '\x7b'] := by
    funext c
    simp [isNoStop, Scan.isTextChar]
  have htake : s.rest.takeWhile Scan.isTextChar = plain := by
    rw [hkind, hrest, takeWhile_isNoStop hplain hlater]
  have hafter : (s.after plain.length).rest = later := Scan.State.after_length_rest hrest
  apply Agrees.seek (w := w) (forall_isAscii (by decide)) hrest hplain hlater
  · rw [discard_bind, Scan.bind_apply, Scan.takeWhile_apply, htake]
  · rw [← hafter]
    apply hnext _ (.after s _)
    rw [hafter]
    simpa using hlater

/-- A round over the content of an element passes what the scan does. -/
theorem agrees_contentRound (h : mine.Agrees source theirs s.rest.length) {depth : Nat}
    (hdepth : 0 < depth) :
  Agrees source s (contentRound mine outer depth) (contentItem theirs outer depth)
    fun round round' t =>
      round = round' ∧ Moves s t round ∧ ∀ next, round = .again next → 0 < next
  := by
  rw [contentRound, contentItem]
  apply Agrees.seekText
  intro t hfollows _
  have hmine := h.follow hfollows
  have hmoves {u : Scan.State} {next : Nat} (hne : t.rest ≠ []) (hnext : 0 < next)
      (hfollows' : Follows (t.after 1) u) :
      Moves s u (.again next : Round Nat Unit) ∧
        ∀ after, (.again next : Round Nat Unit) = .again after → 0 < after := by
    refine ⟨⟨(hfollows.trans (.after t 1)).trans hfollows', ?_⟩, ?_⟩
    · exact Nat.lt_of_lt_of_le (hfollows'.length_lt_of_after hne) hfollows.length_le
    · rintro _ heq
      cases heq
      exact hnext
  rw [agrees_scan_rest]
  simp (disch := decide) only [lead_eq_byte_iff]
  split
  · next hbrace =>
    apply (advances_skipBraced hmine hbrace).bind
    rintro _ _ u - ⟨rfl, hfollows'⟩
    exact .pure ⟨rfl, hmoves (ne_nil_of_head? hbrace) hdepth hfollows'⟩
  · split
    · next hopen =>
      obtain ⟨later, hrest⟩ := List.head?_eq_some_iff.mp hopen
      have hne := ne_nil_of_head? hopen
      have hdrop : t.rest.drop 1 = later := by rw [hrest, List.drop_succ_cons, List.drop_zero]
      rw [agrees_peek (by decide) hrest, hdrop]
      simp (disch := decide) only [lead_eq_byte_iff]
      split
      · next hslash =>
        apply Agrees.skipBy ['<', '/'] (forall_isAscii (by decide))
          (prefix_of_head? hopen (by rwa [hdrop]))
        apply (mirrors_skipPast (forall_isAscii (by decide)) (by simp)).bind
        intro found v _ hfollows'
        have hafter := (Follows.after_le t (by decide : 1 ≤ 2)).trans hfollows'
        split
        · split
          · exact .pure ⟨rfl, (hfollows.trans (.after t 1)).trans hafter, by rintro _ ⟨⟩⟩
          · exact .pure ⟨rfl, hmoves hne (by omega) hafter⟩
        · exact .refused (fun _ => rfl) rfl
      · apply (agrees_openTag? hmine hopen).bind
        rintro tag _ u - ⟨rfl, hpost⟩
        cases tag with
        | none =>
          obtain rfl : u = t := hpost
          apply Agrees.skip (by decide) hopen
          exact .pure ⟨rfl, hmoves hne hdepth (.refl _)⟩
        | some tag =>
          have hnext : 0 < if tag.selfClosing then depth else depth + 1 := by
            split <;> omega
          exact .pure ⟨rfl, hmoves hne hnext hpost⟩
    · exact .refused (fun _ => rfl) rfl

/-- The content of an element is passed as a whole. -/
theorem mirrors_contentRounds (s : Scan.State) (h : mine.Agrees source theirs s.rest.length)
    {budget : Nat} (hbudget : s.rest.length < budget) (inner : Nat) :
  Mirrors source s (rounds (contentRound mine outer) (inner + 1))
    (Scan.content theirs outer budget inner)
  := by
  obtain ⟨more, rfl⟩ := Nat.exists_eq_succ_of_ne_zero (Nat.ne_zero_of_lt hbudget)
  rw [Nat.succ_eq_add_one, content_succ]
  apply (agrees_contentRound h (Nat.succ_pos inner)).rounds
  · rintro result _ t - ⟨rfl, hfollows, -⟩
    exact .pure ⟨rfl, hfollows⟩
  · rintro next _ t - ⟨rfl, ⟨hfollows, hlt⟩, hpos⟩
    refine ⟨hfollows, hlt, ?_⟩
    obtain ⟨inner, rfl⟩ := Nat.exists_eq_succ_of_ne_zero (Nat.ne_zero_of_lt (hpos next rfl))
    have hbudget' : t.rest.length < more := by omega
    exact (mirrors_contentRounds t (h.follow hfollows) hbudget' inner).follow hfollows
  termination_by s.rest.length

/-- An element is passed as a whole; if there is none, the scan has not moved. -/
theorem agrees_element (h : mine.Agrees source theirs s.rest.length)
    (hhead : s.rest.head? = some '<') :
  AgreesElement source s (element mine) (Scan.element theirs)
  := by
  rw [AgreesElement, element, Scan.element]
  apply (agrees_openTag? h hhead).bind
  rintro tag _ t - ⟨rfl, hpost⟩
  cases tag with
  | none => exact .pure ⟨rfl, hpost⟩
  | some tag =>
    have hfollows : Follows s t := (Follows.after s 1).trans hpost
    have hmine := h.follow hfollows
    dsimp only
    split
    · exact .pure ⟨rfl, hpost⟩
    · apply (mirrors_contentRounds t hmine hmine.budget 0).bind
      rintro _ u - hfollows'
      exact .pure ⟨rfl, Follows.trans hpost hfollows'⟩

end UtilityClasses.Cursor
