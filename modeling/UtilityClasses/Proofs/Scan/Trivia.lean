import Mathlib.Data.List.TakeWhile
import UtilityClasses.Proofs.Scan.Rounds

/-!
# Blanks and comments

`IsTrivia text` says that a text is made of blanks and comments. This is what is passed over
between the parts of an expression, whatever follows.
-/

namespace UtilityClasses.Scan

variable {text later : List Char} {count : Nat}

/-- Blanks and comments, one after the other. -/
inductive IsTrivia : List Char → Prop
  | nil : IsTrivia []
  | blank {c : Char} {later : List Char} (hc : isSpacing c = true) (h : IsTrivia later) :
    IsTrivia (c :: later)
  | comment {text later : List Char} (htext : Scan.comment text = .closed text.length)
    (h : IsTrivia later) : IsTrivia (text ++ later)

/-- What is known to be a comment is one without the text after it. -/
theorem comment_take (h : comment text = .closed count) :
  comment (text.take count) = .closed count
  := by
  fun_cases comment text with
  | case1 later =>
    rw [comment, Comment.closed.injEq] at h
    have htake : (later.take (later.takeWhile fun c => !isLineBreak c).length) =
        later.takeWhile fun c => !isLineBreak c := take_length_takeWhile _ _
    rw [← h, List.take_succ_cons, List.take_succ_cons, htake, comment, List.takeWhile_idem]
  | case2 later inside hinside =>
    obtain ⟨body, rest, rfl, rfl, hbody⟩ := exists_append_of_offsetOf hinside
    rw [comment, hinside, Comment.closed.injEq] at h
    have htake : (body ++ ['*', '/'] ++ rest).take (body.length + 2) = body ++ ['*', '/'] := by
      apply List.take_left'
      simp
    rw [← h, List.take_succ_cons, List.take_succ_cons, htake, comment, hbody]
  | case3 later hinside => simp [comment, hinside] at h
  | case4 hline hblock => simp [comment] at h

namespace IsTrivia

theorem append (h : IsTrivia text) (h' : IsTrivia later) :
  IsTrivia (text ++ later)
  := by
  induction h with
  | nil => apply h'
  | blank hc _ ih => apply IsTrivia.blank hc ih
  | comment htext _ ih =>
    rw [List.append_assoc]
    apply IsTrivia.comment htext ih

/-- Blanks and comments start with a blank or a slash. -/
theorem head (h : IsTrivia text) :
  ∀ c ∈ text.head?, isSpacing c = true ∨ c = '/'
  := by
  induction h with
  | nil => simp
  | blank hc =>
    rintro _ ⟨⟩
    apply Or.inl hc
  | @comment text later htext _ ih =>
    fun_cases Scan.comment text with
    | case1 | case2 => simp
    | case3 _ hinside => simp [Scan.comment, hinside] at htext
    | case4 => simp [Scan.comment] at htext

theorem of_blanks (h : ∀ c ∈ text, isSpacing c = true) :
  IsTrivia text
  := by
  induction text with
  | nil => apply IsTrivia.nil
  | cons c text ih =>
    rw [List.forall_mem_cons] at h
    apply IsTrivia.blank h.1 (ih h.2)

/-- What is passed over between the parts of an expression is made of blanks and comments. -/
theorem of_trivia (h : trivia text = .closed count) :
  IsTrivia (text.take count)
  := by
  -- a comment is not empty, so what follows it is shorter
  induction hlength : text.length using Nat.strongRecOn generalizing text count with
  | ind length ih =>
    let blanks := text.takeWhile isSpacing
    let rest := text.dropWhile isSpacing
    have htext : text = blanks ++ rest := List.takeWhile_append_dropWhile.symm
    have hblanks : IsTrivia blanks := of_blanks fun c hc => List.mem_takeWhile_imp hc
    have hhead : ∀ c ∈ rest.head?, isSpacing c = false := 
      (eq_takeWhile_iff.mp (congrArg (List.takeWhile isSpacing) htext.symm)).2
    have hshift : trivia text = shiftTrivia blanks.length (trivia rest) := trivia_eq_shift text
    have hrest := trivia_of_comment hhead
    rw [h] at hshift
    cases hcomment : Scan.comment rest with
    | absent =>
      simp only [hcomment] at hrest
      rw [hrest, shiftTrivia, Trivia.closed.injEq, Nat.add_zero] at hshift
      rw [htext, hshift, List.take_left]
      apply hblanks
    | unclosed =>
      simp only [hcomment] at hrest
      simp [hrest, shiftTrivia] at hshift
    | closed n =>
      simp only [hcomment] at hrest
      obtain ⟨hpos, hle⟩ := length_of_comment hcomment
      cases hlater : trivia (rest.drop n) with
      | unclosed => simp [hrest, hlater, shiftTrivia] at hshift
      | closed m =>
        have hless : (rest.drop n).length < length := by
          rw [← hlength, htext, List.length_append, List.length_drop]
          omega
        rw [hrest, hlater, shiftTrivia, shiftTrivia, Trivia.closed.injEq] at hshift
        rw [htext, hshift, List.take_length_add_append, List.take_add]
        apply hblanks.append
        apply IsTrivia.comment _ (ih _ hless hlater rfl)
        rw [comment_take hcomment, List.length_take_of_le hle]

end IsTrivia

end UtilityClasses.Scan
