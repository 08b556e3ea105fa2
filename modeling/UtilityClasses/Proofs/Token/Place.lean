import Mathlib.Data.List.Basic
import Mathlib.Tactic.Common
import UtilityClasses.Token.Segments

/-!
# Places in a token

A token is read one character after another, and where a reading has come to decides whether
a colon separates segments: `Place` keeps the bracket depth, the open quotation, and whether the
character ahead is escaped in it. `pieces` cuts a text at the colons that are read outside
brackets and quotations, and the segments of a token are its pieces without an empty last one.
-/

namespace UtilityClasses.Token

/-- The marks between which a quotation stands. -/
abbrev QuoteMark : Type :=
  { c : Char // c = '"' ∨ c = '\'' }

/-- Where a reading of a token is. A character can only be escaped in a quotation. -/
inductive Place where
  | outside (depth : Nat)
  | quoted (depth : Nat) (mark : QuoteMark) (escaped : Bool)
  deriving DecidableEq

namespace Place

/-- Outside brackets and quotations. -/
def top : Place := outside 0

/-- The place after a character. -/
def next : Place → Char → Place
  | outside depth, c =>
    if h : c = '"' ∨ c = '\'' then quoted depth ⟨c, h⟩ false
    else if c = '[' then outside (depth + 1)
    else if c = ']' then outside (depth - 1)
    else outside depth
  | quoted depth mark true, _ => quoted depth mark false
  | quoted depth mark false, c =>
    if c = '\\' then quoted depth mark true
    else if c = mark then outside depth
    else quoted depth mark false

/-- The place after a text. -/
def after (place : Place) (text : List Char) : Place :=
  text.foldl next place

/-- A text cut at the colons that are read at the top level. -/
def pieces : Place → List Char → List (List Char)
  | _, [] => [[]]
  | place, c :: rest =>
    if c = ':' ∧ place = top then [] :: pieces (place.next c) rest
    else (pieces (place.next c) rest).modifyHead (c :: ·)

variable {place : Place} {text front rest first last : List Char} {init later : List (List Char)}

@[simp]
theorem after_nil :
  place.after [] = place
  := rfl

@[simp]
theorem after_cons {c : Char} :
  place.after (c :: text) = (place.next c).after text
  := rfl

theorem pieces_cons_colon :
  pieces top (':' :: text) = [] :: pieces top text
  := rfl

theorem pieces_cons_of_not {c : Char} (h : ¬ (c = ':' ∧ place = top)) :
  place.pieces (c :: text) = ((place.next c).pieces text).modifyHead (c :: ·)
  := by
  rw [pieces, if_neg h]

theorem exists_pieces_eq_cons (place : Place) (text : List Char) :
  ∃ first later, place.pieces text = first :: later
  := by
  cases text with
  | nil => use [], []; rfl
  | cons c rest =>
    rw [pieces]
    split
    · use [], (place.next c).pieces rest
    · obtain ⟨first, later, h⟩ := exists_pieces_eq_cons (place.next c) rest
      use c :: first, later
      rw [h, List.modifyHead_cons]

theorem exists_pieces_eq_concat (place : Place) (text : List Char) :
  ∃ init last, place.pieces text = init ++ [last]
  := by
  obtain ⟨first, later, h⟩ := exists_pieces_eq_cons place text
  rw [h]
  apply (List.eq_nil_or_concat' _).resolve_left (List.cons_ne_nil _ _)

/-- The last piece of a text goes on in the text that follows. -/
theorem pieces_append (h : place.pieces front = init ++ [last]) :
  place.pieces (front ++ rest) = init ++ ((place.after front).pieces rest).modifyHead (last ++ ·)
  := by
  induction front generalizing place init last with
  | nil =>
    obtain ⟨rfl, rfl⟩ : init = [] ∧ last = [] := by
      simpa [pieces, List.singleton_eq_append_iff] using h
    obtain ⟨first, later, hrest⟩ := exists_pieces_eq_cons place rest
    simp [hrest]
  | cons c front ih =>
    obtain ⟨first, later, hfirst⟩ := exists_pieces_eq_cons (place.next c) front
    rw [pieces] at h
    rw [List.cons_append, pieces, after_cons]
    split at h
    · next hcolon =>
      rw [if_pos hcolon]
      cases init with
      | nil => simp [hfirst] at h
      | cons piece init =>
        obtain ⟨rfl, hlater⟩ := List.cons.inj h
        rw [ih hlater, List.cons_append]
    · next hcolon =>
      rw [if_neg hcolon]
      rw [hfirst, List.modifyHead_cons] at h
      cases init with
      | nil =>
        obtain ⟨rfl, rfl⟩ := List.cons.inj h
        have hnext : (place.next c).pieces front = [] ++ [first] := hfirst
        rw [ih hnext]
        obtain ⟨first', later', hrest⟩ := exists_pieces_eq_cons ((place.next c).after front) rest
        simp [hrest]
      | cons piece init =>
        obtain ⟨rfl, rfl⟩ := List.cons.inj h
        have hnext : (place.next c).pieces front = (first :: init) ++ [last] := hfirst
        rw [ih hnext, List.cons_append, List.modifyHead_cons, List.cons_append]

/-- The last piece of a text is empty if the text is, or if it ends with a colon that is read at the
top level. -/
theorem getLast?_pieces (place : Place) (text : List Char) :
  (place.pieces text).getLast? = some [] ↔
    text = [] ∨ text.getLast? = some ':' ∧ place.after text.dropLast = top
  := by
  obtain rfl | ⟨front, c, rfl⟩ := List.eq_nil_or_concat' text
  · simp [pieces]
  · obtain ⟨init, last, h⟩ := exists_pieces_eq_concat place front
    rw [pieces_append h, List.getLast?_concat, List.dropLast_concat, Option.some.injEq, pieces]
    split
    · next hcolon => simp [pieces, hcolon]
    · next hcolon => simp [pieces, hcolon]

/-- A piece is cut no further. -/
theorem pieces_of_pieces (h : place.pieces text = first :: later) :
  place.pieces first = [first] ∧ ∀ piece ∈ later, top.pieces piece = [piece]
  := by
  induction text generalizing place first later with
  | nil =>
    obtain ⟨rfl, rfl⟩ := List.cons.inj h
    exact ⟨rfl, nofun⟩
  | cons c text ih =>
    obtain ⟨first', later', hnext⟩ := exists_pieces_eq_cons (place.next c) text
    obtain ⟨hfirst, hlater⟩ := ih hnext
    rw [pieces, hnext] at h
    split at h
    · next hcolon =>
      obtain ⟨rfl, rfl⟩ := hcolon
      obtain ⟨rfl, rfl⟩ := List.cons.inj h
      use rfl
      rw [List.forall_mem_cons]
      exact ⟨hfirst, hlater⟩
    · next hcolon =>
      obtain ⟨rfl, rfl⟩ := List.cons.inj h
      rw [pieces_cons_of_not hcolon, hfirst]
      exact ⟨rfl, hlater⟩

/-! ### The segments of a token -/

/-- The place with a bracket depth and an open quotation, in which nothing is escaped. -/
def ofMark (depth : Nat) : Option QuoteMark → Place
  | none => outside depth
  | some mark => quoted depth mark false

/-- A token is cut at the colons that are read at the top level. -/
theorem cutColons_eq_pieces (depth : Nat) (mark : Option QuoteMark) (text : List Char) :
  (cutColons depth (mark.map Subtype.val) text).1 ::
    (cutColons depth (mark.map Subtype.val) text).2 = (ofMark depth mark).pieces text
  := by
  generalize hquote : mark.map Subtype.val = quote
  fun_induction cutColons depth quote text generalizing mark with
  | case1 => rfl
  | case2 depth quote c rest segment later hcut ih =>
    obtain ⟨mark, rfl, rfl⟩ := Option.map_eq_some_iff.mp hquote
    have hrest := ih (some mark) rfl
    rw [hcut, ofMark] at hrest
    simp [ofMark, pieces, next, top, ← hrest]
  | case3 depth quote c rest hescape segment later hcut ih =>
    obtain ⟨mark, rfl, rfl⟩ := Option.map_eq_some_iff.mp hquote
    rw [ofMark, pieces_cons_of_not (by simp [top])]
    by_cases hbackslash : c = '\\'
    · obtain rfl : rest = [] := by
        cases rest with
        | nil => rfl
        | cons d rest => exact (hescape d rest hbackslash rfl).elim
      simp only [cutColons, Prod.mk.injEq] at hcut
      obtain ⟨rfl, rfl⟩ := hcut
      rfl
    · have hrest := ih (if c = mark then none else some mark) (by split <;> rfl)
      rw [hcut] at hrest
      rw [next, if_neg hbackslash, ← List.modifyHead_cons, hrest]
      split <;> rfl
  | case4 depth c rest hcolon segment later hcut ih =>
    obtain rfl := Option.map_eq_none_iff.mp hquote
    simp only [Bool.and_eq_true, decide_eq_true_eq] at hcolon
    obtain ⟨rfl, rfl⟩ := hcolon
    have hrest := ih none rfl
    rw [hcut] at hrest
    exact congrArg (List.cons []) hrest
  | case5 depth c rest hcolon segment later hcut ih =>
    obtain rfl := Option.map_eq_none_iff.mp hquote
    have hnot : ¬ (c = ':' ∧ ofMark depth none = top) := by
      simpa [ofMark, top] using hcolon
    rw [pieces_cons_of_not hnot]
    by_cases hmark : c = '"' ∨ c = '\''
    · have hdepth : depthAfter depth c = depth := by
        obtain rfl | rfl := hmark <;> rfl
      have hrest := ih (some ⟨c, hmark⟩) (by simp [quotationAfter, hmark])
      rw [hcut, hdepth] at hrest
      rw [ofMark, next, dif_pos hmark, ← List.modifyHead_cons, hrest]
      rfl
    · have hrest := ih none (by simp [quotationAfter, hmark])
      rw [hcut] at hrest
      rw [ofMark, next, dif_neg hmark, ← List.modifyHead_cons, hrest, depthAfter]
      split_ifs <;> rfl

end Place

/-- The segments of a token are its pieces, without the last one if that one is empty. -/
theorem cut_eq_pieces (token : List Char) :
  cut token = dropEmptyLast (Place.top.pieces token)
  := congrArg dropEmptyLast (Place.cutColons_eq_pieces 0 none token)

end UtilityClasses.Token
