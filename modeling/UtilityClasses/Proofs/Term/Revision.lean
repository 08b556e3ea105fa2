import UtilityClasses.Proofs.Term.Syntax
import UtilityClasses.Selection

/-!
# Terms with new class lists

In a term that is a class list, some literals are class lists themselves: the whole of the term,
the arguments of helper calls anywhere in it, and the right operands of `&&` in such arguments, all
of them in any number of parentheses. `Term.revise` gives each of them its new text and keeps the
rest of the term; `Term.changes` are the replacements that do the same to the printed term.
-/

namespace UtilityClasses

open Text (byteSize)
open Selection (ClassText)

/-! ### Class lists in code -/

namespace Selection.ClassText

/-- The literal that a class list is. -/
def term : ClassText → Term
  | string quote text => .str quote text
  | template text => .template text []

/-- The literal that a class list turns into when its text is new: a template becomes a string. -/
def renew (new : String) : ClassText → Term
  | string quote _ => .str quote new
  | template _ => .str .double new

theorem toList_spell (text : ClassText) (new : String) :
  (text.spell new).toList = (text.renew new).print
  := by
  cases text <;> rw [spell, renew, Term.print]

end Selection.ClassText

namespace Term

variable (new : String → String)

/-- Where in a class list a term stands, as far as that matters to literals. -/
inductive Place where
  /-- The whole of the class list. -/
  | whole
  /-- An argument of a helper. -/
  | argument
  /-- The right operand of `&&` in an argument of a helper. -/
  | operand
  | other
  deriving DecidableEq

/-- What a literal is replaced as, if it is a class list in this place. A template that is the
whole of a class list is not replaced in code. -/
def Place.target? : Place → ClassText → Option Target
  | whole, .string _ _ => some .attributeLiteral
  | whole, .template _ => none
  | argument, text => some (Selection.argumentTarget text)
  | operand, _ => some .argumentRight
  | other, _ => none

/-- The place of the right operand of a term in this place. -/
def Place.right (place : Place) (op : LogicalOp) : Place :=
  if place = argument ∧ op = .and then operand else other

/-- The place of the arguments of a call. -/
def argsPlace : Term → Place
  | ident name => if helperNames.contains name then .argument else .other
  | _ => .other

/-! ### Revision -/

/-- What becomes of a literal in a place. -/
def reviseLiteral (place : Place) (text : ClassText) : Term :=
  if (place.target? text).isSome ∧ new text.text ≠ text.text then text.renew (new text.text)
  else text.term

mutual

/-- A term with new texts in its class lists. -/
def revise : Place → Term → Term
  | place, str quote value => reviseLiteral new place (.string quote value)
  | place, template text [] => reviseLiteral new place (.template text)
  | _, template text (first :: later) => template text (reviseHoles (first :: later))
  | _, ident name => ident name
  | _, member object property => member (revise .other object) property
  | _, call callee args => call (revise .other callee) (reviseItems (argsPlace callee) args)
  | place, logical op left right =>
    logical op (revise .other left) (revise (place.right op) right)
  | _, conditional test consequent alternate =>
    conditional (revise .other test) (revise .other consequent) (revise .other alternate)
  | _, array items => array (reviseItems .other items)
  | _, spread inner => spread (revise .other inner)
  | place, paren inner => paren (revise place inner)

/-- Items with new texts in their class lists. -/
def reviseItems (place : Place) : List Term → List Term
  | [] => []
  | item :: later => revise place item :: reviseItems place later

/-- The holes of a template with new texts in their class lists. -/
def reviseHoles : List (Term × String) → List (Term × String)
  | [] => []
  | (hole, text) :: later => (revise .other hole, text) :: reviseHoles later

end

/-! ### Replacements -/

/-- The replacement of a literal that is printed at an offset. -/
def literalChanges (place : Place) (pos : Nat) (text : ClassText) : List Replacement :=
  match place.target? text with
  | none => []
  | some target =>
    if new text.text = text.text then []
    else [⟨target, ⟨pos, pos + byteSize text.term.print⟩, text.spell (new text.text)⟩]

mutual

/-- The replacements in a term that is printed at an offset, from left to right. -/
def changes : Nat → Place → Term → List Replacement
  | pos, place, str quote value => literalChanges new place pos (.string quote value)
  | pos, place, template text [] => literalChanges new place pos (.template text)
  | pos, _, template text (first :: later) =>
    changesHoles (pos + 1 + byteSize text.toList) (first :: later)
  | _, _, ident _ => []
  | pos, _, member object _ => changes pos .other object
  | pos, _, call callee args => changes pos .other callee ++
      changesItems (pos + byteSize callee.print + 1) (argsPlace callee) args
  | pos, place, logical op left right => changes pos .other left ++
      changes (pos + byteSize left.print + 4) (place.right op) right
  | pos, _, conditional test consequent alternate => changes pos .other test ++
      (changes (pos + byteSize test.print + 3) .other consequent ++
        changes (pos + byteSize test.print + 3 + byteSize consequent.print + 3) .other alternate)
  | pos, _, array items => changesItems (pos + 1) .other items
  | pos, _, spread inner => changes (pos + 3) .other inner
  | pos, place, paren inner => changes (pos + 1) place inner

/-- The replacements in items that are printed from an offset on. -/
def changesItems : Nat → Place → List Term → List Replacement
  | _, _, [] => []
  | pos, place, item :: later =>
    changes pos place item ++ changesItems (pos + byteSize item.print + 2) place later

/-- The replacements in the holes of a template that are printed from an offset on. -/
def changesHoles : Nat → List (Term × String) → List Replacement
  | _, [] => []
  | pos, (hole, text) :: later => changes (pos + 2) .other hole ++
      changesHoles (pos + 2 + byteSize hole.print + 1 + byteSize text.toList) later

end

variable {new}

/-! ### Revised terms -/

theorem reviseItems_eq_map (place : Place) (items : List Term) :
  reviseItems new place items = items.map (revise new place)
  := by
  induction items with
  | nil => rfl
  | cons item later ih => rw [reviseItems, ih, List.map_cons]

theorem reviseHoles_eq_map (holes : List (Term × String)) :
  reviseHoles new holes = holes.map fun entry => (revise new .other entry.1, entry.2)
  := by
  induction holes with
  | nil => rfl
  | cons entry later ih => rw [reviseHoles, ih, List.map_cons]

/-- A literal with a new text is of the grammar. -/
theorem derives_reviseLiteral (place : Place) {text : ClassText}
    (h : Derives .primary text.term) :
  Derives .primary (reviseLiteral new place text)
  := by
  rw [reviseLiteral]
  split
  · cases text with
    | string quote text =>
      cases h with
      | str _ hquote => exact .str _ hquote
    | template text => exact .str _ (by decide)
  · exact h

/-- A term with new texts in its class lists is of the grammar, on the same level. -/
theorem Derives.revise {level : Level} {term : Term} (h : Derives level term) (place : Place) :
  Derives level (term.revise new place)
  := by
  induction h generalizing place with
  | str value hquote => exact derives_reviseLiteral place (.str value hquote)
  | @template text holes htext hholes htexts ih =>
    cases holes with
    | nil => exact derives_reviseLiteral place (.template htext hholes htexts)
    | cons first later =>
      rw [Term.revise, reviseHoles_eq_map]
      refine .template htext ?_ ?_
      · intro entry hmem
        obtain ⟨old, hold, rfl⟩ := List.mem_map.mp hmem
        exact ih old hold .other
      · intro entry hmem
        obtain ⟨old, hold, rfl⟩ := List.mem_map.mp hmem
        exact htexts old hold
  | ident hname hunary hrefused => exact .ident hname hunary hrefused
  | paren _ ih => exact .paren (ih place)
  | array _ ih =>
    rw [Term.revise, reviseItems_eq_map]
    refine .array ?_
    intro item hmem
    obtain ⟨old, hold, rfl⟩ := List.mem_map.mp hmem
    exact ih old hold .other
  | primary _ ih => exact .primary (ih place)
  | member _ hproperty ih => exact .member (ih .other) hproperty
  | call _ _ ihcallee ihargs =>
    rw [Term.revise, reviseItems_eq_map]
    refine .call (ihcallee .other) ?_
    intro arg hmem
    obtain ⟨old, hold, rfl⟩ := List.mem_map.mp hmem
    exact ihargs old hold _
  | postfixed _ ih => exact .postfixed (ih place)
  | spread _ ih => exact .spread (ih .other)
  | unary _ ih => exact .unary (ih place)
  | and _ _ ihleft ihright => exact .and (ihleft .other) (ihright _)
  | conjunction _ ih => exact .conjunction (ih place)
  | or hop _ _ ihleft ihright => exact .or hop (ihleft .other) (ihright _)
  | disjunction _ ih => exact .disjunction (ih place)
  | conditional _ _ _ ihtest ihconsequent ihalternate =>
    exact .conditional (ihtest .other) (ihconsequent .other) (ihalternate .other)

/-! ### Revising twice -/

/-- There is nothing to replace in a literal with a text that stays. -/
theorem literalChanges_eq_nil {place : Place} {pos : Nat} {text : ClassText}
    (h : new text.text = text.text) :
  literalChanges new place pos text = []
  := by
  rw [literalChanges]
  split
  · rfl
  · rw [if_pos h]

/-- A literal that is revised has nothing left to replace. -/
theorem changes_reviseLiteral (hnew : ∀ text, new (new text) = new text) (pos : Nat)
    (place : Place) (text : ClassText) :
  (reviseLiteral new place text).changes new pos place = []
  := by
  rw [reviseLiteral]
  split
  · cases text with
    | string quote text => exact literalChanges_eq_nil (hnew text)
    | template text => exact literalChanges_eq_nil (hnew text)
  · next hstays =>
    have hterm : text.term.changes new pos place = literalChanges new place pos text := by
      cases text <;> rfl
    rw [hterm]
    by_cases hsame : new text.text = text.text
    · exact literalChanges_eq_nil hsame
    · have htarget : place.target? text = none := by simpa [hsame] using hstays
      rw [literalChanges, htarget]

/-- The arguments of a call are in the same place when its callee is revised. -/
theorem argsPlace_revise (place : Place) (callee : Term) :
  argsPlace (callee.revise new place) = argsPlace callee
  := by
  have hliteral : ∀ text, argsPlace (reviseLiteral new place text) = .other := by
    intro text
    rw [reviseLiteral]
    split <;> cases text <;> rfl
  cases callee with
  | str quote value => exact hliteral _
  | template text holes =>
    cases holes with
    | nil => exact hliteral _
    | cons => rfl
  | _ => rfl

mutual

/-- A term that is revised has nothing left to replace. -/
theorem changes_revise (hnew : ∀ text, new (new text) = new text) :
  ∀ (pos : Nat) (place : Place) (term : Term), (term.revise new place).changes new pos place = []
  | pos, place, .str _ _ => changes_reviseLiteral hnew pos place _
  | pos, place, .template _ [] => changes_reviseLiteral hnew pos place _
  | pos, _, .template text (first :: later) =>
    changesHoles_revise hnew (pos + 1 + byteSize text.toList) (first :: later)
  | _, _, .ident _ => rfl
  | pos, _, .member object _ => changes_revise hnew pos .other object
  | pos, _, .call callee args => by
    rw [revise, changes, changes_revise hnew, argsPlace_revise, changesItems_revise hnew,
      List.append_nil]
  | pos, place, .logical op left right => by
    rw [revise, changes, changes_revise hnew, changes_revise hnew, List.append_nil]
  | pos, _, .conditional test consequent alternate => by
    rw [revise, changes, changes_revise hnew, changes_revise hnew, changes_revise hnew,
      List.append_nil, List.append_nil]
  | pos, _, .array items => changesItems_revise hnew (pos + 1) .other items
  | pos, _, .spread inner => changes_revise hnew (pos + 3) .other inner
  | pos, place, .paren inner => changes_revise hnew (pos + 1) place inner

theorem changesItems_revise (hnew : ∀ text, new (new text) = new text) :
  ∀ (pos : Nat) (place : Place) (items : List Term),
    changesItems new pos place (reviseItems new place items) = []
  | _, _, [] => rfl
  | pos, place, item :: later => by
    rw [reviseItems, changesItems, changes_revise hnew, changesItems_revise hnew, List.append_nil]

theorem changesHoles_revise (hnew : ∀ text, new (new text) = new text) :
  ∀ (pos : Nat) (holes : List (Term × String)),
    changesHoles new pos (reviseHoles new holes) = []
  | _, [] => rfl
  | pos, (hole, text) :: later => by
    rw [reviseHoles, changesHoles, changes_revise hnew, changesHoles_revise hnew, List.append_nil]

end

end Term

end UtilityClasses
