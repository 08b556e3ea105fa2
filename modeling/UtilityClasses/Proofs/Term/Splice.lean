import UtilityClasses.Proofs.Selection
import UtilityClasses.Proofs.Term.Layout
import UtilityClasses.Proofs.Term.Revision

/-!
# Splicing terms

The replacements that are selected below an expression are those of the term that it is, in another
order: a call comes before the calls inside it. Made from left to right, they turn the printed
term into the printed term with its new texts.
-/

namespace UtilityClasses

open Text (byteSize)
open Selection (ClassText)

namespace Term

variable {new : String → String}

/-! ### Splicing -/

open Replacement (Rewrites)

/-- The replacements turn the first text, which stands at the offset, into the second. None of them
is of nothing. -/
structure Becomes (pos : Nat) (text : List Char) (replacements : List Replacement)
    (code : List Char) : Prop where
  rewrites : ∀ ⦃later : List Char⦄ ⦃others : List Replacement⦄ ⦃after : List Char⦄,
    Rewrites (pos + byteSize text) later others after →
    Rewrites pos (text ++ later) (replacements ++ others) (code ++ after)
  proper : ∀ replacement ∈ replacements, replacement.span.start < replacement.span.stop

namespace Becomes

variable {pos : Nat} {text text' code code' : List Char}
  {replacements replacements' : List Replacement}

theorem copy (pos : Nat) (text : List Char) :
  Becomes pos text [] text
  where
  rewrites _ _ _ h := h.append_left
  proper := by simp

theorem replace {replacement : Replacement} (hne : text ≠ [])
    (hspan : replacement.span = ⟨pos, pos + byteSize text⟩) :
  Becomes pos text [replacement] replacement.text.toList
  where
  rewrites _ _ _ h := h.replace hspan
  proper := by
    have hsize := Text.byteSize_pos hne
    rw [List.forall_mem_singleton, hspan]
    exact Nat.lt_add_of_pos_right hsize

theorem append (h : Becomes pos text replacements code)
    (h' : Becomes (pos + byteSize text) text' replacements' code') :
  Becomes pos (text ++ text') (replacements ++ replacements') (code ++ code')
  where
  rewrites later others after hlater := by
    rw [Text.byteSize_append, ← Nat.add_assoc] at hlater
    simpa only [List.append_assoc] using h.rewrites (h'.rewrites hlater)
  proper := List.forall_mem_append.mpr ⟨h.proper, h'.proper⟩

/-- A text between two that stay. -/
theorem between (before after : List Char)
    (h : Becomes (pos + byteSize before) text replacements code) :
  Becomes pos (before ++ (text ++ after)) replacements (before ++ (code ++ after))
  := by
  simpa using (copy pos before).append (h.append (copy _ after))

end Becomes

/-- A literal is written with its delimiters. -/
theorem print_term_ne_nil (text : ClassText) :
  text.term.print ≠ []
  := by
  cases text <;> simp [ClassText.term, print, Literal.inCode, Literal.spell]

/-- The replacement of a literal is that of its printed text. -/
theorem becomes_literal (place : Place) (pos : Nat) (text : ClassText) :
  Becomes pos text.term.print (literalChanges new place pos text)
    (reviseLiteral new place text).print
  := by
  rw [literalChanges, reviseLiteral]
  split
  · next htarget =>
    rw [if_neg (by simp [htarget])]
    exact .copy _ _
  · next target htarget =>
    by_cases hsame : new text.text = text.text
    · rw [if_pos hsame, if_neg (by simp [hsame])]
      exact .copy _ _
    · rw [if_neg hsame, if_pos ⟨by simp [htarget], hsame⟩, ← ClassText.toList_spell]
      exact .replace (print_term_ne_nil text) rfl

mutual

/-- A printed term becomes the printed term with its new texts. -/
theorem becomes_revise :
  ∀ (pos : Nat) (place : Place) (term : Term),
    Becomes pos term.print (term.changes new pos place) (term.revise new place).print
  | pos, place, .str _ _ => becomes_literal place pos (.string _ _)
  | pos, place, .template _ [] => becomes_literal place pos (.template _)
  | pos, _, .template text (first :: later) => by
    have hsize : pos + byteSize ('\x60' :: text.toList) = pos + 1 + byteSize text.toList :=
      (Nat.add_assoc pos 1 _).symm
    have hholes := becomes_reviseHoles (pos + 1 + byteSize text.toList) (first :: later)
    rw [← hsize] at hholes
    have h := hholes.between ('\x60' :: text.toList) ['\x60']
    rw [hsize] at h
    exact h
  | pos, _, .ident name => .copy pos name.toList
  | pos, _, .member object property => by
    have hobject := becomes_revise pos .other object
    simpa [print, revise, changes] using hobject.append (.copy _ ('.' :: property.toList))
  | pos, _, .call callee args => by
    have hcallee := becomes_revise pos .other callee
    have hargs := becomes_reviseItems (pos + byteSize callee.print + 1) (argsPlace callee) args
    exact hcallee.append (hargs.between ['('] [')'])
  | pos, place, .logical op left right => by
    have hsize : byteSize ([' '] ++ op.render.toList ++ [' ']) = 4 := by cases op <;> rfl
    have hleft := becomes_revise pos .other left
    have hright := becomes_revise (pos + byteSize left.print + 4) (place.right op) right
    rw [← hsize] at hright
    have h := hleft.append ((Becomes.copy _ _).append hright)
    rw [hsize] at h
    simpa [print, revise, changes] using h
  | pos, _, .conditional test consequent alternate => by
    have htest := becomes_revise pos .other test
    have hconsequent := becomes_revise (pos + byteSize test.print + 3) .other consequent
    have halternate := becomes_revise
      (pos + byteSize test.print + 3 + byteSize consequent.print + 3) .other alternate
    have hrest := hconsequent.append ((Becomes.copy _ [' ', ':', ' ']).append halternate)
    exact htest.append ((Becomes.copy _ [' ', '?', ' ']).append hrest)
  | pos, _, .array items => (becomes_reviseItems (pos + 1) .other items).between ['['] [']']
  | pos, _, .spread inner =>
    (Becomes.copy pos ['.', '.', '.']).append (becomes_revise (pos + 3) .other inner)
  | pos, place, .paren inner => (becomes_revise (pos + 1) place inner).between ['('] [')']

theorem becomes_reviseItems :
  ∀ (pos : Nat) (place : Place) (items : List Term),
    Becomes pos (printItems items) (changesItems new pos place items)
      (printItems (reviseItems new place items))
  | pos, _, [] => .copy pos []
  | pos, place, item :: later =>
    (becomes_revise pos place item).append
      (becomes_reviseLater (pos + byteSize item.print) place later)

theorem becomes_reviseLater :
  ∀ (pos : Nat) (place : Place) (items : List Term),
    Becomes pos (printLater items) (changesItems new (pos + 2) place items)
      (printLater (reviseItems new place items))
  | pos, _, [] => .copy pos []
  | pos, place, item :: later => by
    have hitem := becomes_revise (pos + 2) place item
    have hlater := becomes_reviseLater (pos + 2 + byteSize item.print) place later
    exact (Becomes.copy pos [',', ' ']).append (hitem.append hlater)

theorem becomes_reviseHoles :
  ∀ (pos : Nat) (holes : List (Term × String)),
    Becomes pos (printHoles holes) (changesHoles new pos holes)
      (printHoles (reviseHoles new holes))
  | pos, [] => .copy pos []
  | pos, (hole, text) :: later => by
    have hhole := becomes_revise (pos + 2) .other hole
    have hlater := becomes_reviseHoles
      (pos + 2 + byteSize hole.print + 1 + byteSize text.toList) later
    have hsize : pos + 2 + byteSize hole.print + byteSize ('\x7d' :: text.toList) =
        pos + 2 + byteSize hole.print + 1 + byteSize text.toList := (Nat.add_assoc _ 1 _).symm
    rw [← hsize] at hlater
    have hrest := (Becomes.copy _ ('\x7d' :: text.toList)).append hlater
    rw [hsize] at hrest
    exact (Becomes.copy pos ['$', '\x7b']).append (hhole.append hrest)

end

end Term

namespace Selection

open Term (Place)

variable (settings : Settings) (arena : Arena)

/-! ### Selected replacements -/

/-- The replacement of an expression, if it is a literal that is a class list in its place. -/
def ofPlaced (place : Place) (expr : Expr) : List Replacement :=
  match classText? expr.shape with
  | none => []
  | some text =>
    match place.target? text with
    | none => []
    | some target =>
      if settings.renewed text.text = text.text then []
      else [⟨target, expr.span, text.spell (settings.renewed text.text)⟩]

/-- The replacement of an expression that is not in parentheses, when the calls in it are not
counted: an argument may have its class list after `&&`. -/
def ofCore (place : Place) (core : Expr) : List Replacement :=
  match place, core.shape with
  | .argument, .logical .and _ right =>
    (arena.core? right).toList.flatMap (ofPlaced settings .operand)
  | _, _ => ofPlaced settings place core

/-- The replacement of the expression `id` in its place, when the calls in it are not counted. -/
def placed (place : Place) (id : ExprId) : List Replacement :=
  (arena.core? id).toList.flatMap (ofCore settings arena place)

/-- The replacements of the arguments of an expression, if it is a helper call. -/
def callReplacements (expr : Expr) : List Replacement :=
  match expr.shape with
  | .call callee args =>
    if arena[callee]?.any isHelper then args.flatMap (placed settings arena .argument) else []
  | _ => []

/-- The replacements of the arguments of all helper calls at or below the expression `id`. -/
def called (id : ExprId) : List Replacement :=
  (arena.exprs id).flatMap (callReplacements settings arena)

variable {settings arena} {id : ExprId} {expr core : Expr}

theorem ofLiteral_eq (htotal : settings.Total) {place : Place} {target : ClassText → Target}
    (htarget : ∀ text, place.target? text = some (target text)) (expr : Expr) :
  ofLiteral settings expr target = some (ofPlaced settings place expr)
  := by
  rw [ofLiteral, ofPlaced]
  cases classText? expr.shape with
  | none => rfl
  | some text =>
    simp only [htotal.revised_eq, htarget, Option.bind_eq_bind, Option.bind_some]
    by_cases hsame : settings.renewed text.text = text.text
    · rw [if_pos hsame, if_pos hsame]
    · rw [if_neg hsame, if_neg hsame]

theorem ofArgument_eq (htotal : settings.Total) (harena : arena.WellFormed)
    (hid : id < arena.size) :
  ofArgument settings arena id = some (placed settings arena .argument id)
  := by
  obtain ⟨expr, core, hexpr, hpeel, hcore, hwraps, -⟩ := exists_core harena hid
  have hliteral : ofLiteral settings core argumentTarget =
      some (ofPlaced settings .argument core) := ofLiteral_eq htotal (fun _ => rfl) core
  obtain ⟨_, hinner⟩ := hwraps.exists_getElem?
  simp only [ofArgument, placed, hexpr, hpeel, hcore, Option.bind_eq_bind, Option.bind_some,
    Option.toList_some, List.flatMap_singleton]
  obtain ⟨shape, span⟩ := core
  cases shape with
  | logical op left right =>
    cases op with
    | and =>
      have hright : right < arena.size := harena.lt_size hinner (by simp [ExprShape.children])
      obtain ⟨expr', core', hexpr', hpeel', hcore', -, -⟩ := exists_core harena hright
      simp only [ofCore, hexpr', hpeel', hcore', Option.bind_some, Option.toList_some,
        List.flatMap_singleton]
      exact ofLiteral_eq htotal (fun _ => rfl) core'
    | _ => exact hliteral
  | _ => exact hliteral

/-- The lists that are found for the members of a list, when all of them are. -/
theorem flatten_mapM_eq {α : Type} {f : α → Option (List Replacement)}
    {g : α → List Replacement} {l : List α} (h : ∀ a ∈ l, f a = some (g a)) :
  (l.mapM f).map List.flatten = some (l.flatMap g)
  := by
  induction l with
  | nil => rfl
  | cons a l ih =>
    rw [List.forall_mem_cons] at h
    obtain ⟨found, hfound, heq⟩ := Option.map_eq_some_iff.mp (ih h.2)
    simp [h.1, hfound, heq]

theorem ofCall_eq (htotal : settings.Total) (harena : arena.WellFormed)
    (hexpr : arena[id]? = some expr) :
  ofCall settings arena expr = some (callReplacements settings arena expr)
  := by
  obtain ⟨shape, span⟩ := expr
  cases shape with
  | call callee args =>
    have hlt : ∀ child ∈ callee :: args, child < arena.size :=
      fun child hchild => harena.lt_size hexpr hchild
    rw [List.forall_mem_cons] at hlt
    have hargs := flatten_mapM_eq fun arg harg => ofArgument_eq htotal harena (hlt.2 arg harg)
    obtain ⟨found, hfound, heq⟩ := Option.map_eq_some_iff.mp hargs
    simp only [ofCall, callReplacements, Array.getElem?_eq_getElem hlt.1, Option.bind_eq_bind,
      Option.bind_some, Option.any_some, hfound, heq]
    split <;> rfl
  | _ => rfl

theorem ofCalls_eq (htotal : settings.Total) (harena : arena.WellFormed)
    (hid : id < arena.size) :
  ofCalls settings arena id = some (called settings arena id)
  := by
  obtain ⟨nodes, htree, hnodes⟩ := Arena.tree_eq_some harena hid
  have hcalls := flatten_mapM_eq (f := fun node : Nat × Expr => ofCall settings arena node.2)
    (g := fun node => callReplacements settings arena node.2) (l := nodes) (by
      intro node hnode
      have hmem := List.mem_map_of_mem (f := Prod.snd) hnode
      rw [hnodes] at hmem
      obtain ⟨_, hexpr⟩ := Arena.exists_of_mem_exprs harena hid _ hmem
      exact ofCall_eq htotal harena hexpr)
  obtain ⟨found, hfound, heq⟩ := Option.map_eq_some_iff.mp hcalls
  simp only [ofCalls, htree, Option.bind_eq_bind, Option.bind_some, hfound, heq, called, ← hnodes,
    List.flatMap_map]

/-! ### Selected replacements are those of the term -/

theorem placed_of_wraps (h : arena.WellFormed) (place : Place) (hwraps : arena.Wraps id core) :
  placed settings arena place id = ofCore settings arena place core
  := by
  rw [placed, Arena.core?_of_wraps h hwraps, Option.toList_some, List.flatMap_singleton]

/-- Only in an argument a right operand is looked for. -/
theorem ofCore_eq {place : Place}
    (hand : ∀ left right, place = .argument → core.shape ≠ .logical .and left right) :
  ofCore settings arena place core = ofPlaced settings place core
  := by
  rw [ofCore]
  exact hand

theorem ofPlaced_eq_nil (place : Place) (hliteral : expr.shape.isLiteral = false) :
  ofPlaced settings place expr = []
  := by
  rw [ofPlaced, classText?_eq_none hliteral]

/-- Nothing is replaced where no literal is a class list. -/
theorem placed_other (id : ExprId) :
  placed settings arena .other id = []
  := by
  rw [placed, List.flatMap_eq_nil_iff]
  intro core _
  rw [ofCore_eq (by simp), ofPlaced]
  cases classText? core.shape <;> rfl

theorem called_eq (h : arena.WellFormed) (hexpr : arena[id]? = some expr) :
  called settings arena id =
    callReplacements settings arena expr ++ expr.shape.children.flatMap (called settings arena)
  := by
  rw [called, Arena.exprs_eq h hexpr, List.flatMap_cons, List.flatMap_assoc]
  rfl

/-- Parentheses do not change the place of what is in them. -/
theorem placed_paren (h : arena.WellFormed) (place : Place) {inner : ExprId} {span : Span}
    (hexpr : arena[id]? = some ⟨.paren inner, span⟩) :
  placed settings arena place id = placed settings arena place inner
  := by
  have hinner := h.lt_size hexpr (List.mem_singleton_self inner)
  obtain ⟨core, hwraps⟩ := Arena.exists_wraps h hinner
  rw [placed_of_wraps h place hwraps, placed_of_wraps h place (.paren hexpr hwraps)]

/-- What is neither in parentheses nor a literal has no replacement of its own, unless it has a
right operand. -/
theorem placed_eq_nil (h : arena.WellFormed) (place : Place) (hexpr : arena[id]? = some expr)
    (hparen : expr.shape.isParen = false) (hliteral : expr.shape.isLiteral = false)
    (hand : ∀ left right, expr.shape ≠ .logical .and left right) :
  placed settings arena place id = []
  := by
  rw [placed_of_wraps h place (.self hexpr hparen), ofCore_eq fun _ _ _ => hand _ _,
    ofPlaced_eq_nil place hliteral]

/-- An expression with a right operand has its replacement there. -/
theorem placed_logical (h : arena.WellFormed) (place : Place) {op : LogicalOp}
    {left right : ExprId} {span : Span} (hexpr : arena[id]? = some ⟨.logical op left right, span⟩) :
  placed settings arena place id = placed settings arena (place.right op) right
  := by
  rw [placed_of_wraps h place (.self hexpr rfl), Place.right]
  split
  · next hplace =>
    obtain ⟨rfl, rfl⟩ := hplace
    have hsame : ofCore settings arena .operand = ofPlaced settings .operand :=
      funext fun _ => ofCore_eq (by simp)
    rw [placed, hsame]
    rfl
  · next hplace =>
    have hand : ∀ left' right', place = .argument →
        ExprShape.logical op left right ≠ .logical .and left' right' := by
      rintro _ _ rfl ⟨⟩
      exact hplace ⟨rfl, rfl⟩
    rw [placed_other, ofCore_eq hand, ofPlaced_eq_nil place rfl]

/-- There are no calls in a literal. -/
theorem called_of_wraps (h : arena.WellFormed) (hwraps : arena.Wraps id core)
    (hliteral : core.shape.isLiteral = true) :
  called settings arena id = []
  := by
  induction hwraps with
  | @self _ expr hself _ =>
    rw [called_eq h hself, ExprShape.children_of_isLiteral hliteral, callReplacements]
    obtain ⟨quote, value, hshape, -⟩ | ⟨texts, hshape, -⟩ := exists_classText hliteral
    · simp [hshape]
    · simp [hshape]
  | paren hself _ ih =>
    rw [called_eq h hself]
    simpa [callReplacements, ExprShape.children] using ih hliteral

end Selection

namespace Term

variable {settings : Settings} {arena : Arena}

open Selection (placed called ofPlaced callReplacements)

/-- A literal is what its class list says. -/
theorem shape_of_classText? {shape : ExprShape} {text : ClassText}
    (h : Selection.classText? shape = some text) :
  shape.isLiteral = true
  := by
  cases hliteral : shape.isLiteral with
  | true => rfl
  | false => rw [Selection.classText?_eq_none hliteral] at h; simp at h

/-- The replacement of a literal is that of the term. -/
theorem placed_literal (h : arena.WellFormed) {id : ExprId} {shape : ExprShape} {pos : Nat}
    {text : ClassText} (place : Place) (hself : arena.Holds pos id shape text.term.print)
    (htext : Selection.classText? shape = some text) :
  placed settings arena place id ++ called settings arena id =
    literalChanges settings.renewed place pos text
  := by
  have hliteral := shape_of_classText? htext
  have hparen : shape.isParen = false := by
    cases shape with
    | paren => simp [ExprShape.isLiteral] at hliteral
    | _ => rfl
  have hand : ∀ left right, shape ≠ .logical .and left right := by
    rintro _ _ rfl
    simp [ExprShape.isLiteral] at hliteral
  have hwraps := Arena.Wraps.self hself hparen
  rw [Selection.placed_of_wraps h place hwraps, Selection.ofCore_eq fun _ _ _ => hand _ _]
  rw [Selection.called_of_wraps h hwraps hliteral, List.append_nil, ofPlaced, htext]
  rfl

/-- Only a name can be the name of a helper. -/
theorem any_isHelper_eq_false {pos : Nat} {id : ExprId} {callee : Term}
    (h : arena.Locates pos id callee) (hident : ∀ name, callee ≠ ident name) :
  arena[id]?.any Selection.isHelper = false
  := by
  have hother : ∀ {shape text}, arena.Holds pos id shape text → (∀ name, shape ≠ .ident name) →
      arena[id]?.any Selection.isHelper = false := by
    intro shape text hself hshape
    rw [Arena.Holds] at hself
    rw [hself, Option.any_some, Selection.isHelper]
    split
    · next heq => exact absurd heq (hshape _)
    · rfl
  cases callee with
  | ident name => exact absurd rfl (hident name)
  | str => exact hother h nofun
  | template | array | spread | paren | member =>
    obtain ⟨_, hself, -⟩ := h
    exact hother hself nofun
  | call | logical =>
    obtain ⟨_, _, hself, -⟩ := h
    exact hother hself nofun
  | conditional =>
    obtain ⟨_, _, _, hself, -⟩ := h
    exact hother hself nofun

/-- The arguments of a call are in their place. -/
theorem callReplacements_eq {pos : Nat} {id : ExprId} {callee : Term} {ids : List ExprId}
    {span : Span} (h : arena.Locates pos id callee) :
  callReplacements settings arena ⟨.call id ids, span⟩ =
    ids.flatMap (placed settings arena (argsPlace callee))
  := by
  have hother : ids.flatMap (placed settings arena .other) = [] :=
    List.flatMap_eq_nil_iff.mpr fun id _ => Selection.placed_other id
  by_cases hident : ∃ name, callee = ident name
  · obtain ⟨name, rfl⟩ := hident
    rw [Arena.Locates, Arena.Holds] at h
    rw [callReplacements, argsPlace]
    simp only [h, Option.any_some, Selection.isHelper]
    split
    · rfl
    · exact hother.symm
  · have hplace : argsPlace callee = .other := by
      cases callee with
      | ident name => exact absurd ⟨name, rfl⟩ hident
      | _ => rfl
    rw [callReplacements, hplace, hother]
    simp only [any_isHelper_eq_false h fun name heq => hident ⟨name, heq⟩, Bool.false_eq_true,
      if_false]

mutual

/-- The replacements that are found at and below an expression are those of the term that it is,
in another order. -/
theorem placed_append_called_perm (h : arena.WellFormed) :
  ∀ {pos : Nat} {id : ExprId} (place : Place) (term : Term), arena.Locates pos id term →
    (placed settings arena place id ++ called settings arena id).Perm
      (term.changes settings.renewed pos place)
  | _, _, place, .str _ _, hself => .of_eq (placed_literal h place hself rfl)
  | _, _, place, .template text [], ⟨ids, hself, hholes⟩ => by
    obtain rfl : ids = [] := hholes
    have htext : Selection.classText? (.template [text] []) = some (.template text) := by
      simp [Selection.classText?, ExprShape.staticText?, String.join]
    exact .of_eq (placed_literal h place hself htext)
  | pos, _, place, .template text (first :: later), ⟨ids, hself, hholes⟩ => by
    have hbelow := flatMap_called_perm h (first :: later) hholes
    have hliteral : (ExprShape.template (text :: (first :: later).map Prod.snd) ids).isLiteral =
        false := by
      obtain ⟨_, _, rfl, -⟩ := hholes
      rfl
    rw [Selection.placed_eq_nil h place hself rfl hliteral (by simp), Selection.called_eq h hself]
    exact hbelow
  | _, _, place, .ident name, hself => by
    rw [Selection.placed_eq_nil h place hself rfl rfl (by simp), Selection.called_eq h hself]
    exact .refl _
  | pos, _, place, .member object _, ⟨i, hself, hobject⟩ => by
    have hbelow := placed_append_called_perm h .other object hobject
    rw [Selection.placed_other, List.nil_append] at hbelow
    rw [Selection.placed_eq_nil h place hself rfl rfl (by simp), Selection.called_eq h hself]
    simpa [callReplacements, ExprShape.children, changes] using hbelow
  | pos, _, place, .call callee args, ⟨i, ids, hself, hcallee, hargs⟩ => by
    have hcallee' := placed_append_called_perm h .other callee hcallee
    have hargs' := flatMap_placed_append_called_perm h (argsPlace callee) args hargs
    rw [Selection.placed_other, List.nil_append] at hcallee'
    rw [Selection.placed_eq_nil h place hself rfl rfl (by simp), Selection.called_eq h hself,
      callReplacements_eq hcallee]
    have hall := (List.flatMap_append_perm ids _ _).trans hargs'
    have hboth := (List.perm_append_comm_assoc _ _ _).trans (hcallee'.append hall)
    simpa [ExprShape.children, changes] using hboth
  | pos, _, place, .logical op left right, ⟨i, j, hself, hleft, hright⟩ => by
    have hleft' := placed_append_called_perm h .other left hleft
    have hright' := placed_append_called_perm h (place.right op) right hright
    rw [Selection.placed_other, List.nil_append] at hleft'
    rw [Selection.placed_logical h place hself, Selection.called_eq h hself]
    have hboth := (List.perm_append_comm_assoc _ _ _).trans (hleft'.append hright')
    simpa [callReplacements, ExprShape.children, changes] using hboth
  | pos, _, place, .conditional test consequent alternate,
      ⟨i, j, k, hself, htest, hconsequent, halternate⟩ => by
    have htest' := placed_append_called_perm h .other test htest
    have hconsequent' := placed_append_called_perm h .other consequent hconsequent
    have halternate' := placed_append_called_perm h .other alternate halternate
    rw [Selection.placed_other, List.nil_append] at htest' hconsequent' halternate'
    rw [Selection.placed_eq_nil h place hself rfl rfl (by simp), Selection.called_eq h hself]
    simpa [callReplacements, ExprShape.children, changes] using
      htest'.append (hconsequent'.append halternate')
  | pos, _, place, .array items, ⟨ids, hself, hitems⟩ => by
    have hbelow := flatMap_placed_append_called_perm h .other items hitems
    simp only [Selection.placed_other, List.nil_append] at hbelow
    rw [Selection.placed_eq_nil h place hself rfl rfl (by simp), Selection.called_eq h hself]
    exact hbelow
  | pos, _, place, .spread inner, ⟨i, hself, hinner⟩ => by
    have hbelow := placed_append_called_perm h .other inner hinner
    rw [Selection.placed_other, List.nil_append] at hbelow
    rw [Selection.placed_eq_nil h place hself rfl rfl (by simp), Selection.called_eq h hself]
    simpa [callReplacements, ExprShape.children, changes] using hbelow
  | pos, _, place, .paren inner, ⟨i, hself, hinner⟩ => by
    have hbelow := placed_append_called_perm h place inner hinner
    rw [Selection.placed_paren h place hself, Selection.called_eq h hself]
    simpa [callReplacements, ExprShape.children, changes] using hbelow

theorem flatMap_placed_append_called_perm (h : arena.WellFormed) :
  ∀ {pos : Nat} {ids : List ExprId} (place : Place) (items : List Term),
    arena.LocatesItems pos ids items →
    (ids.flatMap fun id => placed settings arena place id ++ called settings arena id).Perm
      (changesItems settings.renewed pos place items)
  | _, _, _, [], hids => by
    rw [hids]
    exact .refl _
  | pos, _, place, item :: later, ⟨id, others, hids, hitem, hlater⟩ => by
    subst hids
    exact (placed_append_called_perm h place item hitem).append
      (flatMap_placed_append_called_perm h place later hlater)

theorem flatMap_called_perm (h : arena.WellFormed) :
  ∀ {pos : Nat} {ids : List ExprId} (holes : List (Term × String)),
    arena.LocatesHoles pos ids holes →
    (ids.flatMap (called settings arena)).Perm (changesHoles settings.renewed pos holes)
  | _, _, [], hids => by
    rw [hids]
    exact .refl _
  | pos, _, (hole, text) :: later, ⟨id, others, hids, hhole, hlater⟩ => by
    subst hids
    have hfirst := placed_append_called_perm h .other hole hhole
    rw [Selection.placed_other, List.nil_append] at hfirst
    exact hfirst.append (flatMap_called_perm h later hlater)

end

end Term

end UtilityClasses
