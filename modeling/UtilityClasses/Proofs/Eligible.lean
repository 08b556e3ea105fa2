import UtilityClasses.Proofs.ExactSplice
import UtilityClasses.Proofs.Tree.Reach

/-!
# Eligible class lists

Which literals of a source hold class lists is said here without regard to how they are looked
for: the literal value of a target attribute, the literal that is the whole of its container,
and in helper calls anywhere in the container the arguments, or their right operands after
`&&`. The selection replaces each of those that change exactly once, and nothing else.
-/

namespace UtilityClasses

/-! ### The contract -/

/-- What holds a class list: an attribute value, known by where it stands, or an expression. -/
inductive Holder where
  | value (span : Span)
  | expr (id : ExprId)
  deriving DecidableEq

/-- How a class list is written. -/
inductive Style where
  /-- As an attribute value between the delimiters that it had. -/
  | value (quote : Quote)
  /-- As a string literal in code. -/
  | code (quote : Quote)
  /-- As an attribute value in place of a container. -/
  | container
  deriving DecidableEq

/-- A text in a style. -/
def Style.write : Style → String → String
  | value quote, text => Literal.inAttribute quote text
  | code quote, text => Literal.inCode quote text
  | container, text => Literal.asAttribute text

/-- A class list: what holds it, and what is replaced if it changes, and how. -/
structure Slot where
  holder : Holder
  target : Target
  span : Span
  classes : String
  style : Style
  deriving DecidableEq

/-- The class list changes under the settings. -/
def Slot.Changes (settings : Settings) (slot : Slot) : Prop :=
  settings.renewed slot.classes ≠ slot.classes

/-- The replacement by the class list with the affix. -/
def Slot.replacement (settings : Settings) (slot : Slot) : Replacement :=
  ⟨slot.target, slot.span, slot.style.write (settings.renewed slot.classes)⟩

/-- The class lists of an argument of a helper call. -/
inductive Arena.ArgumentSlot (arena : Arena) (arg : ExprId) : Slot → Prop
  | string {id : ExprId} {quote : Quote} {value : String} {span : Span}
      (hopens : arena.Opens arg id) (hexpr : arena[id]? = some ⟨.str quote value, span⟩) :
      ArgumentSlot arena arg ⟨.expr id, .argumentLiteral, span, value, .code quote⟩
  | template {id : ExprId} {texts : List String} {span : Span} (hopens : arena.Opens arg id)
      (hexpr : arena[id]? = some ⟨.template texts [], span⟩) :
      ArgumentSlot arena arg
        ⟨.expr id, .argumentTemplate, span, String.join texts, .code .double⟩
  | rightString {both left right id : ExprId} {outer span : Span} {quote : Quote}
      {value : String} (hopens : arena.Opens arg both)
      (hand : arena[both]? = some ⟨.logical .and left right, outer⟩)
      (hright : arena.Opens right id) (hexpr : arena[id]? = some ⟨.str quote value, span⟩) :
      ArgumentSlot arena arg ⟨.expr id, .argumentRight, span, value, .code quote⟩
  | rightTemplate {both left right id : ExprId} {outer span : Span} {texts : List String}
      (hopens : arena.Opens arg both)
      (hand : arena[both]? = some ⟨.logical .and left right, outer⟩)
      (hright : arena.Opens right id) (hexpr : arena[id]? = some ⟨.template texts [], span⟩) :
      ArgumentSlot arena arg ⟨.expr id, .argumentRight, span, String.join texts, .code .double⟩

/-- The expression `arg` is an argument of a call whose callee is the plain name of a helper.
The call is reached from the expression `root`. -/
inductive Arena.HelperArgument (arena : Arena) (root : ExprId) : ExprId → Prop
  | intro {call callee arg : ExprId} {args : List ExprId} {name : String} {span span' : Span}
      (hcall : arena.Reaches root call) (hexpr : arena[call]? = some ⟨.call callee args, span⟩)
      (hcallee : arena[callee]? = some ⟨.ident name, span'⟩) (hname : name ∈ helperNames)
      (harg : arg ∈ args) : HelperArgument arena root arg

/-- The class lists of the value of a target attribute. -/
inductive AttrValue.Eligible (arena : Arena) : AttrValue → Slot → Prop
  | literal (text : Literal) :
      Eligible arena (.literal text)
        ⟨.value text.span, .attributeLiteral, text.span, text.value, .value text.quote⟩
  | string {span inner : Span} {root id : ExprId} {quote : Quote} {value : String}
      (hopens : arena.Opens root id) (hexpr : arena[id]? = some ⟨.str quote value, inner⟩) :
      Eligible arena (.container span root)
        ⟨.expr id, .attributeLiteral, inner, value, .code quote⟩
  | template {span inner : Span} {root id : ExprId} {texts : List String}
      (hopens : arena.Opens root id) (hexpr : arena[id]? = some ⟨.template texts [], inner⟩) :
      Eligible arena (.container span root)
        ⟨.expr id, .staticTemplate, span, String.join texts, .container⟩
  | argument {span : Span} {root arg : ExprId} {slot : Slot}
      (harg : arena.HelperArgument root arg) (h : arena.ArgumentSlot arg slot) :
      Eligible arena (.container span root) slot

/-- The class lists of a source: those in the values of its target attributes. -/
def Markup.Eligible (settings : Settings) (markup : Markup) (slot : Slot) : Prop :=
  ∃ element ∈ markup.elements, ∃ attr ∈ element.attributes, attr.name ∈ settings.attributes ∧
    ∃ value, attr.value = some value ∧ value.Eligible markup.arena slot

namespace Selection

variable {settings : Settings} {arena : Arena} {id : ExprId} {core : Expr}

/-! ### What is found -/

/-- The replacements that are found are those of the class lists `E` that change. -/
def Finds (settings : Settings) (E : Slot → Prop) (found : Option (List Replacement)) : Prop :=
  ∃ slots : List Slot, found = some (slots.map (Slot.replacement settings)) ∧
    ∀ slot, slot ∈ slots ↔ E slot ∧ slot.Changes settings

namespace Finds

variable {E E' : Slot → Prop} {found : Option (List Replacement)}

theorem none (h : ∀ slot, slot.Changes settings → ¬ E slot) :
  Finds settings E (some [])
  := by
  refine ⟨[], rfl, ?_⟩
  intro slot
  simp only [List.not_mem_nil, false_iff, not_and]
  intro hslot hchanges
  apply h slot hchanges hslot

theorem one {slot : Slot} (h : slot.Changes settings) :
  Finds settings (· = slot) (some [slot.replacement settings])
  := by
  refine ⟨[slot], rfl, ?_⟩
  intro slot'
  rw [List.mem_singleton]
  constructor
  · rintro rfl
    exact ⟨rfl, h⟩
  · apply And.left

/-- Only of class lists that change it matters what is said of them. -/
theorem congr (h : Finds settings E found)
    (hE : ∀ slot, slot.Changes settings → (E' slot ↔ E slot)) :
  Finds settings E' found
  := by
  obtain ⟨slots, hfound, hslots⟩ := h
  refine ⟨slots, hfound, ?_⟩
  intro slot
  rw [hslots]
  apply and_congr_left
  intro hchanges
  rw [hE slot hchanges]

/-- The answers for the members of a list, one after the other. -/
theorem flatten {α : Type} {f : α → Option (List Replacement)} {E : α → Slot → Prop}
    {l : List α} (h : ∀ a ∈ l, Finds settings (E a) (f a)) :
  Finds settings (fun slot => ∃ a ∈ l, E a slot) (do some (← l.mapM f).flatten)
  := by
  induction l with
  | nil => apply none (by simp)
  | cons a l ih =>
    rw [List.forall_mem_cons] at h
    obtain ⟨⟨slots, hfound, hslots⟩, hl⟩ := h
    obtain ⟨later, hlater, hslots'⟩ := ih hl
    obtain ⟨lists, hlists, hflatten⟩ : ∃ lists, l.mapM f = some lists ∧
        lists.flatten = later.map (Slot.replacement settings) := by
      simpa [Option.bind_eq_some_iff] using hlater
    refine ⟨slots ++ later, by simp [hfound, hlists, hflatten], ?_⟩
    intro slot
    rw [List.mem_append, hslots, hslots', ← or_and_right]
    simp

end Finds

/-! ### Literals in code -/

/-- How a class list in code is written back as a string. -/
def ClassText.style : ClassText → Style
  | string quote _ => .code quote
  | template _ => .code .double

theorem ClassText.write_style (text : ClassText) (new : String) :
  text.style.write new = text.spell new
  := by
  cases text <;> rfl

/-- The class list that an expression is. -/
theorem classText?_eq_some_iff {shape : ExprShape} {text : ClassText} :
  classText? shape = some text ↔
    (∃ quote value, shape = .str quote value ∧ text = .string quote value) ∨
      ∃ texts, shape = .template texts [] ∧ text = .template (String.join texts)
  := by
  constructor
  · intro h
    cases hliteral : shape.isLiteral with
    | false => simp [classText?_eq_none hliteral] at h
    | true =>
      obtain ⟨quote, value, rfl, htext⟩ | ⟨texts, rfl, htext⟩ := exists_classText hliteral
      · exact Or.inl ⟨quote, value, rfl, Option.some.inj (h.symm.trans htext)⟩
      · exact Or.inr ⟨texts, rfl, Option.some.inj (h.symm.trans htext)⟩
  · rintro (⟨quote, value, rfl, rfl⟩ | ⟨texts, rfl, rfl⟩) <;> rfl

/-- The slot of the expression `id` with its class list. -/
def literalSlot (id : ExprId) (target : Target) (span : Span) (text : ClassText) : Slot :=
  ⟨.expr id, target, span, text.text, text.style⟩

theorem ofLiteral_finds (htotal : settings.Total) (id : ExprId) (expr : Expr)
    (target : ClassText → Target) :
  Finds settings
    (fun slot => ∃ text, classText? expr.shape = some text ∧
      slot = literalSlot id (target text) expr.span text)
    (ofLiteral settings expr target)
  := by
  rw [ofLiteral]
  cases htext : classText? expr.shape with
  | none => apply Finds.none (by simp)
  | some text =>
    simp only [Option.some.injEq, exists_eq_left', htotal.revised_eq, Option.bind_eq_bind,
      Option.bind_some]
    by_cases hsame : settings.renewed text.text = text.text
    · rw [if_pos hsame]
      apply Finds.none
      rintro _ hchanges rfl
      apply hchanges hsame
    · rw [if_neg hsame]
      simp only [← ClassText.write_style]
      apply Finds.one
      apply hsame

/-! ### Helper calls -/

/-- An expression that is there can be taken out of its parentheses. -/
theorem exists_opens (h : arena.WellFormed) (hid : id < arena.size) :
  ∃ expr child core, arena[id]? = some expr ∧ peel arena expr = some core ∧
    arena.Opens id child ∧ arena[child]? = some core ∧ core.shape.isParen = false
  := by
  obtain ⟨expr, core, hexpr, hpeel, -, hwraps, -⟩ := exists_core h hid
  obtain ⟨child, hopens, hcore, hparen⟩ := hwraps.exists_opens
  exact ⟨expr, child, core, hexpr, hpeel, hopens, hcore, hparen⟩

variable {arg child child' : ExprId} {core' : Expr} {slot : Slot}

/-- The class list of an argument that is no `&&`. -/
theorem argumentSlot_iff (hopens : arena.Opens arg child) (hcore : arena[child]? = some core)
    (hparen : core.shape.isParen = false)
    (hand : ∀ left right, core.shape ≠ .logical .and left right) :
  arena.ArgumentSlot arg slot ↔ ∃ text, classText? core.shape = some text ∧
    slot = literalSlot child (argumentTarget text) core.span text
  := by
  constructor
  · intro h
    cases h with
    | string hopens' hexpr =>
      obtain rfl := hopens.unique hopens' hcore hexpr hparen rfl
      obtain rfl := Option.some.inj (hcore.symm.trans hexpr)
      exact ⟨_, rfl, rfl⟩
    | template hopens' hexpr =>
      obtain rfl := hopens.unique hopens' hcore hexpr hparen rfl
      obtain rfl := Option.some.inj (hcore.symm.trans hexpr)
      exact ⟨_, rfl, rfl⟩
    | rightString hopens' hlogical | rightTemplate hopens' hlogical =>
      obtain rfl := hopens.unique hopens' hcore hlogical hparen rfl
      obtain rfl := Option.some.inj (hcore.symm.trans hlogical)
      exact (hand _ _ rfl).elim
  · rintro ⟨text, htext, rfl⟩
    obtain ⟨shape, span⟩ := core
    obtain ⟨quote, value, rfl, rfl⟩ | ⟨texts, rfl, rfl⟩ := classText?_eq_some_iff.mp htext
    · apply Arena.ArgumentSlot.string hopens hcore
    · apply Arena.ArgumentSlot.template hopens hcore

/-- The class list of an argument that is an `&&`: that of the right operand. -/
theorem argumentSlot_iff_of_and {left right : ExprId} {outer : Span}
    (hopens : arena.Opens arg child) (hand : arena[child]? = some ⟨.logical .and left right, outer⟩)
    (hright : arena.Opens right child') (hcore : arena[child']? = some core')
    (hparen : core'.shape.isParen = false) :
  arena.ArgumentSlot arg slot ↔ ∃ text, classText? core'.shape = some text ∧
    slot = literalSlot child' .argumentRight core'.span text
  := by
  constructor
  · intro h
    cases h with
    | string hopens' hexpr | template hopens' hexpr =>
      obtain rfl := hopens.unique hopens' hand hexpr rfl rfl
      simp [hand] at hexpr
    | rightString hopens' hlogical hright' hexpr =>
      obtain rfl := hopens.unique hopens' hand hlogical rfl rfl
      obtain ⟨⟨rfl, rfl⟩, rfl⟩ : (_ ∧ _) ∧ _ := by simpa [hand] using hlogical
      obtain rfl := hright.unique hright' hcore hexpr hparen rfl
      obtain rfl := Option.some.inj (hcore.symm.trans hexpr)
      exact ⟨_, rfl, rfl⟩
    | rightTemplate hopens' hlogical hright' hexpr =>
      obtain rfl := hopens.unique hopens' hand hlogical rfl rfl
      obtain ⟨⟨rfl, rfl⟩, rfl⟩ : (_ ∧ _) ∧ _ := by simpa [hand] using hlogical
      obtain rfl := hright.unique hright' hcore hexpr hparen rfl
      obtain rfl := Option.some.inj (hcore.symm.trans hexpr)
      exact ⟨_, rfl, rfl⟩
  · rintro ⟨text, htext, rfl⟩
    obtain ⟨shape, span⟩ := core'
    obtain ⟨quote, value, rfl, rfl⟩ | ⟨texts, rfl, rfl⟩ := classText?_eq_some_iff.mp htext
    · apply Arena.ArgumentSlot.rightString hopens hand hright hcore
    · apply Arena.ArgumentSlot.rightTemplate hopens hand hright hcore

theorem ofArgument_finds (htotal : settings.Total) (harena : arena.WellFormed)
    (harg : arg < arena.size) :
  Finds settings (arena.ArgumentSlot arg) (ofArgument settings arena arg)
  := by
  obtain ⟨expr, child, core, hexpr, hpeel, hopens, hcore, hparen⟩ := exists_opens harena harg
  simp only [ofArgument, hexpr, hpeel, Option.bind_eq_bind, Option.bind_some]
  split
  · next left right hshape =>
    obtain ⟨shape, span⟩ := core
    obtain rfl : shape = .logical .and left right := hshape
    have hright : right < arena.size := harena.lt_size hcore (by simp [ExprShape.children])
    obtain ⟨expr', child', core', hexpr', hpeel', hopens', hcore', hparen'⟩ :=
      exists_opens harena hright
    simp only [hexpr', hpeel', Option.bind_some]
    apply (ofLiteral_finds htotal child' core' _).congr
    intro slot _
    apply argumentSlot_iff_of_and hopens hcore hopens' hcore' hparen'
  · next hand =>
    apply (ofLiteral_finds htotal child core argumentTarget).congr
    intro slot _
    apply argumentSlot_iff hopens hcore hparen hand

/-- The class lists of the arguments of an expression, if it is a helper call. -/
theorem ofCall_finds (htotal : settings.Total) (harena : arena.WellFormed)
    (hexpr : arena[id]? = some core) :
  Finds settings
    (fun slot => ∃ callee args name span, core.shape = .call callee args ∧
      arena[callee]? = some ⟨.ident name, span⟩ ∧ name ∈ helperNames ∧
      ∃ arg ∈ args, arena.ArgumentSlot arg slot)
    (ofCall settings arena core)
  := by
  obtain ⟨shape, outer⟩ := core
  cases shape with
  | call callee args =>
    have hcallee : callee < arena.size := harena.lt_size hexpr (by simp [ExprShape.children])
    have hargs : ∀ arg ∈ args, Finds settings (arena.ArgumentSlot arg)
        (ofArgument settings arena arg) := by
      intro arg harg
      apply ofArgument_finds htotal harena
      apply harena.lt_size hexpr
      simp [ExprShape.children, harg]
    obtain ⟨⟨shape, span⟩, hget⟩ : ∃ expr, arena[callee]? = some expr :=
      ⟨_, Array.getElem?_eq_getElem hcallee⟩
    simp only [ofCall, hget, Option.bind_eq_bind, Option.bind_some]
    cases shape with
    | ident name =>
      cases hname : helperNames.contains name with
      | true =>
        simp only [isHelper, hname, if_true]
        rw [List.contains_iff_mem] at hname
        apply (Finds.flatten hargs).congr
        intro slot _
        simp [hget, hname]
      | false =>
        simp only [isHelper, hname, Bool.false_eq_true, if_false]
        have hname : name ∉ helperNames := by simpa using hname
        apply Finds.none
        simp [hget, hname]
    | _ =>
      apply Finds.none
      simp [hget]
  | _ =>
    apply Finds.none
    simp

theorem ofCalls_finds (htotal : settings.Total) (harena : arena.WellFormed) {root : ExprId}
    (hroot : root < arena.size) :
  Finds settings (fun slot => ∃ arg, arena.HelperArgument root arg ∧ arena.ArgumentSlot arg slot)
    (ofCalls settings arena root)
  := by
  obtain ⟨nodes, htree, hnodes⟩ := Arena.tree_eq_some harena hroot
  have hmem : ∀ {expr : Expr}, (∃ node ∈ nodes, node.2 = expr) ↔
      ∃ id, arena.Reaches root id ∧ arena[id]? = some expr := by
    intro expr
    rw [← Arena.mem_exprs_iff harena hroot, ← hnodes, List.mem_map]
  have hcalls := Finds.flatten (l := nodes) fun node hnode => by
    obtain ⟨id, -, hexpr⟩ := hmem.mp ⟨node, hnode, rfl⟩
    exact ofCall_finds htotal harena hexpr
  simp only [ofCalls, htree, Option.bind_eq_bind, Option.bind_some]
  apply hcalls.congr
  intro slot _
  constructor
  · rintro ⟨arg, ⟨hcall, hexpr, hcallee, hname, harg⟩, hslot⟩
    obtain ⟨node, hnode, hsame⟩ := hmem.mpr ⟨_, hcall, hexpr⟩
    exact ⟨node, hnode, _, _, _, _, by rw [hsame], hcallee, hname, arg, harg, hslot⟩
  · rintro ⟨⟨depth, shape, span⟩, hnode, callee, args, name, span', rfl, hcallee, hname, arg,
      harg, hslot⟩
    obtain ⟨call, hcall, hexpr⟩ := hmem.mp ⟨_, hnode, rfl⟩
    exact ⟨arg, ⟨hcall, hexpr, hcallee, hname, harg⟩, hslot⟩

/-! ### Values -/

/-- No call is reached in a literal. -/
theorem not_helperArgument {root : ExprId} (hopens : arena.Opens root child)
    (hcore : arena[child]? = some core) (hliteral : core.shape.isLiteral = true) :
  ¬ arena.HelperArgument root arg
  := by
  rintro ⟨hcall, hexpr, -, -, -⟩
  have hall : ∀ {id}, arena.Reaches root id → arena.Opens id child := by
    intro id hreaches
    apply hreaches.induct hopens
    intro id below expr hbefore hid hbelow
    cases hbefore with
    | self =>
      obtain rfl := Option.some.inj (hcore.symm.trans hid)
      simp [ExprShape.children_of_isLiteral hliteral] at hbelow
    | paren hself hinner =>
      obtain rfl := Option.some.inj (hself.symm.trans hid)
      obtain rfl := List.mem_singleton.mp hbelow
      apply hinner
  cases hall hcall with
  | self =>
    obtain rfl := Option.some.inj (hcore.symm.trans hexpr)
    simp [ExprShape.isLiteral] at hliteral
  | paren hself _ => simp [hself] at hexpr

/-- The slot of the literal that is the whole of a container. -/
def wholeSlot (span : Span) (id : ExprId) (inner : Span) : ClassText → Slot
  | .string quote text => ⟨.expr id, .attributeLiteral, inner, text, .code quote⟩
  | .template text => ⟨.expr id, .staticTemplate, span, text, .container⟩

theorem wholeSlot_classes (span : Span) (id : ExprId) (inner : Span) (text : ClassText) :
  (wholeSlot span id inner text).classes = text.text
  := by
  cases text <;> rfl

/-- The class lists of a container: the literal that is the whole of it, and those of the
arguments of helper calls. -/
theorem eligible_container_iff {span : Span} {root : ExprId} (hopens : arena.Opens root child)
    (hcore : arena[child]? = some core) (hparen : core.shape.isParen = false) :
  (AttrValue.container span root).Eligible arena slot ↔
    (∃ text, classText? core.shape = some text ∧ slot = wholeSlot span child core.span text) ∨
      ∃ arg, arena.HelperArgument root arg ∧ arena.ArgumentSlot arg slot
  := by
  constructor
  · intro h
    cases h with
    | string hopens' hexpr | template hopens' hexpr =>
      obtain rfl := hopens.unique hopens' hcore hexpr hparen rfl
      obtain rfl := Option.some.inj (hcore.symm.trans hexpr)
      exact Or.inl ⟨_, rfl, rfl⟩
    | argument harg hslot => exact Or.inr ⟨_, harg, hslot⟩
  · rintro (⟨text, htext, rfl⟩ | ⟨arg, harg, hslot⟩)
    · obtain ⟨shape, inner⟩ := core
      obtain ⟨quote, value, rfl, rfl⟩ | ⟨texts, rfl, rfl⟩ := classText?_eq_some_iff.mp htext
      · apply AttrValue.Eligible.string hopens hcore
      · apply AttrValue.Eligible.template hopens hcore
    · apply AttrValue.Eligible.argument harg hslot

theorem ofContainer_finds (htotal : settings.Total) (harena : arena.WellFormed) {root : ExprId}
    (hroot : root < arena.size) (span : Span) :
  Finds settings ((AttrValue.container span root).Eligible arena)
    (ofContainer settings arena span root)
  := by
  obtain ⟨expr, child, core, hexpr, hpeel, hopens, hcore, hparen⟩ := exists_opens harena hroot
  have hcalls := ofCalls_finds htotal harena hroot
  simp only [ofContainer, hexpr, hpeel, Option.bind_eq_bind, Option.bind_some]
  cases htext : classText? core.shape with
  | none =>
    apply hcalls.congr
    intro slot _
    simp [eligible_container_iff hopens hcore hparen, htext]
  | some text =>
    have hliteral : core.shape.isLiteral = true := by
      cases h : core.shape.isLiteral with
      | true => rfl
      | false => simp [classText?_eq_none h] at htext
    have hwhole : ∀ slot, (AttrValue.container span root).Eligible arena slot ↔
        slot = wholeSlot span child core.span text := by
      intro slot
      simp [eligible_container_iff hopens hcore hparen, htext,
        not_helperArgument hopens hcore hliteral]
    simp only [htotal.revised_eq, Option.bind_some]
    by_cases hsame : settings.renewed text.text = text.text
    · rw [if_pos hsame]
      apply hcalls.congr
      intro slot hchanges
      rw [hwhole]
      constructor
      · rintro rfl
        rw [Slot.Changes, wholeSlot_classes] at hchanges
        exact (hchanges hsame).elim
      · rintro ⟨arg, harg, -⟩
        exact (not_helperArgument hopens hcore hliteral harg).elim
    · rw [if_neg hsame]
      have hchanges : (wholeSlot span child core.span text).Changes settings := by
        rw [Slot.Changes, wholeSlot_classes]
        exact hsame
      have hfound := (Finds.one hchanges).congr fun slot _ => hwhole slot
      cases text with
      | string | template => exact hfound

theorem ofValue_finds (htotal : settings.Total) (harena : arena.WellFormed) {value : AttrValue}
    (hvalue : value.WellFormed arena) :
  Finds settings (value.Eligible arena) (ofValue settings arena value)
  := by
  cases value with
  | literal text =>
    have hliteral : ∀ slot, (AttrValue.literal text).Eligible arena slot ↔ slot =
        ⟨.value text.span, .attributeLiteral, text.span, text.value, .value text.quote⟩ := by
      intro slot
      constructor
      · rintro ⟨⟩
        rfl
      · rintro rfl
        apply AttrValue.Eligible.literal
    simp only [ofValue, htotal.revised_eq, Option.bind_eq_bind, Option.bind_some]
    by_cases hsame : settings.renewed text.value = text.value
    · rw [if_pos hsame]
      apply Finds.none
      intro slot hchanges hslot
      obtain rfl := (hliteral slot).mp hslot
      apply hchanges hsame
    · rw [if_neg hsame]
      have hchanges : Slot.Changes settings
        ⟨.value text.span, .attributeLiteral, text.span, text.value, .value text.quote⟩ := hsame
      exact (Finds.one hchanges).congr fun slot _ => hliteral slot
  | container span root =>
    obtain ⟨inner, hinner, -⟩ := hvalue
    apply ofContainer_finds htotal harena (Arena.lt_size_of_span? hinner)

/-! ### Markup -/

theorem ofAttribute_finds (htotal : settings.Total) (harena : arena.WellFormed)
    {attr : Attribute} (hattr : attr.WellFormed arena) :
  Finds settings
    (fun slot => attr.name ∈ settings.attributes ∧
      ∃ value, attr.value = some value ∧ value.Eligible arena slot)
    (ofAttribute settings arena attr)
  := by
  rw [ofAttribute, Settings.isTarget]
  cases htarget : settings.attributes.contains attr.name with
  | true =>
    rw [List.contains_iff_mem] at htarget
    cases hvalue : attr.value with
    | none =>
      apply Finds.none
      simp
    | some value =>
      apply (ofValue_finds htotal harena (hattr.value value hvalue)).congr
      simp [htarget]
  | false =>
    have htarget : attr.name ∉ settings.attributes := by simpa using htarget
    apply Finds.none
    simp [htarget]

theorem ofMarkup_finds (htotal : settings.Total) {markup : Markup}
    (harena : markup.arena.WellFormed)
    (helements : ∀ element ∈ markup.elements, element.WellFormed markup.arena) :
  Finds settings (markup.Eligible settings) (ofMarkup settings markup)
  := by
  have hattrs : ∀ attr ∈ markup.elements.flatMap Element.attributes, Finds settings
      (fun slot => attr.name ∈ settings.attributes ∧
        ∃ value, attr.value = some value ∧ value.Eligible markup.arena slot)
      (ofAttribute settings markup.arena attr) := by
    intro attr hmem
    obtain ⟨element, helement, hattr⟩ := List.mem_flatMap.mp hmem
    apply ofAttribute_finds htotal harena ((helements element helement).attrs attr hattr)
  apply (Finds.flatten hattrs).congr
  intro slot _
  simp only [Markup.Eligible, List.mem_flatMap]
  constructor
  · rintro ⟨element, helement, attr, hattr, h⟩
    exact ⟨attr, ⟨element, helement, hattr⟩, h⟩
  · rintro ⟨attr, ⟨element, helement, hattr⟩, h⟩
    exact ⟨element, helement, attr, hattr, h⟩

/-! ### No class list twice -/

end Selection

/-- Where a holder stands. -/
def Holder.span? (arena : Arena) : Holder → Option Span
  | value span => some span
  | expr id => arena.span? id

/-- The span of a class list is not empty, and what holds the class list lies in it. -/
def Slot.Covers (arena : Arena) (slot : Slot) : Prop :=
  ∃ inner, slot.holder.span? arena = some inner ∧ inner.start < inner.stop ∧
    slot.span.start ≤ inner.start ∧ inner.stop ≤ slot.span.stop

/-- Two class lists that lie apart are not held by the same. -/
theorem Slot.Covers.holder_ne {arena : Arena} {slot slot' : Slot} (h : slot.Covers arena)
    (h' : slot'.Covers arena) (hapart : slot.span.Apart slot'.span) :
  slot.holder ≠ slot'.holder
  := by
  intro heq
  obtain ⟨inner, hinner, hlt, hstart, hstop⟩ := h
  obtain ⟨inner', hinner', -, hstart', hstop'⟩ := h'
  rw [heq, hinner', Option.some.injEq] at hinner
  subst hinner
  obtain hle | hle := hapart <;> omega

variable {source : List Char} {arena : Arena} {id child root : ExprId} {expr : Expr} {slot : Slot}

/-- A literal is not empty: it has its delimiters. -/
theorem Expr.Faithful.lt_of_isLiteral (h : expr.Faithful source arena)
    (hliteral : expr.shape.isLiteral = true) :
  expr.span.start < expr.span.stop
  := by
  obtain ⟨shape, span⟩ := expr
  cases shape with
  | str quote value =>
    obtain ⟨delimiter, body, -, -, hslice⟩ := h
    apply hslice.lt (by simp)
  | template texts holes =>
    obtain ⟨passed, body, before, spans, hslice, -⟩ := h
    apply hslice.lt (by simp)
  | _ => simp [ExprShape.isLiteral] at hliteral

theorem Literal.Faithful.lt {text : Literal} (h : text.Faithful source) :
  text.span.start < text.span.stop
  := by
  rw [Literal.Faithful] at h
  cases hquote : text.quote.char? with
  | some delimiter =>
    rw [hquote] at h
    apply h.2.lt (by simp)
  | none =>
    rw [hquote] at h
    apply h.2.2.lt h.1

/-- What is in parentheses lies in them. -/
theorem Arena.Opens.within (h : arena.Opens id child) (harena : arena.WellFormed)
    (hexpr : arena[child]? = some expr) :
  ∃ outer, arena.span? id = some outer ∧ outer.start ≤ expr.span.start ∧
    expr.span.stop ≤ outer.stop
  := by
  induction h with
  | self => exact ⟨expr.span, Arena.span?_of_getElem? hexpr, Nat.le_refl _, Nat.le_refl _⟩
  | paren hself _ ih =>
    obtain ⟨outer, houter, hstart, hstop⟩ := ih hexpr
    obtain ⟨inner, hinner, hstart', hstop'⟩ :=
      harena.within hself (List.mem_singleton.mpr rfl)
    obtain rfl : inner.span = outer := by simpa [Arena.span?, hinner] using houter
    refine ⟨_, Arena.span?_of_getElem? hself, ?_, ?_⟩
    · apply Nat.le_trans hstart' hstart
    · apply Nat.le_trans hstop hstop'

section Covers

variable (hexprs : ∀ expr ∈ arena, expr.Faithful source arena)
include hexprs

/-- A literal in code is what holds its class list. -/
theorem Slot.covers_of_literal {target : Target} {classes : String} {style : Style}
    (hexpr : arena[id]? = some expr) (hliteral : expr.shape.isLiteral = true) :
  Slot.Covers arena ⟨.expr id, target, expr.span, classes, style⟩
  := by
  refine ⟨expr.span, Arena.span?_of_getElem? hexpr, ?_, Nat.le_refl _, Nat.le_refl _⟩
  apply (hexprs expr (Array.mem_of_getElem? hexpr)).lt_of_isLiteral hliteral

theorem Arena.ArgumentSlot.covers (h : arena.ArgumentSlot id slot) :
  slot.Covers arena
  := by
  cases h with
  | string _ hexpr | template _ hexpr | rightString _ _ _ hexpr | rightTemplate _ _ _ hexpr =>
    apply Slot.covers_of_literal hexprs hexpr rfl

theorem AttrValue.Eligible.covers {value : AttrValue} (h : value.Eligible arena slot)
    (harena : arena.WellFormed) (hvalue : value.WellFormed arena)
    (hfaithful : value.Faithful source arena) :
  slot.Covers arena
  := by
  cases h with
  | literal text =>
    exact ⟨text.span, rfl, Literal.Faithful.lt hfaithful, Nat.le_refl _, Nat.le_refl _⟩
  | string _ hexpr => apply Slot.covers_of_literal hexprs hexpr rfl
  | template hopens hexpr =>
    obtain ⟨outer, houter, hstart, hstop⟩ := hopens.within harena hexpr
    obtain ⟨outer', houter', hstart', hstop'⟩ := hvalue
    obtain rfl := Option.some.inj (houter.symm.trans houter')
    refine ⟨_, Arena.span?_of_getElem? hexpr, ?_, ?_, ?_⟩
    · apply (hexprs _ (Array.mem_of_getElem? hexpr)).lt_of_isLiteral rfl
    · apply Nat.le_trans (Nat.le_of_lt hstart') hstart
    · apply Nat.le_trans hstop (Nat.le_of_lt hstop')
  | argument _ h => apply h.covers hexprs

end Covers

/-- The selection in a source that can be read has an answer for every affix, all names of
attributes and every way to tell utilities: of the eligible class lists each of those that
change is replaced once, as its kind is written, and nothing else is replaced. -/
theorem Selection.ofMarkup_eligible (affix : String) (attributes : List String)
    (isUtility : String → Bool) {dialect : Dialect} {text : String} {markup : Markup}
    (hparse : Markup.parse dialect text = .ok markup) :
  let settings : Settings := ⟨affix, attributes, Classifier.ofPredicate isUtility⟩
  ∃ slots : List Slot,
    Selection.ofMarkup settings markup = some (slots.map (Slot.replacement settings)) ∧
    (slots.map Slot.holder).Nodup ∧
    ∀ slot, slot ∈ slots ↔ markup.Eligible settings slot ∧ slot.Changes settings
  := by
  intro settings
  have htotal : settings.Total := fun _ => rfl
  obtain ⟨harena, helements⟩ := Markup.formed_of_parse hparse
  obtain ⟨hexprs, hvalues⟩ := Markup.stands_of_parse hparse
  obtain ⟨slots, hfound, hslots⟩ := ofMarkup_finds htotal harena helements
  refine ⟨slots, hfound, ?_, hslots⟩
  have hcovers : ∀ slot ∈ slots, slot.Covers markup.arena := by
    intro slot hslot
    obtain ⟨⟨element, helement, attr, hattr, -, value, hvalue, h⟩, -⟩ := (hslots slot).mp hslot
    apply h.covers hexprs harena
    · apply ((helements element helement).attrs attr hattr).value value hvalue
    · apply ((hvalues element helement).attr attr hattr).value value hvalue
  -- The spans lie apart because the sites of the source do.
  obtain ⟨replacements, hsame, hspans, -⟩ :=
    ofMarkup_selects htotal harena helements hexprs hvalues
  obtain rfl : slots.map (Slot.replacement settings) = replacements :=
    Option.some.inj (hfound.symm.trans hsame)
  have hapart := pairwise_apart_of_subperm (Markup.sites_apart_of_parse hparse) hspans
  rw [List.pairwise_map, List.pairwise_map] at hapart
  rw [List.Nodup, List.pairwise_map]
  apply hapart.imp_of_mem
  intro slot slot' hslot hslot' hapart
  apply (hcovers slot hslot).holder_ne (hcovers slot' hslot') hapart

/-- A helper call in an argument of another one, and a right operand in parentheses. -/
theorem Selection.ofMarkup_eligible_nested :
  ∃ markup, Markup.parse .jsx "<a class=\x7bcn(cn('m-1'), d && ('p-1'))\x7d/>" = .ok markup ∧
    let settings : Settings := ⟨"tw-", ["class"], Classifier.ofPredicate fun _ => true⟩
    ∃ slots : List Slot,
      Selection.ofMarkup settings markup = some (slots.map (Slot.replacement settings)) ∧
      (slots.map Slot.holder).Nodup ∧
      ∀ slot, slot ∈ slots ↔ markup.Eligible settings slot ∧ slot.Changes settings
  := by
  have hok : (Markup.parse .jsx "<a class=\x7bcn(cn('m-1'), d && ('p-1'))\x7d/>").isOk = true := by
    decide +kernel
  obtain ⟨markup, hparse⟩ := Markup.exists_parse_of_isOk hok
  exact ⟨markup, hparse, ofMarkup_eligible "tw-" ["class"] (fun _ => true) hparse⟩

end UtilityClasses
