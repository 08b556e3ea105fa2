import UtilityClasses.Proofs.Literal.RoundTrip
import UtilityClasses.Proofs.Scan.Text
import UtilityClasses.Proofs.Splice

/-!
# Selected replacements

With a classifier that never gives up, the selection in well-formed markup has an answer. The
spans of the replacements are sites, no site is used twice, and every replacement changes the
source.
-/

namespace UtilityClasses

open Text (Slice)

variable {settings : Settings} {source : List Char} {arena : Arena}

/-! ### New class lists -/

/-- The classifier answers for every token. -/
def Settings.Total (settings : Settings) : Prop :=
  ∀ token, (settings.classify token).isSome

theorem Settings.Total.exists_affixed (h : settings.Total) (classes : String) :
  ∃ new, settings.affixed classes = some new
  := by
  have hwords : ∀ token ∈ Text.words classes.toList, ∃ affixed,
      ClassList.affixedToken settings.affix settings.classify token = some affixed ∧ True := by
    intro token _
    obtain ⟨isUtility, hclassify⟩ := Option.isSome_iff_exists.mp (h (String.ofList token))
    simp [ClassList.affixedToken, hclassify]
  obtain ⟨tokens, htokens, -⟩ := exists_mapM_eq_some hwords
  simp only [Settings.affixed, ClassList.affixed, htokens]
  split <;> simp

theorem Settings.Total.exists_revised (h : settings.Total) (classes : String) :
  ∃ revised, settings.revised classes = some revised
  := by
  obtain ⟨new, hnew⟩ := h.exists_affixed classes
  rw [Settings.revised, hnew]
  exact ⟨_, rfl⟩

/-- A class list with the affix. -/
def Settings.renewed (settings : Settings) (classes : String) : String :=
  (settings.affixed classes).getD classes

theorem Settings.Total.revised_eq (h : settings.Total) (classes : String) :
  settings.revised classes =
    some (if settings.renewed classes = classes then none else some (settings.renewed classes))
  := by
  obtain ⟨text, htext⟩ := h.exists_affixed classes
  rw [revised, renewed, htext, Option.map_some, Option.getD_some]

/-- A class list that is revised becomes another one. -/
theorem Settings.ne_of_revised {classes new : String}
    (h : settings.revised classes = some (some new)) :
  new ≠ classes
  := by
  obtain ⟨text, -, htext⟩ := Option.map_eq_some_iff.mp h
  split at htext
  · simp at htext
  · next hne =>
    obtain rfl := Option.some.inj htext
    apply hne

/-! ### Answers of the selection -/

/-- The answer of a selection: the replacements use some of the sites, each of them once, and
all of them are as `P` says. -/
def Selects (P : Replacement → Prop) (found : Option (List Replacement)) (sites : List Span) :
    Prop :=
  ∃ replacements, found = some replacements ∧
    (replacements.map Replacement.span).Subperm sites ∧
    ∀ replacement ∈ replacements, P replacement

namespace Selects

variable {P Q : Replacement → Prop} {found : Option (List Replacement)}
  {sites sites' : List Span}

theorem none (sites : List Span) :
  Selects P (some []) sites
  := ⟨[], rfl, List.nil_subperm, by simp⟩

theorem one {replacement : Replacement} (h : P replacement) :
  Selects P (some [replacement]) [replacement.span]
  := ⟨[replacement], rfl, List.Subperm.refl _, by simpa using h⟩

theorem mono (h : Selects P found sites) (hsub : sites.Subperm sites') :
  Selects P found sites'
  := by
  obtain ⟨replacements, hfound, hspans, hall⟩ := h
  use replacements, hfound, hspans.trans hsub, hall

/-- What holds of a replacement may follow from the site that it uses. -/
theorem imp (h : Selects P found sites)
    (himp : ∀ replacement, replacement.span ∈ sites → P replacement → Q replacement) :
  Selects Q found sites
  := by
  obtain ⟨replacements, hfound, hspans, hall⟩ := h
  use replacements, hfound, hspans
  intro replacement hmem
  apply himp replacement _ (hall replacement hmem)
  apply hspans.subset (List.mem_map_of_mem hmem)

/-- The answers for the members of a list, one after the other. -/
theorem flatten {α : Type} {f : α → Option (List Replacement)} {g : α → List Span} {l : List α}
    (h : ∀ a ∈ l, Selects P (f a) (g a)) :
  Selects P (do some (← l.mapM f).flatten) (l.flatMap g)
  := by
  induction l with
  | nil => apply none
  | cons a l ih =>
    rw [List.forall_mem_cons] at h
    obtain ⟨⟨replacements, hfound, hspans, hall⟩, hl⟩ := h
    obtain ⟨later, hlater, hspans', hall'⟩ := ih hl
    obtain ⟨lists, hlists, rfl⟩ : ∃ lists, l.mapM f = some lists ∧ lists.flatten = later := by
      simpa [Option.bind_eq_some_iff] using hlater
    refine ⟨replacements ++ lists.flatten, by simp [hfound, hlists], ?_, ?_⟩
    · rw [List.map_append, List.flatMap_cons]
      apply hspans.append hspans'
    · rw [List.forall_mem_append]
      apply And.intro hall hall'

end Selects

/-! ### Literals -/

/-- A string in code is changed by another class list. -/
theorem changes_string {target : Target} {quote : Quote} {value new : String} {span : Span}
    (h : (Expr.mk (.str quote value) span).Faithful source arena) (hne : new ≠ value) :
  (Replacement.mk target span (Literal.inCode quote new)).Changes source
  := by
  obtain ⟨delimiter, body, hquote, rfl, hslice⟩ := h
  refine ⟨_, hslice, ?_⟩
  intro heq
  have hdelimiter := Quote.eq_of_char? hquote
  simp only [Literal.inCode, hquote, Option.getD_some, String.toList_ofList, Literal.spell,
    List.cons_append, List.cons.injEq, true_and, List.append_cancel_right_eq] at heq
  apply hne
  rw [heq, Literal.decode_spell hdelimiter, String.ofList_toList]

/-- A template in code is changed by a string. -/
theorem changes_template {target : Target} {texts : List String} {holes : List ExprId}
    {new : String} {span : Span}
    (h : (Expr.mk (.template texts holes) span).Faithful source arena) :
  (Replacement.mk target span (Literal.inCode .double new)).Changes source
  := by
  obtain ⟨passed, body, before, spans, hslice, -⟩ := h
  refine ⟨_, hslice, ?_⟩
  simp [Literal.inCode, Literal.spell, Quote.char?]

namespace Selection

/-- The class list of a literal. -/
theorem exists_classText {shape : ExprShape} (h : shape.isLiteral = true) :
  (∃ quote value, shape = .str quote value ∧ classText? shape = some (.string quote value)) ∨
    ∃ texts, shape = .template texts [] ∧
      classText? shape = some (.template (String.join texts))
  := by
  cases shape with
  | str quote value => apply Or.inl ⟨quote, value, rfl, rfl⟩
  | template texts holes =>
    cases holes with
    | nil => apply Or.inr ⟨texts, rfl, rfl⟩
    | cons => simp [ExprShape.isLiteral] at h
  | _ => simp [ExprShape.isLiteral] at h

/-- What is not a literal has no class list. -/
theorem classText?_eq_none {shape : ExprShape} (h : shape.isLiteral = false) :
  classText? shape = none
  := by
  cases shape with
  | template texts holes =>
    cases holes with
    | nil => simp [ExprShape.isLiteral] at h
    | cons => rfl
  | str => simp [ExprShape.isLiteral] at h
  | _ => rfl

/-- The site of a literal. -/
def leaf (expr : Expr) : List Span :=
  if expr.shape.isLiteral then [expr.span] else []

theorem ofLiteral_selects (htotal : settings.Total) {expr : Expr}
    (hexpr : expr.Faithful source arena) (target : ClassText → Target) :
  Selects (·.Changes source) (ofLiteral settings expr target) (leaf expr)
  := by
  obtain ⟨shape, span⟩ := expr
  cases hliteral : shape.isLiteral with
  | false =>
    rw [ofLiteral, classText?_eq_none hliteral]
    apply Selects.none
  | true =>
    have hleaf : leaf ⟨shape, span⟩ = [span] := by simp [leaf, hliteral]
    rw [hleaf]
    obtain ⟨quote, value, rfl, htext⟩ | ⟨texts, rfl, htext⟩ := exists_classText hliteral
    · obtain ⟨revised, hrevised⟩ := htotal.exists_revised value
      cases revised with
      | none => 
        simp only [ofLiteral, htext, ClassText.text, hrevised]
        apply Selects.none
      | some new => 
        simp only [ofLiteral, htext, ClassText.text, hrevised]
        apply Selects.one (changes_string hexpr (Settings.ne_of_revised hrevised))
    · obtain ⟨revised, hrevised⟩ := htotal.exists_revised (String.join texts)
      cases revised with
      | none => 
        simp only [ofLiteral, htext, ClassText.text, hrevised]
        apply Selects.none
      | some new => 
        simp only [ofLiteral, htext, ClassText.text, hrevised]
        apply Selects.one (changes_template hexpr)

/-! ### Helper calls -/

/-- Where the literal stands that an argument is, or the literal after its `&&`. -/
def argumentLeaf (arena : Arena) (id : ExprId) : List Span :=
  match arena.core? id with
  | none => []
  | some expr =>
    match expr.shape with
    | .logical .and _ right => (arena.core? right).toList.flatMap leaf
    | _ => leaf expr

/-- Where the literals stand among the arguments of a call. -/
def callLeaves (arena : Arena) (expr : Expr) : List Span :=
  match expr.shape with
  | .call _ args => args.flatMap (argumentLeaf arena)
  | _ => []

/-- The literals that stand as arguments at or below the expression `id`. -/
def calledLeaves (arena : Arena) (id : ExprId) : List Span :=
  (arena.exprs id).flatMap (callLeaves arena)

variable {id : ExprId} {expr core : Expr}

theorem calledLeaves_eq (h : arena.WellFormed) (hexpr : arena[id]? = some expr) :
  calledLeaves arena id =
    callLeaves arena expr ++ expr.shape.children.flatMap (calledLeaves arena)
  := by
  rw [calledLeaves, Arena.exprs_eq h hexpr, List.flatMap_cons, List.flatMap_assoc]
  rfl

/-- The literals in a list of expressions, when no literal in one of them is used twice. -/
theorem subperm_flatMap {f g : ExprId → List Span} {l : List ExprId}
    (h : ∀ id ∈ l, (f id).Subperm (g id)) :
  (l.flatMap f).Subperm (l.flatMap g)
  := by
  induction l with
  | nil => apply List.Subperm.refl
  | cons id l ih =>
    rw [List.forall_mem_cons] at h
    rw [List.flatMap_cons, List.flatMap_cons]
    apply h.1.append (ih h.2)

/-- The literal after `&&` is also found when it stands as an argument itself. -/
theorem leaf_subperm_argumentLeaf (hcore : arena.core? id = some core) :
  (leaf core).Subperm (argumentLeaf arena id)
  := by
  rw [argumentLeaf, hcore]
  obtain ⟨shape, span⟩ := core
  cases shape with
  | logical op left right => simp [leaf, ExprShape.isLiteral]
  | _ => apply List.Subperm.refl

/-- An argument and the calls in it use no literal twice. -/
theorem argumentLeaf_append_calledLeaves (h : arena.WellFormed) (hid : id < arena.size) :
  (argumentLeaf arena id ++ calledLeaves arena id).Subperm (arena.leaves id)
  := by
  apply h.induct _ hid
  intro id expr hexpr ih
  have hcalled : ∀ children ⊆ expr.shape.children, (children.flatMap (calledLeaves arena)).Subperm
      (children.flatMap arena.leaves) := by
    intro children hsub
    apply subperm_flatMap
    intro child hchild
    apply List.Subperm.trans _ (ih child (hsub hchild))
    apply (List.sublist_append_right _ _).subperm
  obtain ⟨core, hwraps⟩ := Arena.exists_wraps h (Array.getElem?_eq_some_iff.mp hexpr).1
  have hcore := Arena.core?_of_wraps h hwraps
  rw [calledLeaves_eq h hexpr, Arena.leaves_eq h hexpr, argumentLeaf, hcore]
  cases hwraps with
  | self hself hparen =>
    obtain rfl := Option.some.inj (hexpr.symm.trans hself)
    obtain ⟨shape, span⟩ := expr
    cases shape with
    | call callee args =>
      have hcallee := hcalled [callee] (by simp [ExprShape.children])
      have hargs : (args.flatMap (argumentLeaf arena) ++
          args.flatMap (calledLeaves arena)).Subperm (args.flatMap arena.leaves) := by
        apply (List.flatMap_append_perm args _ _).subperm.trans
        apply subperm_flatMap
        intro arg harg
        apply ih arg
        simp [ExprShape.children, harg]
      simp only [leaf, ExprShape.isLiteral, callLeaves, ExprShape.children, List.flatMap_cons,
        List.flatMap_nil, List.append_nil, List.nil_append, Bool.false_eq_true,
        if_false] at hcallee ⊢
      apply (List.perm_append_comm_assoc _ _ _).subperm.trans
      apply hcallee.append hargs
    | logical op left right =>
      have hleft := hcalled [left] (by simp [ExprShape.children])
      have hright := ih right (by simp [ExprShape.children])
      cases op with
      | and =>
        have hafter : ((arena.core? right).toList.flatMap leaf).Subperm
            (argumentLeaf arena right) := by
          cases hcore : arena.core? right with
          | none => simp
          | some core => simpa using leaf_subperm_argumentLeaf hcore
        simp only [ExprShape.isLiteral, callLeaves, ExprShape.children, List.flatMap_cons,
          List.flatMap_nil, List.append_nil, List.nil_append, Bool.false_eq_true,
          if_false] at hleft ⊢
        apply (List.perm_append_comm_assoc _ _ _).subperm.trans
        apply hleft.append
        apply (hafter.append (List.Subperm.refl _)).trans hright
      | or | coalesce =>
        apply List.Subperm.append (List.Subperm.refl _)
        apply hcalled _ (List.Subset.refl _)
    | _ =>
      apply List.Subperm.append (List.Subperm.refl _)
      apply hcalled _ (List.Subset.refl _)
  | @paren _ inner span _ hself hinner =>
    obtain rfl := Option.some.inj (hexpr.symm.trans hself)
    have hsub := ih inner (by simp [ExprShape.children])
    rw [argumentLeaf, Arena.core?_of_wraps h hinner] at hsub
    simpa [callLeaves, ExprShape.children, ExprShape.isLiteral] using hsub

/-- An expression that is there can be taken out of its parentheses. -/
theorem exists_core (h : arena.WellFormed) (hid : id < arena.size) :
  ∃ expr core, arena[id]? = some expr ∧ peel arena expr = some core ∧
    arena.core? id = some core ∧ arena.Wraps id core ∧ core ∈ arena
  := by
  obtain ⟨core, hwraps⟩ := Arena.exists_wraps h hid
  obtain ⟨_, hcore⟩ := hwraps.exists_getElem?
  have hexpr := Array.getElem?_eq_getElem hid
  refine ⟨arena[id], core, hexpr, Arena.peel_of_wraps h hwraps hexpr,
    Arena.core?_of_wraps h hwraps, hwraps, Array.mem_of_getElem? hcore⟩

/-- The arguments of a helper call that are class lists. -/
theorem ofArgument_selects (htotal : settings.Total) (harena : arena.WellFormed)
    (hfaithful : ∀ expr ∈ arena, expr.Faithful source arena) (hid : id < arena.size) :
  Selects (·.Changes source) (ofArgument settings arena id) (argumentLeaf arena id)
  := by
  obtain ⟨expr, core, hexpr, hpeel, hcore, hwraps, hmem⟩ := exists_core harena hid
  have hliteral : Selects (·.Changes source) (ofLiteral settings core argumentTarget) (leaf core) :=
    ofLiteral_selects htotal (hfaithful core hmem) _
  simp only [ofArgument, argumentLeaf, hexpr, hpeel, hcore, Option.bind_eq_bind,
    Option.bind_some]
  obtain ⟨_, hinner⟩ := hwraps.exists_getElem?
  obtain ⟨shape, span⟩ := core
  cases shape with
  | logical op left right =>
    cases op with
    | and =>
      have hright : right < arena.size :=
        harena.lt_size hinner (by simp [ExprShape.children])
      obtain ⟨expr', core', hexpr', hpeel', hcore', -, hmem'⟩ := exists_core harena hright
      simp only [hexpr', hpeel', hcore', Option.bind_some, Option.toList_some,
        List.flatMap_singleton]
      apply ofLiteral_selects htotal (hfaithful core' hmem')
    | _ => apply hliteral
  | _ => apply hliteral

theorem ofCall_selects (htotal : settings.Total) (harena : arena.WellFormed)
    (hfaithful : ∀ expr ∈ arena, expr.Faithful source arena) (hexpr : arena[id]? = some expr) :
  Selects (·.Changes source) (ofCall settings arena expr) (callLeaves arena expr)
  := by
  obtain ⟨shape, span⟩ := expr
  cases shape with
  | call callee args =>
    have hcallee : callee < arena.size :=
      harena.lt_size hexpr (by simp [ExprShape.children])
    simp only [ofCall, callLeaves, Array.getElem?_eq_getElem hcallee, Option.bind_eq_bind,
      Option.bind_some]
    split
    · apply Selects.flatten
      intro arg harg
      apply ofArgument_selects htotal harena hfaithful
      apply harena.lt_size hexpr
      simp [ExprShape.children, harg]
    · apply Selects.none
  | _ => apply Selects.none

/-- The arguments of all helper calls at or below an expression. -/
theorem ofCalls_selects (htotal : settings.Total) (harena : arena.WellFormed)
    (hfaithful : ∀ expr ∈ arena, expr.Faithful source arena) (hid : id < arena.size) :
  Selects (·.Changes source) (ofCalls settings arena id) (calledLeaves arena id)
  := by
  obtain ⟨nodes, htree, hnodes⟩ := Arena.tree_eq_some harena hid
  have hcalls : ∀ node ∈ nodes, Selects (·.Changes source) (ofCall settings arena node.2)
      (callLeaves arena node.2) := by
    intro node hnode
    have hmem := List.mem_map_of_mem (f := Prod.snd) hnode
    rw [hnodes] at hmem
    obtain ⟨_, hexpr⟩ := Arena.exists_of_mem_exprs harena hid _ hmem
    apply ofCall_selects htotal harena hfaithful hexpr
  have hfound := Selects.flatten hcalls
  rw [calledLeaves, ← hnodes, List.flatMap_map]
  simp only [ofCalls, htree, Option.bind_eq_bind, Option.bind_some]
  apply hfound

/-! ### Values -/

/-- There are no calls in a literal. -/
theorem calledLeaves_of_wraps (h : arena.WellFormed) (hwraps : arena.Wraps id core)
    (hliteral : core.shape.isLiteral = true) :
  calledLeaves arena id = []
  := by
  induction hwraps with
  | self hself _ =>
    rw [calledLeaves_eq h hself, ExprShape.children_of_isLiteral hliteral, callLeaves]
    obtain ⟨quote, value, hshape, -⟩ | ⟨texts, hshape, -⟩ := exists_classText hliteral
    · simp [hshape]
    · simp [hshape]
  | paren hself _ ih =>
    rw [calledLeaves_eq h hself]
    simpa [callLeaves, ExprShape.children] using ih hliteral

/-- A template in parentheses starts with a parenthesis or with its delimiter. -/
theorem exists_slice_of_wraps (hfaithful : ∀ expr ∈ arena, expr.Faithful source arena)
    {texts : List String} {holes : List ExprId} {span : Span}
    (hwraps : arena.Wraps id ⟨.template texts holes, span⟩) :
  ∃ expr c inside, arena[id]? = some expr ∧ Slice source expr.span (c :: inside) ∧
    (c = '\x60' ∨ c = '(')
  := by
  cases hwraps with
  | self hself _ =>
    obtain ⟨_, _, _, _, hslice, -⟩ := hfaithful _ (Array.mem_of_getElem? hself)
    exact ⟨_, _, _, hself, hslice, Or.inl rfl⟩
  | paren hself _ =>
    obtain ⟨inside, hslice⟩ := hfaithful _ (Array.mem_of_getElem? hself)
    exact ⟨_, _, inside, hself, hslice, Or.inr rfl⟩

/-- A container that holds a template is changed by an attribute value: if that is a container
too, it holds a string. -/
theorem changes_container (hfaithful : ∀ expr ∈ arena, expr.Faithful source arena)
    {texts : List String} {holes : List ExprId} {span inner : Span} {target : Target}
    {new : String} (hwraps : arena.Wraps id ⟨.template texts holes, inner⟩)
    (hvalue : (AttrValue.container span id).Faithful source arena) :
  (Replacement.mk target span (Literal.asAttribute new)).Changes source
  := by
  obtain ⟨inside, root, hslice, hroot, hstart⟩ := hvalue
  refine ⟨_, hslice, ?_⟩
  intro heq
  rw [Literal.asAttribute] at heq
  split_ifs at heq with hdouble hsingle
  · simp [Literal.inAttribute, Quote.char?] at heq
  · simp [Literal.inAttribute, Quote.char?] at heq
  · have hhead : inside.head? = some '"' := by
      have hbrace : "\x7b".toList = ['\x7b'] := rfl
      simp only [String.toList_append, hbrace, Literal.inCode, Literal.spell, Quote.char?,
        Option.getD_some, String.toList_ofList, List.cons_append, List.nil_append,
        List.cons.injEq, true_and] at heq
      rw [heq, List.head?_cons]
    obtain hstart | ⟨c, hc, hblank⟩ := hstart
    · obtain ⟨expr, c, text, hexpr, hslice', hc⟩ := exists_slice_of_wraps hfaithful hwraps
      have hspan : expr.span = root := by simpa [Arena.span?, hexpr] using hroot
      have hne : inside ≠ [] := by
        rintro rfl
        simp at hhead
      have hstart' : expr.span.start = span.start + Char.utf8Size '\x7b' := by
        rw [hspan, hstart]
        rfl
      rw [hslice'.head_eq hslice.tail hstart' hne, Option.some.injEq] at hhead
      subst hhead
      simp at hc
    · rw [hhead, Option.mem_some_iff] at hc
      subst hc
      simp [Scan.isSpacing] at hblank

theorem ofContainer_selects (htotal : settings.Total) (harena : arena.WellFormed)
    (hfaithful : ∀ expr ∈ arena, expr.Faithful source arena) {span : Span}
    (hwell : (AttrValue.container span id).WellFormed arena)
    (hvalue : (AttrValue.container span id).Faithful source arena) :
  Selects (·.Changes source) (ofContainer settings arena span id)
    ((AttrValue.container span id).sites arena)
  := by
  obtain ⟨root, hroot, -⟩ := hwell
  have hid := Arena.lt_size_of_span? hroot
  obtain ⟨expr, core, hexpr, hpeel, hcore, hwraps, hmem⟩ := exists_core harena hid
  have hcalls := ofCalls_selects htotal harena hfaithful hid
  have hleaves : (calledLeaves arena id).Subperm (arena.leaves id) := by
    apply List.Subperm.trans _ (argumentLeaf_append_calledLeaves harena hid)
    apply (List.sublist_append_right _ _).subperm
  simp only [ofContainer, hexpr, hpeel, Option.bind_eq_bind, Option.bind_some, AttrValue.sites,
    hcore, Option.any_some]
  obtain ⟨shape, inner⟩ := core
  cases hliteral : shape.isLiteral with
  | false =>
    have hstatic : shape.isStatic = false := by
      cases h : shape.isStatic with
      | false => rfl
      | true => simp [ExprShape.isLiteral_of_isStatic h] at hliteral
    simp only [classText?_eq_none hliteral, hstatic, Bool.false_eq_true, if_false]
    apply hcalls.mono hleaves
  | true =>
    obtain ⟨quote, value, rfl, htext⟩ | ⟨texts, rfl, htext⟩ := exists_classText hliteral
    · obtain ⟨revised, hrevised⟩ := htotal.exists_revised value
      simp only [htext, ClassText.text, hrevised, Option.bind_some, ExprShape.isStatic,
        ExprShape.staticText?, Option.isSome_none, Bool.false_eq_true, if_false]
      cases revised with
      | none => apply hcalls.mono hleaves
      | some new =>
        rw [Arena.leaves_of_wraps harena hwraps rfl]
        apply Selects.one (changes_string (hfaithful _ hmem) (Settings.ne_of_revised hrevised))
    · obtain ⟨revised, hrevised⟩ := htotal.exists_revised (String.join texts)
      simp only [htext, ClassText.text, hrevised, Option.bind_some, ExprShape.isStatic,
        ExprShape.staticText?, Option.isSome_some, if_true]
      cases revised with
      | none =>
        rw [calledLeaves_of_wraps harena hwraps rfl] at hcalls
        apply hcalls.mono List.nil_subperm
      | some new => apply Selects.one (changes_container hfaithful hwraps hvalue)

/-- A literal value is changed by another class list. -/
theorem changes_value {text : Literal} {new : String} {target : Target}
    (htext : text.Faithful source) (hne : new ≠ text.value) :
  (Replacement.mk target text.span (Literal.inAttribute text.quote new)).Changes source
  := by
  refine ⟨_, htext.slice, ?_⟩
  intro heq
  apply hne
  have heq := String.toList_inj.mp heq
  rw [Literal.inAttribute, Literal.inAttribute] at heq
  cases hquote : text.quote.char? with
  | none => simpa [hquote] using heq.symm
  | some q =>
    simp only [hquote, String.ofList_inj, List.cons_append, List.cons.injEq, true_and,
      List.append_cancel_right_eq, String.toList_inj] at heq
    apply heq.symm

theorem ofValue_selects (htotal : settings.Total) (harena : arena.WellFormed)
    (hfaithful : ∀ expr ∈ arena, expr.Faithful source arena) {value : AttrValue}
    (hwell : value.WellFormed arena) (hvalue : value.Faithful source arena) :
  Selects (·.Changes source) (ofValue settings arena value) (value.sites arena)
  := by
  cases value with
  | literal text =>
    obtain ⟨revised, hrevised⟩ := htotal.exists_revised text.value
    simp only [ofValue, hrevised, Option.bind_eq_bind, Option.bind_some]
    cases revised with
    | none => apply Selects.none
    | some new => apply Selects.one (changes_value hvalue (Settings.ne_of_revised hrevised))
  | container span id => apply ofContainer_selects htotal harena hfaithful hwell hvalue

/-! ### Attributes -/

/-- The replacement lies in the value of a target attribute, and changes the source. -/
def InTarget (settings : Settings) (attr : Attribute) (replacement : Replacement) : Prop :=
  settings.isTarget attr.name = true ∧
    ∃ value, attr.value = some value ∧ value.span.contains replacement.span = true

theorem ofAttribute_selects (htotal : settings.Total) (harena : arena.WellFormed)
    (hfaithful : ∀ expr ∈ arena, expr.Faithful source arena) {attr : Attribute}
    (hwell : attr.WellFormed arena) (hattr : attr.Faithful source arena) :
  Selects (fun replacement => replacement.Changes source ∧ InTarget settings attr replacement)
    (ofAttribute settings arena attr) (attr.sites arena)
  := by
  rw [ofAttribute]
  split
  · next htarget =>
    cases hvalue : attr.value with
    | none => apply Selects.none
    | some value =>
      have hvalue' := hwell.value value hvalue
      have hsites : attr.sites arena = value.sites arena := by
        simp [Attribute.sites, hvalue]
      rw [hsites]
      apply (ofValue_selects htotal harena hfaithful hvalue' (hattr.value value hvalue)).imp
      intro replacement hspan hchanges
      obtain ⟨hstart, hstop⟩ := AttrValue.sites_within harena hvalue' hspan
      refine ⟨hchanges, htarget, value, hvalue, ?_⟩
      simp [Span.contains, hstart, hstop]
  · apply Selects.none

/-- The replacements in well-formed markup that is faithful to a source. -/
theorem ofMarkup_selects (htotal : settings.Total) {markup : Markup}
    (harena : markup.arena.WellFormed)
    (helements : ∀ element ∈ markup.elements, element.WellFormed markup.arena)
    (hfaithful : ∀ expr ∈ markup.arena, expr.Faithful source markup.arena)
    (hvalues : ∀ element ∈ markup.elements, element.Faithful source markup.arena) :
  Selects
    (fun replacement => replacement.Changes source ∧ ∃ element ∈ markup.elements,
      ∃ attr ∈ element.attributes, InTarget settings attr replacement)
    (ofMarkup settings markup) (markup.elements.flatMap (Element.sites markup.arena))
  := by
  have hsites : markup.elements.flatMap (Element.sites markup.arena) =
      (markup.elements.flatMap Element.attributes).flatMap (Attribute.sites markup.arena) :=
    List.flatMap_assoc.symm
  rw [hsites]
  apply Selects.flatten
  intro attr hattr
  obtain ⟨element, helement, hattr⟩ := List.mem_flatMap.mp hattr
  have hattr' := (helements element helement).attrs attr hattr
  apply (ofAttribute_selects htotal harena hfaithful hattr'
    ((hvalues element helement).attr attr hattr)).imp
  rintro replacement - ⟨hchanges, htarget⟩
  use hchanges, element, helement, attr, hattr

/-- The replacements in markup are those in its attributes. -/
theorem eq_of_ofMarkup {markup : Markup} {found : List Replacement}
    (h : ofMarkup settings markup = some found) :
  found = (markup.elements.flatMap Element.attributes).flatMap fun attr =>
    (ofAttribute settings markup.arena attr).getD []
  := by
  rw [ofMarkup, Option.bind_eq_bind, Option.bind_eq_some_iff] at h
  obtain ⟨lists, hlists, heq⟩ := h
  rw [← flatten_of_mapM hlists]
  apply (Option.some.inj heq).symm

end Selection

end UtilityClasses
