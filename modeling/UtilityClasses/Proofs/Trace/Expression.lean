import UtilityClasses.Proofs.Scan.Order
import UtilityClasses.Proofs.Trace.Code

/-!
# Expressions as moves

The scan of an expression is made of moves if the scans of the constructs inside it are. It
leaves one node on the stack.
-/

namespace UtilityClasses.Scan

variable {context : Context} {s t s' : State} {node node' node'' : Node}

/-! ### Reading and extending -/

/-- The scan passes over nothing but blanks and comments. -/
def State.Skips (s t : State) : Prop :=
  ∃ count, t = s.after count ∧ IsTrivia (s.rest.take count)

theorem State.skips_trivia {count : Nat} (h : trivia s.rest = .closed count) :
  s.Skips (s.after count)
  := ⟨count, rfl, IsTrivia.of_trivia h⟩

theorem State.Skips.refl (s : State) :
  s.Skips s
  := by
  use 0, by simp
  simpa using IsTrivia.nil

theorem State.Skips.trans (h : s.Skips t) (h' : t.Skips s') :
  s.Skips s'
  := by
  obtain ⟨count, rfl, htrivia⟩ := h
  obtain ⟨count', rfl, htrivia'⟩ := h'
  use count + count', State.after_after s count count'
  rw [List.take_add]
  apply htrivia.append htrivia'

theorem Reads.of_skips (h : s.Skips t) (h' : Reads t node s') :
  Reads s node s'
  := by
  obtain ⟨count, rfl, htrivia⟩ := h
  constructor
  · intro stack
    apply (Steps.pass s stack count).trans (h'.steps stack)
  · apply h'.holds.of_covers (s.covers_take count) htrivia
  · apply h'.literal

theorem Reads.skip (h : Reads s node t) (h' : t.Skips s') :
  Reads s node s'
  := by
  obtain ⟨count, rfl, htrivia⟩ := h'
  constructor
  · intro stack
    apply (h.steps stack).tail (.pass t _ count)
  · apply h.holds.trans_covers (t.covers_take count) htrivia
  · apply h.literal

/-- What is left on the stack ends where the scan stands. -/
theorem Steps.ends {stack stack' : List Loose} {span : Span} (h : Steps (s, stack) (t, stack'))
    (hstop : span.stop = t.pos) :
  s.Ends span t
  := by
  obtain ⟨text, hcovers⟩ := h.exists_covers
  apply hcovers.ends hstop

/-- An expression is stored when its parts lie on the stack. -/
theorem Reads.store {items : List Loose} {shape : ExprShape} {span : Span}
    (hsteps : ∀ stack, Steps (s, stack) (t, items ++ stack)) (hforms : Forms t items shape span)
    (hstart : span.start = s.pos) (hstop : span.stop = t.pos ∨ s.Ends span t)
    (hparen : shape.isParen = false)
    (hliteral : t.elements = s.elements ∨ shape.isLiteral = false) :
  Reads s ⟨t.arena.size, span⟩ { t with arena := t.arena.push ⟨shape, span⟩ }
  where
  steps stack := (hsteps stack).tail (.node stack hforms)
  holds := by
    obtain ⟨inside, gap, ⟨hrest, hpos⟩, hends⟩ := hstop.elim (Steps.ends (hsteps [])) id
    apply State.Ends.holds _ hstart
    exact ⟨inside, gap, ⟨hrest, hpos⟩, hends⟩
  literal := hliteral.imp id (Arena.wrapsOther_push_self hparen)

/-- The moves that put a longer expression in the place of one that has been read. -/
structure Extends (s : State) (node : Node) (s' : State) (node' : Node) : Prop where
  steps (stack : List Loose) : Steps (s, .node node :: stack) (s', .node node' :: stack)
  start (h : Ordered (s, [.node node])) : node'.span.start = node.span.start
  ends (h : Ordered (s, [.node node])) : s.Ends node'.span s'
  other : s'.arena.WrapsOther node'.id

/-- The moves after which an expression that has been read is left as it is, or a longer one
is in its place. -/
inductive Continues (s : State) (node : Node) (s' : State) : Node → Prop
  | stay (h : s.Skips s') : Continues s node s' node
  | extend {node' : Node} (h : Extends s node s' node') : Continues s node s' node'

/-- Text may be passed before an expression is extended. -/
theorem Extends.of_after {count : Nat} (h : Extends (s.after count) node s' node') :
  Extends s node s' node'
  where
  steps stack := (Steps.pass s _ count).trans (h.steps stack)
  start hnode := h.start ((Steps.pass s _ count).ordered hnode)
  ends hnode := (h.ends ((Steps.pass s _ count).ordered hnode)).of_covers (s.covers_take count)
  other := h.other

theorem Extends.trans (h : Extends s node t node') (h' : Continues t node' s' node'') :
  Extends s node s' node''
  := by
  cases h' with
  | stay h' =>
    obtain ⟨count, rfl, htrivia⟩ := h'
    constructor
    · intro stack
      apply (h.steps stack).tail (.pass t _ count)
    · apply h.start
    · intro hnode
      obtain ⟨inside, gap, hcovers, hstop, hgap⟩ := h.ends hnode
      refine ⟨inside, gap ++ t.rest.take count, ?_, hstop, hgap.append htrivia⟩
      simpa using hcovers.trans (t.covers_take count)
    · apply h.other
  | extend h' =>
    obtain ⟨text, hcovers⟩ := (h.steps []).exists_covers
    constructor
    · intro stack
      apply (h.steps stack).trans (h'.steps stack)
    · intro hnode
      apply (h'.start ((h.steps []).ordered hnode)).trans (h.start hnode)
    · intro hnode
      apply (h'.ends ((h.steps []).ordered hnode)).of_covers hcovers
    · apply h'.other

/-- Blanks and comments may be passed first. -/
theorem Continues.of_skips (h : s.Skips t) (h' : Continues t node s' node') :
  Continues s node s' node'
  := by
  cases h' with
  | stay h' => apply Continues.stay (h.trans h')
  | extend h' =>
    obtain ⟨count, rfl, -⟩ := h
    apply Continues.extend h'.of_after

theorem Continues.trans (h : Continues s node t node') (h' : Continues t node' s' node'') :
  Continues s node s' node''
  := by
  cases h with
  | stay h => apply h'.of_skips h
  | extend h => apply Continues.extend (h.trans h')

/-- An expression that has been read lies before the place where the scan stands. -/
theorem Reads.ordered (h : Reads s node s') :
  Ordered (s', [.node node])
  := (h.steps []).ordered (Nat.zero_le _)

theorem Reads.extend (h : Reads s node t) (h' : Extends t node s' node') :
  Reads s node' s'
  where
  steps stack := (h.steps stack).trans (h'.steps stack)
  holds := h.holds.extend (h'.ends h.ordered) (h'.start h.ordered)
  literal := .inr h'.other

theorem Reads.continue (h : Reads s node t) (h' : Continues t node s' node') :
  Reads s node' s'
  := by
  cases h' with
  | stay h' => apply h.skip h'
  | extend h' => apply h.extend h'

/-- A longer expression is stored when its parts lie on the stack. -/
theorem Extends.store {items : List Loose} {shape : ExprShape} {span : Span}
    (hsteps : ∀ stack, Steps (s, .node node :: stack) (t, items ++ stack))
    (hforms : Forms t items shape span)
    (hstart : Ordered (s, [.node node]) → span.start = node.span.start)
    (hstop : Ordered (s, [.node node]) → span.stop = t.pos ∨ s.Ends span t)
    (hparen : shape.isParen = false) (hliteral : shape.isLiteral = false) :
  Extends s node { t with arena := t.arena.push ⟨shape, span⟩ } ⟨t.arena.size, span⟩
  where
  steps stack := (hsteps stack).tail (.node stack hforms)
  start := hstart
  ends hnode := by
    obtain ⟨inside, gap, ⟨hrest, hpos⟩, hends⟩ := (hstop hnode).elim (Steps.ends (hsteps [])) id
    exact ⟨inside, gap, ⟨hrest, hpos⟩, hends⟩
  other := Arena.wrapsOther_push_self hparen hliteral

/-- Expressions that have been read one after the other end one after the other. -/
theorem Reads.stop_le (h : Reads s node s') :
  s.pos ≤ node.span.start ∧ node.span.start ≤ node.span.stop ∧ node.span.stop ≤ s'.pos
  := by
  obtain ⟨first, inside, last, hcovers, -, -, hstart, hstop⟩ := h.holds
  obtain ⟨hspan, hle⟩ := h.ordered.top
  refine ⟨?_, hspan, hle⟩
  rw [hstart]
  apply Nat.le_add_right

/-- The span from an expression to one that is read after it. -/
theorem Reads.merge {right : Node} (h : Reads s right t) (hnode : Ordered (s, [.node node])) :
  node.span.merge right.span = ⟨node.span.start, right.span.stop⟩
  := by
  obtain ⟨hstart, hspan, -⟩ := h.stop_le
  obtain ⟨hnode, hle⟩ := hnode.top
  have hnode : node.span.start ≤ node.span.stop := hnode
  have hle : node.span.stop ≤ s.pos := hle
  simp only [Span.merge, Span.mk.injEq]
  omega

/-! ### Operands -/

theorem stringNode_reads {quote : Quote} {delimiter : Char}
    (hquote : quote.char? = some delimiter) (hopening : s.rest.head? = some delimiter)
    (h : Runs (stringNode quote delimiter) s node s') :
  Reads s node s'
  := by
  simp only [stringNode, runs_bind, runs_store] at h
  obtain ⟨⟨body, span⟩, t, hstring, rfl, rfl⟩ := h
  obtain ⟨htext, rfl, rfl⟩ := runs_stringLiteral hstring hopening
  have hsteps : ∀ stack, Steps (s, stack) (s.after (body.length + 2), [.mark s] ++ stack) := by
    intro stack
    apply Relation.ReflTransGen.head (.mark s stack)
    apply Steps.pass
  apply Reads.store hsteps (.string hquote htext rfl) rfl (.inl rfl) rfl (.inl rfl)

/-- The scan stands in a template, behind texts and holes that lie on the stack. -/
def InTemplate (opening : State) (items : List Loose) (texts : List String) (holes : List ExprId)
    (s : State) : Prop :=
  ∃ passed, opening.Covers ('\x60' :: passed) s ∧ Holes (opening.pos + 1) passed items texts holes

section InTemplate

variable {opening : State} {items : List Loose} {texts : List String} {holes : List ExprId}
  {body : List Char}

/-- Where a text starts that comes after the quote and what has been passed. -/
theorem State.Covers.pos_eq {passed : List Char} (h : opening.Covers ('\x60' :: passed) s) :
  s.pos = opening.pos + 1 + Text.byteSize passed
  := by
  rw [h.pos, Text.byteSize, Nat.add_assoc]
  rfl

/-- The quote at the end of a text ends the template. -/
theorem InTemplate.forms (h : InTemplate opening items texts holes s)
    (hplain : templateText body = body.length) (hbody : s.Covers (body ++ ['\x60']) t)
    (helements : holes = [] → t.elements = opening.elements) :
  Forms t (.text s.pos body :: items ++ [.mark opening])
    (.template (texts ++ [String.ofList (Literal.decode body)]) holes) ⟨opening.pos, t.pos⟩
  := by
  obtain ⟨passed, hcovers, hholes⟩ := h
  rw [hcovers.pos_eq]
  have hall := (hcovers.trans hbody).rest
  refine .template ?_ hholes hplain helements
  simpa using hall

/-- A text and a hole after it belong to the template. -/
theorem InTemplate.hole {hole : Node} (h : InTemplate opening items texts holes s)
    (hplain : templateText body = body.length) (hbody : s.Covers (body ++ ['$', '\x7b']) t)
    (hhole : t.Holds hole s') (hclosing : s'.rest.head? = some '\x7d') :
  InTemplate opening (.node hole :: .text s.pos body :: items)
    (texts ++ [String.ofList (Literal.decode body)]) (holes ++ [hole.id]) (s'.after 1)
  := by
  obtain ⟨passed, hcovers, hholes⟩ := h
  obtain ⟨first, inside, last, hinside, hfirst, hlast, hstart, hstop⟩ := hhole
  obtain ⟨later, hlater⟩ := List.head?_eq_some_iff.mp hclosing
  have hbrace : s'.Covers ['\x7d'] (s'.after 1) := State.covers_length hlater
  have hplace : hole.span.start =
      opening.pos + 1 + Text.byteSize (passed ++ (body ++ '$' :: '\x7b' :: first)) := by
    rw [hstart, hbody.pos, hcovers.pos_eq]
    simp only [Text.byteSize_append, Text.byteSize]
    omega
  rw [hcovers.pos_eq]
  refine ⟨_, ?_, .more hholes hplain hfirst hlast hplace hstop⟩
  simpa using (hcovers.trans hbody).trans (hinside.trans hbrace)

/-- The text of a template up to a hole or to its end is put on the stack. -/
theorem Steps.templateText (s : State) (stack : List Loose) :
  Steps (s, stack) (s.after (templateText s.rest),
    .text s.pos (s.rest.take (Scan.templateText s.rest)) :: stack)
  := by
  have hmove := Move.text stack (List.take_append_drop (Scan.templateText s.rest) s.rest).symm
  rw [State.after_length_take] at hmove
  apply Relation.ReflTransGen.single hmove

theorem templateFrom_steps (hnested : context.nested.Traced) {budget : Nat}
    (hin : InTemplate opening items texts holes s)
    (helements : holes = [] → s.elements = opening.elements)
    (h : Runs (templateFrom context opening.pos budget texts holes) s node s') :
  (∀ stack, Steps (s, items ++ .mark opening :: stack) (s', .node node :: stack)) ∧
    node.span = ⟨opening.pos, s'.pos⟩ ∧
    ((holes = [] ∧ s'.elements = s.elements) ∨ s'.arena.WrapsOther node.id)
  := by
  induction budget generalizing s texts holes items with
  | zero => simp [templateFrom] at h
  | succ budget ih =>
    simp only [templateFrom, runs_bind, runs_rest, runs_take, and_assoc, exists_and_left,
      exists_eq_left] at h
    have hplain := templateText_take s.rest
    have hcovers := s.covers_take (templateText s.rest)
    split at h
    · next later hrest =>
      simp only [runs_bind, runs_skip, runs_spanFrom, runs_store, and_assoc, exists_and_left,
        exists_eq_left, exists_const] at h
      obtain ⟨rfl, rfl⟩ := h
      have hquote : (s.after (templateText s.rest)).Covers ['\x60']
          ((s.after (templateText s.rest)).after 1) := State.covers_length hrest
      have hforms := hin.forms hplain (hcovers.trans hquote) helements
      refine ⟨?_, rfl, ?_⟩
      · intro stack
        apply (Steps.templateText s _).trans
        apply Relation.ReflTransGen.head (.pass _ _ 1)
        apply Relation.ReflTransGen.single
        simpa using Move.node stack hforms
      · cases holes with
        | nil => apply Or.inl ⟨rfl, rfl⟩
        | cons => apply Or.inr (Arena.wrapsOther_push_self rfl rfl)
    · simp at h
    · next hquote hend =>
      simp only [runs_bind, runs_skip, runs_rest, and_assoc, exists_and_left,
        exists_eq_left, exists_const] at h
      obtain ⟨hole, t, hregion, h⟩ := h
      have hreads := hnested.region hregion
      obtain ⟨later, hlater⟩ : ∃ later, (s.after (templateText s.rest)).rest =
          '$' :: '\x7b' :: later := by
        obtain hnil | hhead | hhole := drop_templateText s.rest
        · exact (hend hnil).elim
        · obtain ⟨later, hlater⟩ := List.head?_eq_some_iff.mp hhead
          exact (hquote later hlater).elim
        · apply hhole
      have hdollar : (s.after (templateText s.rest)).Covers ['$', '\x7b']
          ((s.after (templateText s.rest)).after 2) := State.covers_length hlater
      split at h
      · next hclosing =>
        simp only [runs_bind, runs_skip, exists_eq_left, exists_const] at h
        have hmore := hin.hole hplain (hcovers.trans hdollar) hreads.holds hclosing
        obtain ⟨hsteps, hspan, hliteral⟩ := ih hmore (by simp) h
        refine ⟨?_, hspan, ?_⟩
        · intro stack
          apply (Steps.templateText s _).trans
          apply Relation.ReflTransGen.head (.pass _ _ 2)
          apply (hreads.steps _).trans
          apply Relation.ReflTransGen.head (.pass _ _ 1)
          apply hsteps stack
        · obtain ⟨hnil, -⟩ | hother := hliteral
          · simp at hnil
          · apply Or.inr hother
      · simp at h

end InTemplate

theorem templateNode_reads (hnested : context.nested.Traced)
    (hopening : s.rest.head? = some '\x60') (h : Runs (templateNode context) s node s') :
  Reads s node s'
  := by
  simp only [templateNode, runs_bind, runs_position, runs_skip, and_assoc, exists_and_left,
    exists_eq_left, exists_const] at h
  obtain ⟨text, htext⟩ := List.head?_eq_some_iff.mp hopening
  have hquote : s.Covers ['\x60'] (s.after 1) := State.covers_length htext
  obtain ⟨hsteps, hspan, hliteral⟩ :=
    templateFrom_steps hnested ⟨[], hquote, .none⟩ (fun _ => rfl) h
  have hall : ∀ stack, Steps (s, stack) (s', .node node :: stack) := by
    intro stack
    apply Relation.ReflTransGen.head (.mark s stack)
    apply Relation.ReflTransGen.head (.pass s _ 1)
    apply hsteps stack
  constructor
  · apply hall
  · apply State.Ends.holds (Steps.ends (hall []) _) <;> rw [hspan]
  · obtain ⟨-, helements⟩ | hother := hliteral
    · apply Or.inl helements
    · apply Or.inr hother

theorem parenNode_reads (hnested : context.nested.Traced)
    (hopening : s.rest.head? = some '(') (h : Yields (parenNode context) s node s') :
  Reads s node s'
  := by
  simp only [parenNode, yields_bind, yields_lift, yields_guard, runs_position, runs_skip,
    runs_skipTrivia, runs_rest, runs_spanFrom, runs_store, and_assoc, exists_and_left,
    exists_eq_left, exists_const] at h
  obtain ⟨_, ⟨before, _, rfl⟩, inner, t, hinner, _, ⟨after, _, rfl⟩, hparen, rfl, rfl⟩ := h
  have hreads := hnested.expression hinner
  have hclosing : ')' :: ((t.after after).after 1).rest <:+ s.rest.tail := by
    obtain ⟨later, hlater⟩ := List.head?_eq_some_iff.mp hparen
    have hsuffix : (t.after after).rest <:+ s.rest.tail := by
      apply (List.drop_suffix after t.rest).trans
      apply (hreads.steps []).suffix.trans
      rw [State.after_rest, State.after_rest, List.drop_one]
      apply List.drop_suffix
    rw [State.after_rest _ 1, hlater]
    rw [hlater] at hsuffix
    apply hsuffix
  have hsteps : ∀ stack, Steps (s, stack)
      ((t.after after).after 1, .node inner :: .mark s :: stack) := by
    intro stack
    apply Relation.ReflTransGen.head (.mark s stack)
    apply Relation.ReflTransGen.head (.pass _ _ 1)
    apply Relation.ReflTransGen.head (.pass _ _ before)
    apply (hreads.steps _).trans
    apply Relation.ReflTransGen.head (.pass _ _ after)
    apply Steps.pass
  have hforms := Forms.paren inner hopening hclosing
  constructor
  · intro stack
    apply (hsteps stack).tail (.node stack hforms)
  · apply State.Ends.holds (Steps.ends ((hsteps []).tail (.node [] hforms)) rfl) rfl
  · apply hreads.literal.imp id
    rintro ⟨expr, hwraps, hliteral⟩
    use expr, .paren Array.getElem?_push_size hwraps.push, hliteral

/-- One more item of a list of regions, which ends after it or goes on. -/
theorem nextItem_steps (hnested : context.nested.Traced) {stops : List Char}
    {nodes : List Node} {item : Node} {p : Prop} [Decidable p] {items : List ExprId}
    {more : List ExprId → Attempt (List ExprId)}
    (hregion : Runs (context.nested.region stops) s item t)
    (hmore : ∀ {s} {nodes : List Node}, Yields (more (nodes.map Node.id)) s items s' →
      ∃ nodes' : List Node, items = nodes'.map Node.id ∧
        ∀ stack, Steps (s, nodes.reverse.map .node ++ stack)
          (s', nodes'.reverse.map .node ++ stack))
    (h : Yields (if p then more (nodes.map Node.id ++ [item.id])
      else pure (nodes.map Node.id ++ [item.id])) (t.after 1) items s') :
  ∃ nodes' : List Node, items = nodes'.map Node.id ∧
    ∀ stack, Steps (s, nodes.reverse.map .node ++ stack)
      (s', nodes'.reverse.map .node ++ stack)
  := by
  have hreads := hnested.region hregion
  have hitem : nodes.map Node.id ++ [item.id] = (nodes ++ [item]).map Node.id := by simp
  have hsteps : ∀ stack, Steps (s, nodes.reverse.map .node ++ stack)
      (t.after 1, (nodes ++ [item]).reverse.map .node ++ stack) := by
    intro stack
    simpa using (hreads.steps (nodes.reverse.map .node ++ stack)).tail (.pass t _ 1)
  rw [hitem] at h
  split at h
  · obtain ⟨nodes', hitems, hrest⟩ := hmore h
    use nodes', hitems
    intro stack
    apply (hsteps stack).trans (hrest stack)
  · obtain ⟨rfl, rfl⟩ := yields_pure.mp h
    use nodes ++ [item], rfl, hsteps

theorem arrayItems_steps (hnested : context.nested.Traced) {budget : Nat} (nodes : List Node)
    {items : List ExprId}
    (h : Yields (arrayItems context budget (nodes.map Node.id)) s items s') :
  ∃ nodes' : List Node, items = nodes'.map Node.id ∧
    ∀ stack, Steps (s, nodes.reverse.map .node ++ stack)
      (s', nodes'.reverse.map .node ++ stack)
  := by
  induction budget generalizing s nodes with
  | zero => simp [arrayItems] at h
  | succ budget ih =>
    simp only [arrayItems, yields_bind, yields_lift, runs_skipTrivia, runs_rest, and_assoc,
      exists_and_left, exists_eq_left, exists_const] at h
    obtain ⟨_, ⟨before, _, rfl⟩, h⟩ := h
    split at h
    · simp only [yields_bind, yields_lift, yields_pure, runs_skip, exists_eq_left,
        exists_const] at h
      obtain ⟨rfl, rfl⟩ := h
      use nodes, rfl
      intro stack
      apply Relation.ReflTransGen.head (.pass s _ before)
      apply Steps.pass
    · split at h
      · simp only [yields_bind, yields_lift, runs_skip, exists_eq_left, exists_const] at h
        obtain ⟨nodes', hitems, hsteps⟩ := ih nodes h
        use nodes', hitems
        intro stack
        apply Relation.ReflTransGen.head (.pass s _ before)
        apply Relation.ReflTransGen.head (.pass _ _ 1)
        apply hsteps stack
      · simp only [yields_bind, yields_lift, yields_guard, runs_rest, runs_skip, and_assoc,
          exists_and_left, exists_eq_left, exists_const] at h
        obtain ⟨item, t, hregion, -, h⟩ := h
        obtain ⟨nodes', hitems, hsteps⟩ := nextItem_steps hnested hregion (ih _) h
        use nodes', hitems
        intro stack
        apply Relation.ReflTransGen.head (.pass s _ before)
        apply hsteps stack

theorem arrayNode_reads (hnested : context.nested.Traced)
    (h : Yields (arrayNode context) s node s') :
  Reads s node s'
  := by
  simp only [arrayNode, yields_bind, yields_lift, runs_position, runs_skip, runs_spanFrom,
    runs_store, and_assoc, exists_and_left, exists_eq_left, exists_const] at h
  obtain ⟨_, t, hitems, rfl, rfl⟩ := h
  obtain ⟨nodes, rfl, hsteps⟩ := arrayItems_steps hnested [] hitems
  apply Reads.store _ (.array s nodes) rfl (.inl rfl) rfl (.inr rfl)
  intro stack
  apply Relation.ReflTransGen.head (.mark s stack)
  apply Relation.ReflTransGen.head (.pass s _ 1)
  simpa using hsteps (.mark s :: stack)

/-- An operand that is read as it stands. -/
theorem Reads.verbatim (h : ∀ stack, Steps (s, stack) (t, stack)) :
  Reads s ⟨t.arena.size, ⟨s.pos, t.pos⟩⟩
    { t with arena := t.arena.push ⟨.verbatim, ⟨s.pos, t.pos⟩⟩ }
  := by
  apply Reads.store _ (.verbatim s) rfl (.inl rfl) rfl (.inr rfl)
  intro stack
  apply Relation.ReflTransGen.head (.mark s stack)
  apply h

theorem primary_reads (hnested : context.nested.Traced)
    (h : Yields (primary context) s node s') :
  Reads s node s'
  := by
  simp only [primary, yields_bind, yields_lift, runs_position, runs_rest, and_assoc,
    exists_and_left, exists_eq_left] at h
  split at h
  · simp at h
  · next c later hrest =>
    have hopening : s.rest.head? = some c := by simp [hrest]
    split_ifs at h with hdouble hsingle htemplate hparen harray hbrace helement hdigit hname
    · apply stringNode_reads (by simp [Quote.char?, hdouble]) hopening (yields_lift.mp h)
    · apply stringNode_reads (by simp [Quote.char?, hsingle]) hopening (yields_lift.mp h)
    · subst htemplate
      apply templateNode_reads hnested hopening (yields_lift.mp h)
    · subst hparen
      apply parenNode_reads hnested hopening h
    · apply arrayNode_reads hnested h
    · simp only [yields_bind, yields_lift, runs_spanFrom, runs_store, and_assoc,
        exists_and_left, exists_eq_left] at h
      obtain ⟨_, t, hbraced, rfl, rfl⟩ := h
      apply Reads.verbatim (braced_steps hnested hbraced)
    · simp only [yields_bind, yields_lift, yields_guard, runs_spanFrom, runs_store, and_assoc,
        exists_and_left, exists_eq_left, exists_const] at h
      obtain ⟨_, t, helement, -, rfl, rfl⟩ := h
      apply Reads.verbatim (element_steps hnested helement)
    · simp only [yields_bind, yields_lift, yields_discard, runs_takeWhile, runs_spanFrom,
        runs_store, and_assoc, exists_and_left, exists_eq_left, exists_const] at h
      obtain ⟨rfl, rfl⟩ := h
      apply Reads.verbatim
      intro stack
      apply Steps.pass
    · simp only [yields_bind, yields_lift, yields_guard, runs_takeWhile, runs_spanFrom,
        runs_store, and_assoc, exists_and_left, exists_eq_left, exists_const] at h
      obtain ⟨-, rfl, rfl⟩ := h
      have htext : s.rest = s.rest.takeWhile isNameChar
          ++ (s.after (s.rest.takeWhile isNameChar).length).rest := by
        rw [State.after_rest, drop_length_takeWhile, List.takeWhile_append_dropWhile]
      apply Reads.store _ (.ident htext) rfl (.inl rfl) rfl (.inr rfl)
      intro stack
      apply Relation.ReflTransGen.head (.mark s stack)
      apply Steps.pass
    · simp at h

/-! ### Member access, calls and indices -/

theorem propertyName_steps {property : String} (h : Yields propertyName s property s')
    (stack : List Loose) :
  Steps (s, stack) (s', stack)
  := by
  simp only [propertyName, yields_bind, yields_lift, yields_guard, yields_pure, runs_rest,
    runs_take, runs_takeWhile, and_assoc, exists_and_left, exists_eq_left, exists_const] at h
  obtain ⟨-, -, rfl⟩ := h
  apply Relation.ReflTransGen.head (.pass s stack _)
  apply Steps.pass

theorem memberNode_extends (h : Yields (memberNode node) s node' s') :
  Extends s node s' node'
  := by
  simp only [memberNode, yields_bind, yields_lift, runs_spanFrom, runs_store, and_assoc,
    exists_and_left, exists_eq_left] at h
  obtain ⟨property, t, hproperty, rfl, rfl⟩ := h
  apply Extends.store _ (.member node property) (fun _ => rfl) (fun _ => .inl rfl) rfl rfl
  intro stack
  apply propertyName_steps hproperty

theorem callArguments_steps (hnested : context.nested.Traced) {budget : Nat}
    (nodes : List Node) {args : List ExprId}
    (h : Yields (callArguments context budget (nodes.map Node.id)) s args s') :
  ∃ nodes' : List Node, args = nodes'.map Node.id ∧
    ∀ stack, Steps (s, nodes.reverse.map .node ++ stack)
      (s', nodes'.reverse.map .node ++ stack)
  := by
  induction budget generalizing s nodes with
  | zero => simp [callArguments] at h
  | succ budget ih =>
    simp only [callArguments, yields_bind, yields_lift, runs_skipTrivia, runs_rest, and_assoc,
      exists_and_left, exists_eq_left, exists_const] at h
    obtain ⟨_, ⟨before, _, rfl⟩, h⟩ := h
    split at h
    · simp only [yields_bind, yields_lift, yields_pure, runs_skip, exists_eq_left,
        exists_const] at h
      obtain ⟨rfl, rfl⟩ := h
      use nodes, rfl
      intro stack
      apply Relation.ReflTransGen.head (.pass s _ before)
      apply Steps.pass
    · simp only [yields_bind, yields_lift, yields_guard, runs_rest, runs_skip, and_assoc,
        exists_and_left, exists_eq_left, exists_const] at h
      obtain ⟨arg, t, hregion, -, h⟩ := h
      obtain ⟨nodes', hargs, hsteps⟩ := nextItem_steps hnested hregion (ih _) h
      use nodes', hargs
      intro stack
      apply Relation.ReflTransGen.head (.pass s _ before)
      apply hsteps stack

theorem callNode_extends (hnested : context.nested.Traced)
    (h : Yields (callNode context node) s node' s') :
  Extends s node s' node'
  := by
  simp only [callNode, yields_bind, yields_lift, runs_skip, runs_spanFrom, runs_store,
    and_assoc, exists_and_left, exists_eq_left, exists_const] at h
  obtain ⟨_, t, hargs, rfl, rfl⟩ := h
  obtain ⟨nodes, rfl, hsteps⟩ := callArguments_steps hnested [] hargs
  apply Extends.store _ (.call node nodes) (fun _ => rfl) (fun _ => .inl rfl) rfl rfl
  intro stack
  apply Relation.ReflTransGen.head (.pass s _ 1)
  simpa using hsteps (.node node :: stack)

theorem indexNode_extends (hnested : context.nested.Traced)
    (h : Yields (indexNode context node) s node' s') :
  Extends s node s' node'
  := by
  simp only [indexNode, yields_bind, yields_lift, yields_discard, yields_guard, runs_skip,
    runs_rest, runs_spanFrom, runs_store, and_assoc, exists_and_left, exists_eq_left,
    exists_const] at h
  obtain ⟨t, ⟨index, hregion⟩, -, rfl, rfl⟩ := h
  apply Extends.store _ (.index node index) (fun _ => rfl) (fun _ => .inl rfl) rfl rfl
  intro stack
  apply Relation.ReflTransGen.head (.pass s _ 1)
  apply ((hnested.region hregion).steps _).tail (.pass t _ 1)

theorem optionalNode_extends (hnested : context.nested.Traced)
    (h : Yields (optionalNode context node) s node' s') :
  Extends s node s' node'
  := by
  simp only [optionalNode, yields_bind, yields_lift, runs_rest, and_assoc, exists_and_left,
    exists_eq_left] at h
  split_ifs at h
  · apply callNode_extends hnested h
  · apply indexNode_extends hnested h
  · apply memberNode_extends h

theorem suffix?_continues (hnested : context.nested.Traced) {longer : Option Node}
    (h : Yields (suffix? context node) s longer s') :
  Continues s node s' (longer.getD node)
  := by
  simp only [suffix?, yields_bind, yields_lift, runs_rest, and_assoc, exists_and_left,
    exists_eq_left] at h
  split_ifs at h
  · simp only [yields_bind, yields_lift, yields_pure, runs_skip, runs_skipTrivia, exists_eq_left,
      exists_const] at h
    obtain ⟨_, ⟨gap, _, rfl⟩, node', _, hmember, rfl, rfl⟩ := h
    apply Continues.extend (memberNode_extends hmember).of_after.of_after
  · simp only [yields_bind, yields_lift, yields_pure, runs_skip, runs_skipTrivia, exists_eq_left,
      exists_const] at h
    obtain ⟨_, ⟨gap, _, rfl⟩, node', _, hoptional, rfl, rfl⟩ := h
    apply Continues.extend (optionalNode_extends hnested hoptional).of_after.of_after
  · simp only [yields_bind, yields_pure] at h
    obtain ⟨node', _, hcall, rfl, rfl⟩ := h
    apply Continues.extend (callNode_extends hnested hcall)
  · simp only [yields_bind, yields_pure] at h
    obtain ⟨node', _, hindex, rfl, rfl⟩ := h
    apply Continues.extend (indexNode_extends hnested hindex)
  · simp only [yields_bind, yields_lift, yields_pure, runs_skip, runs_spanFrom, runs_store,
      and_assoc, exists_and_left, exists_eq_left, exists_const] at h
    obtain ⟨rfl, rfl⟩ := h
    apply Continues.extend
    apply Extends.store _ (.asserted node) (fun _ => rfl) (fun _ => .inl rfl) rfl rfl
    intro stack
    apply Steps.pass
  · obtain ⟨rfl, rfl⟩ := yields_pure.mp h
    apply Continues.stay (State.Skips.refl s')

theorem suffixes_continues (hnested : context.nested.Traced) {budget : Nat}
    (h : Yields (suffixes context budget node) s node' s') :
  Continues s node s' node'
  := by
  induction budget generalizing s node with
  | zero => simp [suffixes] at h
  | succ budget ih =>
    simp only [suffixes, yields_bind, yields_lift, runs_skipTrivia, exists_const] at h
    obtain ⟨_, ⟨gap, hgap, rfl⟩, longer, t, hsuffix, h⟩ := h
    have hcontinues := (suffix?_continues hnested hsuffix).of_skips (State.skips_trivia hgap)
    cases longer with
    | none =>
      obtain ⟨rfl, rfl⟩ := yields_pure.mp h
      apply hcontinues
    | some longer => apply hcontinues.trans (ih h)

/-- An operator and its operand, which is stored as one expression. -/
theorem Reads.store_behind {shape : ExprShape} {count gap : Nat} {inner : Node}
    (h : Reads ((s.after count).after gap) inner t)
    (hforms : Forms t [.node inner, .mark s] shape ⟨s.pos, inner.span.stop⟩)
    (hparen : shape.isParen = false) (hliteral : shape.isLiteral = false) :
  Reads s ⟨t.arena.size, ⟨s.pos, inner.span.stop⟩⟩
    { t with arena := t.arena.push ⟨shape, ⟨s.pos, inner.span.stop⟩⟩ }
  := by
  have hends := (h.holds.ends.of_covers (State.covers_take _ gap)).of_covers (s.covers_take count)
  apply Reads.store _ hforms rfl (.inr hends) hparen (.inr hliteral)
  intro stack
  apply Relation.ReflTransGen.head (.mark _ stack)
  apply Relation.ReflTransGen.head (.pass _ _ count)
  apply Relation.ReflTransGen.head (.pass _ _ gap)
  apply h.steps

theorem operand_reads (hnested : context.nested.Traced)
    (h : Yields (operand context) s node s') :
  Reads s node s'
  := by
  simp only [operand, yields_bind, yields_lift, runs_skipTrivia, runs_position, runs_rest,
    and_assoc, exists_and_left, exists_eq_left, exists_const] at h
  obtain ⟨_, ⟨gap, hgap, rfl⟩, h⟩ := h
  apply Reads.of_skips (State.skips_trivia hgap)
  split_ifs at h
  · simp only [yields_bind, yields_lift, runs_skip, runs_skipTrivia, runs_store, exists_eq_left,
      exists_const] at h
    obtain ⟨_, ⟨inside, _, rfl⟩, inner, t, hinner, rfl, rfl⟩ := h
    apply (hnested.operand hinner).store_behind (.spread _ inner) rfl rfl
  · simp only [yields_bind, yields_lift, runs_skip, runs_skipTrivia, runs_store, exists_eq_left,
      exists_const] at h
    obtain ⟨_, ⟨inside, _, rfl⟩, inner, t, hinner, rfl, rfl⟩ := h
    apply (hnested.operand hinner).store_behind (.unary _ inner) rfl rfl
  · simp only [yields_bind] at h
    obtain ⟨node', t, hprimary, hsuffixes⟩ := h
    apply (primary_reads hnested hprimary).continue (suffixes_continues hnested hsuffixes)

/-! ### Logical operators and conditionals -/

/-- An operator and its right operand extend the left one. -/
theorem storeLogical_extends {op : LogicalOp} {right : Node} {count gap : Nat}
    (hright : Reads ((s.after count).after gap) right t)
    (h : Runs (storeLogical op node right) t node' s') :
  Extends s node s' node'
  := by
  simp only [storeLogical, runs_store] at h
  obtain ⟨rfl, rfl⟩ := h
  have hpass : Steps (s, [.node node]) ((s.after count).after gap, [.node node]) :=
    (Steps.pass s _ count).trans (Steps.pass _ _ gap)
  have hmerge : Ordered (s, [.node node]) →
      node.span.merge right.span = ⟨node.span.start, right.span.stop⟩ :=
    fun hnode => hright.merge (hpass.ordered hnode)
  apply Extends.store _ (.logical op node right) _ _ rfl rfl
  · intro stack
    apply Relation.ReflTransGen.head (.pass s _ count)
    apply Relation.ReflTransGen.head (.pass _ _ gap)
    apply hright.steps
  · intro hnode
    rw [hmerge hnode]
  · intro hnode
    rw [hmerge hnode]
    right
    apply (hright.holds.ends.of_covers (State.covers_take _ gap)).of_covers (s.covers_take count)

theorem andChain_continues (hnested : context.nested.Traced) {budget : Nat}
    (h : Yields (andChain context budget node) s node' s') :
  Continues s node s' node'
  := by
  induction budget generalizing s node with
  | zero => simp [andChain] at h
  | succ budget ih =>
    simp only [andChain, yields_bind, yields_lift, runs_skipTrivia, runs_rest, and_assoc,
      exists_and_left, exists_eq_left, exists_const] at h
    obtain ⟨_, ⟨gap, hgap, rfl⟩, h⟩ := h
    apply Continues.of_skips (State.skips_trivia hgap)
    split at h
    · simp only [yields_bind, yields_lift, runs_skip, runs_skipTrivia, exists_eq_left,
        exists_const] at h
      obtain ⟨_, ⟨inside, _, rfl⟩, right, t, hright, longer, r, hstore, h⟩ := h
      apply Continues.extend
      apply (storeLogical_extends (operand_reads hnested hright) hstore).trans (ih h)
    · obtain ⟨rfl, rfl⟩ := yields_pure.mp h
      apply Continues.stay (State.Skips.refl _)

theorem conjunction_reads (hnested : context.nested.Traced)
    (h : Yields (conjunction context) s node s') :
  Reads s node s'
  := by
  simp only [conjunction, yields_bind] at h
  obtain ⟨node', t, hoperand, hchain⟩ := h
  apply (operand_reads hnested hoperand).continue (andChain_continues hnested hchain)

theorem orChain_continues (hnested : context.nested.Traced) {budget : Nat}
    (h : Yields (orChain context budget node) s node' s') :
  Continues s node s' node'
  := by
  induction budget generalizing s node with
  | zero => simp [orChain] at h
  | succ budget ih =>
    simp only [orChain, yields_bind, yields_lift, runs_skipTrivia, runs_rest, and_assoc,
      exists_and_left, exists_eq_left, exists_const] at h
    obtain ⟨_, ⟨gap, hgap, rfl⟩, h⟩ := h
    apply Continues.of_skips (State.skips_trivia hgap)
    split at h
    · simp only [yields_bind, yields_lift, runs_skip, runs_skipTrivia, exists_eq_left,
        exists_const] at h
      obtain ⟨_, ⟨inside, _, rfl⟩, right, t, hright, longer, r, hstore, h⟩ := h
      apply Continues.extend
      apply (storeLogical_extends (conjunction_reads hnested hright) hstore).trans (ih h)
    · obtain ⟨rfl, rfl⟩ := yields_pure.mp h
      apply Continues.stay (State.Skips.refl _)

theorem disjunction_reads (hnested : context.nested.Traced)
    (h : Yields (disjunction context) s node s') :
  Reads s node s'
  := by
  simp only [disjunction, yields_bind] at h
  obtain ⟨node', t, hconjunction, hchain⟩ := h
  apply (conjunction_reads hnested hconjunction).continue (orChain_continues hnested hchain)

theorem expression_reads (hnested : context.nested.Traced)
    (h : Yields (expression context) s node s') :
  Reads s node s'
  := by
  simp only [expression, yields_bind, yields_lift, runs_skipTrivia, runs_rest, and_assoc,
    exists_and_left, exists_eq_left, exists_const] at h
  obtain ⟨test, t, htest, _, ⟨gap, hgap, rfl⟩, h⟩ := h
  have hreads := disjunction_reads hnested htest
  split at h
  · simp only [yields_bind, yields_lift, yields_guard, runs_skip, runs_skipTrivia, runs_rest,
      runs_store, and_assoc, exists_and_left, exists_eq_left, exists_const] at h
    obtain ⟨_, ⟨first, _, rfl⟩, consequent, r, hconsequent, _, ⟨second, _, rfl⟩, -, _,
      ⟨third, _, rfl⟩, alternate, r', halternate, rfl, rfl⟩ := h
    have hfirst := hnested.expression hconsequent
    have hsecond := hnested.expression halternate
    -- up to the last part, with what is on the stack below
    have hbefore : ∀ stack, Steps (t, .node test :: stack)
        (((r.after second).after 1).after third, .node consequent :: .node test :: stack) := by
      intro stack
      apply Relation.ReflTransGen.head (.pass t _ gap)
      apply Relation.ReflTransGen.head (.pass _ _ 1)
      apply Relation.ReflTransGen.head (.pass _ _ first)
      apply (hfirst.steps _).trans
      apply Relation.ReflTransGen.head (.pass r _ second)
      apply Relation.ReflTransGen.head (.pass _ _ 1)
      apply Steps.pass
    have hmerge : test.span.merge alternate.span = ⟨test.span.start, alternate.span.stop⟩ := by
      apply hsecond.merge
      obtain ⟨middle, htest, hrow⟩ := (ordered_append [.node consequent]).mp
        ((hbefore []).ordered hreads.ordered)
      apply htest.mono_stop hrow.le
    obtain ⟨text, hcovers⟩ := (hbefore []).exists_covers
    apply hreads.extend
    have hforms : Forms r' _ _ _ := .conditional test consequent alternate
    rw [hmerge] at hforms ⊢
    apply Extends.store _ hforms (fun _ => rfl)
      (fun _ => .inr (hsecond.holds.ends.of_covers hcovers)) rfl rfl
    intro stack
    apply (hbefore stack).trans (hsecond.steps _)
  · obtain ⟨rfl, rfl⟩ := yields_pure.mp h
    apply hreads.skip (State.skips_trivia hgap)

/-! ### Regions -/

theorem wholeExpression_reads (hnested : context.nested.Traced) {stops : List Char}
    (h : Yields (wholeExpression context stops) s node s') :
  Reads s node s'
  := by
  simp only [wholeExpression, yields_bind, yields_lift, yields_guard, yields_pure,
    runs_skipTrivia, runs_rest, and_assoc, exists_and_left, exists_eq_left, exists_const] at h
  obtain ⟨node', t, hexpression, _, ⟨gap, hgap, rfl⟩, -, rfl, rfl⟩ := h
  apply (expression_reads hnested hexpression).skip (State.skips_trivia hgap)

theorem region_reads (hnested : context.nested.Traced) {stops : List Char}
    (h : Runs (region context stops) s node s') :
  Reads s node s'
  := by
  simp only [region, runs_bind, runs_skipTrivia, runs_get, and_assoc, exists_and_left,
    exists_eq_left, exists_const] at h
  obtain ⟨_, ⟨gap, hgap, rfl⟩, found, t, hwhole, h⟩ := h
  apply Reads.of_skips (State.skips_trivia hgap)
  cases found with
  | some found =>
    obtain ⟨rfl, rfl⟩ := runs_pure.mp h
    apply wholeExpression_reads hnested hwhole
  | none =>
    simp only [runs_bind, runs_set, runs_discard, runs_spanFrom, runs_store, and_assoc,
      exists_and_left, exists_eq_left, exists_const] at h
    obtain ⟨t', ⟨found, hcode⟩, rfl, rfl⟩ := h
    apply Reads.verbatim (code_steps hnested hcode)

end UtilityClasses.Scan
