import UtilityClasses.Proofs.Region.Lexeme

/-!
# Operands in step with the scan of code

A parse that starts in step with the scan of well-bracketed code does not fail on an operand, and
behind what it finds it is in step again.
-/

namespace UtilityClasses.Scan

open Cursor (AreStops listTail listItem)

variable {dialect : Dialect} {context : Context} {track : Track} {stack : List Char}
  {prev : Previous} {u : State} {count count' : Nat}

/-! ### Constructs inside others -/

/-- The constructs inside others keep in step where less than `count` is left. -/
structure Nested.Keeps (nested : Nested) (dialect : Dialect) (count : Nat) : Prop where
  region {track : Track} {u : State} (hdialect : track.dialect = dialect)
    (hlt : u.rest.length < count) (h : track.InStep .operator [] u) :
    Arrives (nested.region track.stops) u fun _ t => Related track.base t track.finish
  expression {track : Track} {stack : List Char} {u : State} (hdialect : track.dialect = dialect)
    (hlt : u.rest.length < count) (h : track.InStep .operator stack u) :
    Tries nested.expression u (track.Past stack u.rest.length)
  operand {track : Track} {stack : List Char} {u : State} (hdialect : track.dialect = dialect)
    (hlt : u.rest.length < count) (h : track.InStep .operator stack u) :
    Tries nested.operand u (track.Past stack u.rest.length)

/-- The context is one for the dialect and for texts of `count` characters, and the constructs
inside others keep in step. -/
structure Context.Keeps (context : Context) (dialect : Dialect) (count : Nat) : Prop where
  dialect_eq : context.dialect = dialect
  ample : context.Ample count
  nested : context.nested.Keeps dialect count

theorem Context.Keeps.mono (h : context.Keeps dialect count) (hle : count' ≤ count) :
  context.Keeps dialect count'
  where
  dialect_eq := h.dialect_eq
  ample := h.ample.mono hle
  nested :=
    { region := fun hdialect hlt => h.nested.region hdialect (Nat.lt_of_lt_of_le hlt hle)
      expression := fun hdialect hlt => h.nested.expression hdialect (Nat.lt_of_lt_of_le hlt hle)
      operand := fun hdialect hlt => h.nested.operand hdialect (Nat.lt_of_lt_of_le hlt hle) }

/-! ### What is found is stored -/

theorem Track.Past.store (h : track.Past stack count u) {shape : ExprShape} {span : Span} :
  Arrives (store shape span) u fun _ => track.Past stack count
  := by
  obtain ⟨⟨prev, hinStep⟩, hlt⟩ := h
  exact ⟨_, _, rfl, ⟨prev, hinStep.push _⟩, hlt⟩

/-- The end of an attempt that has found something. -/
theorem Track.Past.found (h : track.Past stack count u) {shape : ExprShape} {start : Nat} :
  Arrives (do
      let span ← spanFrom start
      some <$> Scan.store shape span) u
    fun found t => found.isSome = true → track.Past stack count t
  := by
  rw [arrives_spanFrom]
  exact h.store.some

/-! ### Strings and templates -/

theorem arrives_stringNode (h : track.InStep prev stack u) {quote : Quote} {c : Char}
    (hhead : u.rest.head? = some c) (hc : c = '"' ∨ c = '\'') :
  Arrives (stringNode quote c) u fun _ => track.Past stack u.rest.length
  := by
  rw [stringNode]
  apply (h.stringLiteral hhead hc).bind
  rintro ⟨body, span⟩ t ht
  exact ht.store

section Templates

variable {start budget : Nat} {texts : List String} {holes : List ExprId} {P : Node → State → Prop}

/-- Behind the text the template ends. -/
theorem arrives_templateFrom_end
    (hquote : (u.after (templateText u.rest)).rest.head? = some '\x60')
    (hend : ∀ node expr, let t := (u.after (templateText u.rest)).after 1
      P node { t with arena := t.arena.push expr }) :
  Arrives (templateFrom context start (budget + 1) texts holes) u P
  := by
  apply Arrives.congr (Cursor.templateFrom_succ budget start texts holes u)
  rw [arrives_set, Cursor.templateNodeItem, bind_assoc, arrives_rest, if_pos hquote, bind_assoc,
    arrives_skip, bind_assoc, arrives_spanFrom]
  exact ⟨_, _, rfl, hend _ _⟩

/-- Behind the text there is a hole, in which a region ends at a brace. -/
theorem arrives_templateFrom_hole {Q : State → Prop} {later : List Char}
    (hhole : (u.after (templateText u.rest)).rest = '$' :: '\x7b' :: later)
    (hregion : Arrives (context.nested.region ['\x7d'])
      ((u.after (templateText u.rest)).after 2) fun _ => Q)
    (hclose : ∀ t, Q t → t.rest.head? = some '\x7d')
    (hnext : ∀ t texts holes, Q t →
      Arrives (templateFrom context start budget texts holes) (t.after 1) P) :
  Arrives (templateFrom context start (budget + 1) texts holes) u P
  := by
  apply Arrives.congr (Cursor.templateFrom_succ budget start texts holes u)
  rw [arrives_set, Cursor.templateNodeItem, bind_assoc, arrives_rest, hhole, List.head?_cons,
    if_neg (by decide), List.isEmpty_cons, if_neg Bool.false_ne_true, bind_assoc, arrives_skip,
    bind_assoc]
  apply hregion.bind
  intro hole t ht
  rw [bind_assoc, arrives_rest, if_pos (hclose t ht), bind_assoc, arrives_skip, bind_assoc,
    arrives_position]
  exact hnext t _ _ ht

/-- The text and the holes of a template are read up to where the scan comes to. -/
theorem arrives_templateFrom (hcontext : context.Keeps track.dialect count) {v w : State}
    (hrelated : Related track.base u v) (h : Filled track.dialect w v)
    (hcount : u.rest.length ≤ count) (hbudget : u.rest.length < budget) :
  Arrives (templateFrom context start budget texts holes) u fun _ t => Related track.base t w
  := by
  induction h generalizing u texts holes budget with
  | @done v hquote hend =>
    obtain ⟨more, rfl⟩ := Nat.exists_eq_succ_of_ne_zero (Nat.ne_zero_of_lt hbudget)
    have htext := hrelated.after (templateText v.rest)
    rw [← htext.rest_eq, ← hrelated.rest_eq] at hquote
    subst hend
    apply arrives_templateFrom_end hquote
    intro _ expr
    rw [hrelated.rest_eq]
    exact (htext.after 1).push _
  | @hole v m later hhole hcode hnext ih =>
    obtain ⟨more, rfl⟩ := Nat.exists_eq_succ_of_ne_zero (Nat.ne_zero_of_lt hbudget)
    have htext := hrelated.after (templateText v.rest)
    have hinside := htext.after 2
    rw [← htext.rest_eq] at hhole
    rw [← hrelated.rest_eq] at hhole hinside hcode
    have hlt := length_hole_lt (show _ ≠ [] from hhole ▸ List.cons_ne_nil _ _)
    let inner : Track := ⟨track.base, track.dialect, ['\x7d'], by simp [AreStops], m⟩
    have hinStep : inner.InStep .operator [] ((u.after (templateText u.rest)).after 2) :=
      ⟨_, hinside, hcode⟩
    have hregion := hcontext.nested.region (by rfl) (Nat.lt_of_lt_of_le hlt hcount) hinStep
    obtain ⟨c, hc, hhead⟩ := hcode.exists_head
    obtain rfl := List.mem_singleton.mp hc
    apply arrives_templateFrom_hole hhole hregion
    · intro t ht
      rwa [ht.rest_eq]
    · intro t texts holes ht
      have hle : (t.after 1).rest.length ≤
          ((u.after (templateText u.rest)).after 2).rest.length := by
        rw [hinside.rest_eq]
        exact Nat.le_trans (length_after_le t 1) (ht.rest_eq ▸ hcode.length_le)
      exact ih (ht.after 1) (by omega) (by omega)

end Templates

theorem arrives_templateNode (hcontext : context.Keeps track.dialect u.rest.length)
    (h : track.InStep prev stack u) (hhead : u.rest.head? = some '\x60') :
  Arrives (templateNode context) u fun _ => track.Past stack u.rest.length
  := by
  obtain ⟨v, w, hrelated, hfilled, hbalanced, hlt⟩ := h.exists_template hhead
  have hshort := length_after_lt (Cursor.ne_nil_of_head? hhead) Nat.one_pos
  have hbudget := Nat.lt_trans hshort hcontext.ample.lt_budget
  rw [templateNode, arrives_position, arrives_skip]
  apply (arrives_templateFrom hcontext (hrelated.after 1) hfilled (Nat.le_of_lt hshort) hbudget).mono
  intro _ t ht
  exact ⟨⟨_, w, ht, hbalanced⟩, by rwa [ht.rest_eq]⟩

/-! ### Parentheses and lists -/

theorem tries_parenNode (hcontext : context.Keeps track.dialect u.rest.length)
    (h : track.InStep prev stack u) (hhead : u.rest.head? = some '(') :
  Tries (parenNode context) u (track.Past stack u.rest.length)
  := by
  have hlt := length_after_lt (Cursor.ne_nil_of_head? hhead) Nat.one_pos
  rw [Tries, parenNode]
  simp only [run_lift_bind]
  rw [arrives_position, arrives_skip]
  apply (h.opening hhead rfl).skipTrivia.bind
  rintro _ t ⟨hopened, hle⟩
  apply (hcontext.nested.expression rfl (Nat.lt_of_le_of_lt hle hlt) hopened).step
  rintro inner v ⟨⟨prev', hinner⟩, hlt'⟩
  simp only [run_lift_bind, run_lift, run_guard_bind]
  apply hinner.skipTrivia.bind
  rintro _ w ⟨hinner, hle'⟩
  rw [arrives_rest]
  apply Arrives.ite
  · intro hclose
    rw [arrives_skip]
    exact ((hinner.past_closing hclose (by simp [IsClosing])).mono (by omega)).found
  · exact fun _ => .none

/-- Where a parse stands behind an item of a list, or behind its end. -/
inductive Track.Listed (track : Track) (close : Char) (stack : List Char) (count : Nat) :
    Option (Cursor.Round (List ExprId × Bool) (List ExprId)) → State → Prop
  | none {t : State} : Listed track close stack count none t
  | done {items : List ExprId} {t : State} (h : track.Past stack count t) :
      Listed track close stack count (some (.done items)) t
  | again {items : List ExprId} {t : State} (h : track.InStep .operator (close :: stack) t)
      (hlt : t.rest.length < count) :
      Listed track close stack count (some (.again (items, false))) t
  | last {items : List ExprId} {prev : Previous} {t : State}
      (h : track.InStep prev (close :: stack) t) (hhead : t.rest.head? = some close)
      (hle : t.rest.length ≤ count) :
      Listed track close stack count (some (.again (items, true))) t

section Lists

variable {close : Char} {gaps : Bool} {items : List ExprId}

theorem arrives_listItem (hcontext : context.Keeps track.dialect count)
    (hclose : close ∈ [')', ']']) (h : track.InStep .operator (close :: stack) u)
    (hcount : u.rest.length < count) :
  Arrives (listItem context close gaps items).run u (track.Listed close stack u.rest.length)
  := by
  have hclosing : IsClosing close := (closes_list hclose).closing
  have hstops : AreStops [',', close] := by
    simp only [List.mem_cons, List.not_mem_nil, or_false] at hclose
    obtain rfl | rfl := hclose <;> simp [AreStops]
  rw [listItem]
  simp only [run_lift_bind, run_ite, run_guard_bind, OptionT.run_pure]
  apply h.skipTrivia.bind
  rintro _ t ⟨h, hle⟩
  rw [arrives_rest]
  apply Arrives.ite
  · intro hend
    rw [arrives_skip]
    exact .pure (.done ((h.past_closing hend hclosing).mono hle))
  intro _
  apply Arrives.ite
  · intro hgap
    rw [Bool.and_eq_true, decide_eq_true_eq] at hgap
    rw [arrives_skip]
    have hlt := length_after_lt (Cursor.ne_nil_of_head? hgap.2) Nat.one_pos
    exact .pure (.again (h.punctuation hgap.2 (by decide) (by simp)) (Nat.lt_of_lt_of_le hlt hle))
  intro _
  obtain ⟨inner, hbase, hdialect, hends, hinner, hback⟩ := h.inner hstops (closes_list hclose)
  have hregion := hcontext.nested.region hdialect (Nat.lt_of_le_of_lt hle hcount) hinner
  rw [hends] at hregion
  apply hregion.bind
  intro item v hv
  obtain ⟨⟨prev', hitem⟩, -, hle'⟩ := hback v hv
  rw [arrives_rest]
  apply Arrives.ite
  · intro hcomma
    rw [arrives_skip]
    have hlt := length_after_lt (Cursor.ne_nil_of_head? hcomma) Nat.one_pos
    refine .pure (.again (hitem.punctuation hcomma (by decide) (by simp)) ?_)
    omega
  intro _
  apply Arrives.ite
  · exact fun hend => .pure (.last hitem hend (Nat.le_trans hle' hle))
  · exact fun _ => .pure .none

theorem tries_listTail (hcontext : context.Keeps track.dialect count)
    (hclose : close ∈ [')', ']']) {budget : Nat} (h : track.InStep .operator (close :: stack) u)
    (hcount : u.rest.length < count) (hbudget : u.rest.length < budget) :
  Tries (listTail context close gaps budget items) u (track.Past stack u.rest.length)
  := by
  induction budget generalizing u items with
  | zero => omega
  | succ budget ih =>
    rw [Tries, listTail, OptionT.run_bind]
    apply (arrives_listItem hcontext hclose h hcount).bind
    intro found t hlisted
    cases hlisted with
    | none => exact .none
    | done hpast => exact .pure fun _ => hpast
    | again hmore hlt =>
      apply (ih hmore (by omega) (by omega)).mono
      exact fun _ hpast => hpast.mono (Nat.le_of_lt hlt)
    | last hmore hhead hle =>
      have hpast := hmore.past_closing hhead (closes_list hclose).closing
      exact ⟨_, _, rfl, fun _ => hpast.mono hle⟩

end Lists

theorem tries_arrayNode (hcontext : context.Keeps track.dialect u.rest.length)
    (h : track.InStep prev stack u) (hhead : u.rest.head? = some '[') :
  Tries (arrayNode context) u (track.Past stack u.rest.length)
  := by
  have hlt := length_after_lt (Cursor.ne_nil_of_head? hhead) Nat.one_pos
  have hbudget := Nat.lt_trans hlt hcontext.ample.lt_budget
  rw [Tries, arrayNode, Cursor.arrayItems_eq]
  simp only [run_lift_bind]
  rw [arrives_position, arrives_skip]
  apply (tries_listTail hcontext (by simp) (h.opening hhead rfl) hlt hbudget).step
  intro items t hpast
  simp only [run_lift_bind, run_lift]
  exact (hpast.mono (Nat.le_of_lt hlt)).found

/-! ### Operands -/

/-- An operand without operators around it. -/
theorem tries_primary (hcontext : context.Keeps track.dialect u.rest.length)
    (h : track.InStep .operator stack u) :
  Tries (primary context) u (track.Past stack u.rest.length)
  := by
  rw [Tries, primary]
  simp only [run_lift_bind]
  rw [arrives_position, arrives_rest]
  cases hrest : u.rest with
  | nil => exact .none
  | cons c later =>
    have hhead : u.rest.head? = some c := by rw [hrest, List.head?_cons]
    have hne : u.rest ≠ [] := Cursor.ne_nil_of_head? hhead
    simp only [run_ite, run_lift, run_lift_bind, run_guard_bind, discard_bind]
    rw [← hrest]
    apply Arrives.ite
    · rintro rfl
      exact (arrives_stringNode h hhead (.inl rfl)).some
    intro _
    apply Arrives.ite
    · rintro rfl
      exact (arrives_stringNode h hhead (.inr rfl)).some
    intro _
    apply Arrives.ite
    · rintro rfl
      exact (arrives_templateNode hcontext h hhead).some
    intro _
    apply Arrives.ite
    · rintro rfl
      exact tries_parenNode hcontext h hhead
    intro _
    apply Arrives.ite
    · rintro rfl
      exact tries_arrayNode hcontext h hhead
    intro _
    apply Arrives.ite
    · rintro rfl
      apply (h.braced hcontext.ample hcontext.dialect_eq hhead).bind
      exact fun _ _ hpast => hpast.found
    intro _
    apply Arrives.ite
    · intro helement
      rw [Bool.and_eq_true, decide_eq_true_eq] at helement
      obtain ⟨rfl, hallows⟩ := helement
      rw [hcontext.dialect_eq] at hallows
      apply (h.element hcontext.ample hcontext.dialect_eq hhead hallows).bind
      intro found t hpast
      apply Arrives.ite
      · exact fun hfound => (hpast hfound).found
      · exact fun _ => .none
    intro _
    apply Arrives.ite
    · intro hdigit
      obtain ⟨prev', hrun⟩ := h.run
      rw [arrives_takeWhile]
      have hpos : 0 < (u.rest.takeWhile fun d => isNameChar d || d = '.').length :=
        length_takeWhile_pos hhead (by simp [isNameChar, hdigit])
      exact Track.Past.found ⟨⟨prev', hrun⟩, length_after_lt hne hpos⟩
    intro _
    apply Arrives.ite
    · intro hstart
      obtain ⟨prev', hname, -⟩ := h.name hhead hstart
      rw [arrives_takeWhile]
      apply Arrives.ite
      · have hpos := length_takeWhile_pos hhead (isNameChar_of_isNameStart hstart)
        exact fun _ => Track.Past.found ⟨⟨prev', hname⟩, length_after_lt hne hpos⟩
      · exact fun _ => .none
    · exact fun _ => .none

end UtilityClasses.Scan
