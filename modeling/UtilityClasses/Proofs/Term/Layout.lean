import UtilityClasses.Proofs.Term.Syntax
import UtilityClasses.Proofs.Tree.Walk
import UtilityClasses.Text.Offset

/-!
# Where terms stand

`arena.Locates pos id term` says that the expression `id` is the term, as it is when the term has
been printed at the offset `pos`: every part of it has the span of its printed text. In a
well-formed arena a term that has been located is the tree that is read back.
-/

namespace UtilityClasses

open Text (byteSize)

namespace Arena

/-- Everything that is in the first arena is in the second. -/
def Grows (arena arena' : Arena) : Prop :=
  ∀ (id : ExprId) (expr : Expr), arena[id]? = some expr → arena'[id]? = some expr

theorem Grows.refl (arena : Arena) :
  arena.Grows arena
  := fun _ _ h => h

theorem Grows.trans {arena arena' arena'' : Arena} (h : arena.Grows arena')
    (h' : arena'.Grows arena'') :
  arena.Grows arena''
  := fun id expr hexpr => h' id expr (h id expr hexpr)

theorem grows_push (arena : Arena) (new : Expr) :
  arena.Grows (arena.push new)
  := fun _ _ => getElem?_push_of_some

/-- The expression `id` has the shape, and the span of a text that stands at the offset. -/
def Holds (arena : Arena) (pos : Nat) (id : ExprId) (shape : ExprShape) (text : List Char) :
    Prop :=
  arena[id]? = some ⟨shape, ⟨pos, pos + byteSize text⟩⟩

mutual

/-- The expression `id` is the term, printed at the offset. -/
def Locates (arena : Arena) : Nat → ExprId → Term → Prop
  | pos, id, .str quote value =>
    arena.Holds pos id (.str quote value) (Term.str quote value).print
  | pos, id, .template text holes => ∃ ids,
    arena.Holds pos id (.template (text :: holes.map Prod.snd) ids)
      (Term.template text holes).print ∧
    LocatesHoles arena (pos + 1 + byteSize text.toList) ids holes
  | pos, id, .ident name => arena.Holds pos id (.ident name) (Term.ident name).print
  | pos, id, .member object property => ∃ i,
    arena.Holds pos id (.member i property) (Term.member object property).print ∧
    Locates arena pos i object
  | pos, id, .call callee args => ∃ i ids,
    arena.Holds pos id (.call i ids) (Term.call callee args).print ∧
    Locates arena pos i callee ∧
    LocatesItems arena (pos + byteSize callee.print + 1) ids args
  | pos, id, .logical op left right => ∃ i j,
    arena.Holds pos id (.logical op i j) (Term.logical op left right).print ∧
    Locates arena pos i left ∧ Locates arena (pos + byteSize left.print + 4) j right
  | pos, id, .conditional test consequent alternate => ∃ i j k,
    arena.Holds pos id (.conditional i j k) (Term.conditional test consequent alternate).print ∧
    Locates arena pos i test ∧
    Locates arena (pos + byteSize test.print + 3) j consequent ∧
    Locates arena (pos + byteSize test.print + 3 + byteSize consequent.print + 3) k alternate
  | pos, id, .array items => ∃ ids,
    arena.Holds pos id (.array ids) (Term.array items).print ∧
    LocatesItems arena (pos + 1) ids items
  | pos, id, .spread inner => ∃ i,
    arena.Holds pos id (.spread i) (Term.spread inner).print ∧ Locates arena (pos + 3) i inner
  | pos, id, .paren inner => ∃ i,
    arena.Holds pos id (.paren i) (Term.paren inner).print ∧ Locates arena (pos + 1) i inner

/-- The expressions are the items, printed from the offset on with commas between them. -/
def LocatesItems (arena : Arena) : Nat → List ExprId → List Term → Prop
  | _, ids, [] => ids = []
  | pos, ids, item :: later => ∃ id others, ids = id :: others ∧ Locates arena pos id item ∧
    LocatesItems arena (pos + byteSize item.print + 2) others later

/-- The expressions are the holes of a template, printed from the offset on. -/
def LocatesHoles (arena : Arena) : Nat → List ExprId → List (Term × String) → Prop
  | _, ids, [] => ids = []
  | pos, ids, (hole, text) :: later => ∃ id others, ids = id :: others ∧
    Locates arena (pos + 2) id hole ∧
    LocatesHoles arena (pos + 2 + byteSize hole.print + 1 + byteSize text.toList) others later

end

variable {arena arena' : Arena}

/-! ### Growing -/

mutual

/-- What has been located stays where it is. -/
theorem Locates.mono (h : arena.Grows arena') :
  ∀ {pos : Nat} {id : ExprId} (term : Term), Locates arena pos id term → Locates arena' pos id term
  | _, _, .str _ _, hterm => h _ _ hterm
  | _, _, .template _ holes, ⟨ids, hself, hholes⟩ =>
    ⟨ids, h _ _ hself, LocatesHoles.mono h holes hholes⟩
  | _, _, .ident _, hterm => h _ _ hterm
  | _, _, .member object _, ⟨i, hself, hobject⟩ => ⟨i, h _ _ hself, Locates.mono h object hobject⟩
  | _, _, .call callee args, ⟨i, ids, hself, hcallee, hargs⟩ =>
    ⟨i, ids, h _ _ hself, Locates.mono h callee hcallee, LocatesItems.mono h args hargs⟩
  | _, _, .logical _ left right, ⟨i, j, hself, hleft, hright⟩ =>
    ⟨i, j, h _ _ hself, Locates.mono h left hleft, Locates.mono h right hright⟩
  | _, _, .conditional test consequent alternate,
      ⟨i, j, k, hself, htest, hconsequent, halternate⟩ =>
    ⟨i, j, k, h _ _ hself, Locates.mono h test htest, Locates.mono h consequent hconsequent,
      Locates.mono h alternate halternate⟩
  | _, _, .array items, ⟨ids, hself, hitems⟩ => ⟨ids, h _ _ hself, LocatesItems.mono h items hitems⟩
  | _, _, .spread inner, ⟨i, hself, hinner⟩ => ⟨i, h _ _ hself, Locates.mono h inner hinner⟩
  | _, _, .paren inner, ⟨i, hself, hinner⟩ => ⟨i, h _ _ hself, Locates.mono h inner hinner⟩

theorem LocatesItems.mono (h : arena.Grows arena') :
  ∀ {pos : Nat} {ids : List ExprId} (items : List Term),
    LocatesItems arena pos ids items → LocatesItems arena' pos ids items
  | _, _, [], hitems => hitems
  | _, _, item :: later, ⟨id, others, hids, hitem, hlater⟩ =>
    ⟨id, others, hids, Locates.mono h item hitem, LocatesItems.mono h later hlater⟩

theorem LocatesHoles.mono (h : arena.Grows arena') :
  ∀ {pos : Nat} {ids : List ExprId} (holes : List (Term × String)),
    LocatesHoles arena pos ids holes → LocatesHoles arena' pos ids holes
  | _, _, [], hholes => hholes
  | _, _, (hole, _) :: later, ⟨id, others, hids, hhole, hlater⟩ =>
    ⟨id, others, hids, Locates.mono h hole hhole, LocatesHoles.mono h later hlater⟩

end

/-! ### Reading a tree back -/

/-- The children of an expression come before it. -/
theorem Holds.child_lt (h : arena.WellFormed) {pos : Nat} {id : ExprId} {shape : ExprShape}
    {text : List Char} {bound : Nat} (hself : arena.Holds pos id shape text)
    (hid : id < bound + 1) :
  ∀ child ∈ shape.children, child < bound
  := by
  intro child hchild
  apply Nat.lt_of_lt_of_le (h.earlier hself child hchild) (Nat.le_of_lt_succ hid)

/-- The texts of a template, put together with its holes again. -/
theorem zip_map_fst_map_snd {α β : Type} (l : List (α × β)) :
  (l.map Prod.fst).zip (l.map Prod.snd) = l
  := by
  rw [List.zip_map', List.map_id']

mutual

/-- A term that has been located is read back, if the bound is large enough. -/
theorem Locates.termAtMost_eq (h : arena.WellFormed) :
  ∀ {pos : Nat} {id : ExprId} {bound : Nat} (term : Term),
    Locates arena pos id term → id < bound → arena.termAtMost bound id = some term
  | _, _, 0, _, _, hid => absurd hid (Nat.not_lt_zero _)
  | _, _, _ + 1, .str _ _, hself, _ => by
    rw [Locates, Holds] at hself
    simp only [termAtMost, hself, Option.bind_eq_bind, Option.bind_some]
  | _, _, bound + 1, .template _ holes, ⟨ids, hself, hholes⟩, hid => by
    have hread := LocatesHoles.termAtMost_eq h holes hholes (hself.child_lt h hid)
    rw [Holds] at hself
    simp only [termAtMost, hself, hread, zip_map_fst_map_snd, Option.bind_eq_bind,
      Option.bind_some]
  | _, _, _ + 1, .ident _, hself, _ => by
    rw [Locates, Holds] at hself
    simp only [termAtMost, hself, Option.bind_eq_bind, Option.bind_some]
  | _, _, bound + 1, .member object _, ⟨i, hself, hobject⟩, hid => by
    have hlt := hself.child_lt h hid
    have hread := Locates.termAtMost_eq h object hobject (hlt i List.mem_cons_self)
    rw [Holds] at hself
    simp only [termAtMost, hself, hread, Option.bind_eq_bind, Option.bind_some]
  | _, _, bound + 1, .call callee args, ⟨i, ids, hself, hcallee, hargs⟩, hid => by
    have hlt := hself.child_lt h hid
    simp only [ExprShape.children, List.forall_mem_cons] at hlt
    have hread := Locates.termAtMost_eq h callee hcallee hlt.1
    have hread' := LocatesItems.termAtMost_eq h args hargs hlt.2
    rw [Holds] at hself
    simp only [termAtMost, hself, hread, hread', Option.bind_eq_bind, Option.bind_some]
  | _, _, bound + 1, .logical _ left right, ⟨i, j, hself, hleft, hright⟩, hid => by
    have hlt := hself.child_lt h hid
    simp only [ExprShape.children, List.forall_mem_cons] at hlt
    have hread := Locates.termAtMost_eq h left hleft hlt.1
    have hread' := Locates.termAtMost_eq h right hright hlt.2.1
    rw [Holds] at hself
    simp only [termAtMost, hself, hread, hread', Option.bind_eq_bind, Option.bind_some]
  | _, _, bound + 1, .conditional test consequent alternate,
      ⟨i, j, k, hself, htest, hconsequent, halternate⟩, hid => by
    have hlt := hself.child_lt h hid
    simp only [ExprShape.children, List.forall_mem_cons] at hlt
    have hread := Locates.termAtMost_eq h test htest hlt.1
    have hread' := Locates.termAtMost_eq h consequent hconsequent hlt.2.1
    have hread'' := Locates.termAtMost_eq h alternate halternate hlt.2.2.1
    rw [Holds] at hself
    simp only [termAtMost, hself, hread, hread', hread'', Option.bind_eq_bind, Option.bind_some]
  | _, _, bound + 1, .array items, ⟨ids, hself, hitems⟩, hid => by
    have hread := LocatesItems.termAtMost_eq h items hitems (hself.child_lt h hid)
    rw [Holds] at hself
    simp only [termAtMost, hself, hread, Option.bind_eq_bind, Option.bind_some]
  | _, _, bound + 1, .spread inner, ⟨i, hself, hinner⟩, hid => by
    have hlt := hself.child_lt h hid
    have hread := Locates.termAtMost_eq h inner hinner (hlt i List.mem_cons_self)
    rw [Holds] at hself
    simp only [termAtMost, hself, hread, Option.bind_eq_bind, Option.bind_some]
  | _, _, bound + 1, .paren inner, ⟨i, hself, hinner⟩, hid => by
    have hlt := hself.child_lt h hid
    have hread := Locates.termAtMost_eq h inner hinner (hlt i List.mem_cons_self)
    rw [Holds] at hself
    simp only [termAtMost, hself, hread, Option.bind_eq_bind, Option.bind_some]

theorem LocatesItems.termAtMost_eq (h : arena.WellFormed) :
  ∀ {pos bound : Nat} {ids : List ExprId} (items : List Term),
    LocatesItems arena pos ids items → (∀ id ∈ ids, id < bound) →
      ids.mapM (arena.termAtMost bound) = some items
  | _, _, _, [], hids, _ => by
    rw [LocatesItems] at hids
    rw [hids]
    rfl
  | _, _, _, item :: later, ⟨id, others, hids, hitem, hlater⟩, hlt => by
    subst hids
    rw [List.forall_mem_cons] at hlt
    have hfirst := Locates.termAtMost_eq h item hitem hlt.1
    have hothers := LocatesItems.termAtMost_eq h later hlater hlt.2
    simp [hfirst, hothers]

theorem LocatesHoles.termAtMost_eq (h : arena.WellFormed) :
  ∀ {pos bound : Nat} {ids : List ExprId} (holes : List (Term × String)),
    LocatesHoles arena pos ids holes → (∀ id ∈ ids, id < bound) →
      ids.mapM (arena.termAtMost bound) = some (holes.map Prod.fst)
  | _, _, _, [], hids, _ => by
    rw [LocatesHoles] at hids
    rw [hids]
    rfl
  | _, _, _, (hole, _) :: later, ⟨id, others, hids, hhole, hlater⟩, hlt => by
    subst hids
    rw [List.forall_mem_cons] at hlt
    have hfirst := Locates.termAtMost_eq h hole hhole hlt.1
    have hothers := LocatesHoles.termAtMost_eq h later hlater hlt.2
    simp [hfirst, hothers]

end

variable {pos : Nat} {id : ExprId} {term : Term}

/-- A term that has been located is in the arena, with the span of its text. -/
theorem Locates.exists_holds (h : arena.Locates pos id term) :
  ∃ shape, arena.Holds pos id shape term.print
  := by
  cases term with
  | str | ident => exact ⟨_, h⟩
  | template | array | spread | paren | member =>
    obtain ⟨_, hself, -⟩ := h
    exact ⟨_, hself⟩
  | call | logical =>
    obtain ⟨_, _, hself, -⟩ := h
    exact ⟨_, hself⟩
  | conditional =>
    obtain ⟨_, _, _, hself, -⟩ := h
    exact ⟨_, hself⟩

/-- A term that has been located is the tree of its expression. -/
theorem Locates.term?_eq (h : arena.WellFormed) (hterm : arena.Locates pos id term) :
  arena.term? id = some term
  := by
  obtain ⟨shape, hself⟩ := hterm.exists_holds
  have hid := (Array.getElem?_eq_some_iff.mp hself).1
  apply hterm.termAtMost_eq h term (Nat.lt_succ_of_lt hid)

end Arena

end UtilityClasses
