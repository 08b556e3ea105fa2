import Mathlib.Order.Monotone.Basic
import UtilityClasses.Proofs.Uniform.Expression
import UtilityClasses.Proofs.WellFormed

/-!
# Readings that differ in what is stored

Of two readings of one text the first may store more expressions than the second. They are related
if they stand at the same place and have recorded the same elements, up to the numbers of the
expressions.
-/

namespace UtilityClasses.Scan

variable {α : Type} {base s t u v w : State} {ρ : ExprId → ExprId} {new : Array Element}

/-! ### Finds are closed -/

/-- What is referred to is there. -/
theorem Ledger.lt_size {c : State × List Loose} (h : Ledger c) {id : ExprId} (hid : id ∈ refs c) :
  id < c.1.arena.size
  := by
  have hcount := h id
  have hpos := List.count_pos_iff.mpr hid
  by_contra hle
  rw [if_neg hle] at hcount
  omega

/-- A place at which nothing has been found yet. -/
def State.bare (s : State) : State :=
  ⟨s.rest, s.pos, #[], #[]⟩

theorem bare_onto (s : State) :
  s.bare.onto s = s
  := by
  simp [State.bare, State.onto]

theorem bare_onto_of_eq (hrest : u.rest = v.rest) (hpos : u.pos = v.pos) :
  v.bare.onto u = u
  := by
  rw [State.bare, ← hrest, ← hpos]
  exact bare_onto u

/-- What has been found from a place on refers to nothing else. -/
theorem ledger_of_bare (hsteps : Steps (s.bare, []) (t, [])) :
  Ledger (t, [])
  := by
  apply hsteps.ledger
  · constructor
    · exact Nat.zero_le _
    · constructor <;> simp [State.bare]
    · simp
    · simp [State.bare]
  · intro id
    simp [refs, State.bare, Arena.refs]

theorem getElem?_onto_number (t u : State) (id : ExprId) :
  (t.onto u).arena[u.number id]? = t.arena[id]?.map (·.renumber u.number)
  := by
  simp only [State.onto, State.number, Array.getElem?_append_right (Nat.le_add_right _ _),
    Nat.add_sub_cancel_left, Array.getElem?_map]

theorem getElem?_onto_of_some {id : ExprId} {expr : Expr} (h : u.arena[id]? = some expr) :
  (t.onto u).arena[id]? = some expr
  := by
  rw [State.onto, Array.getElem?_append_left (Array.getElem?_eq_some_iff.mp h).1, h]

/-- An expression has been found before, or it has been found from a place on. -/
theorem getElem?_onto_cases {id : ExprId} {expr : Expr} (h : (t.onto v).arena[id]? = some expr) :
  v.arena[id]? = some expr ∨
    ∃ id' expr', id = v.number id' ∧ t.arena[id']? = some expr' ∧ expr = expr'.renumber v.number
  := by
  by_cases hlt : id < v.arena.size
  · rw [State.onto, Array.getElem?_append_left hlt] at h
    exact .inl h
  · obtain ⟨id', rfl⟩ := Nat.exists_eq_add_of_le (Nat.le_of_not_lt hlt)
    rw [← State.number, getElem?_onto_number, Option.map_eq_some_iff] at h
    obtain ⟨expr', hexpr', rfl⟩ := h
    exact .inr ⟨id', expr', rfl, hexpr', rfl⟩

/-! ### Related readings -/

/-- Both readings stand at the same place, and what the second one has found since `base` has been
found by the first one too, with other numbers. -/
structure Renumbers (base : State) (new : Array Element) (ρ : ExprId → ExprId) (u v : State) :
    Prop where
  rest_eq : u.rest = v.rest
  pos_eq : u.pos = v.pos
  strictMono : StrictMono ρ
  before {id : ExprId} (h : id < base.arena.size) : ρ id = id
  size_le : base.arena.size ≤ v.arena.size
  /-- What both find from now on is stored behind the rest. -/
  fresh (id : ExprId) : ρ (v.number id) = u.number id
  scanned : v.elements = base.elements ++ new
  parsed : u.elements = base.elements ++ new.map (·.renumber ρ)
  refs_lt {element : Element} (h : element ∈ new) : ∀ id ∈ element.refs, id < v.arena.size
  stored {id : ExprId} {expr : Expr} (hid : base.arena.size ≤ id)
    (h : v.arena[id]? = some expr) : u.arena[ρ id]? = some (expr.renumber ρ)
  children_lt {id : ExprId} {expr : Expr} (hid : base.arena.size ≤ id)
    (h : v.arena[id]? = some expr) : ∀ child ∈ expr.shape.children, child < v.arena.size

/-- Both readings stand at the same place and have found the same since `base`, but for
expressions that only the first one has stored. -/
def Related (base u v : State) : Prop :=
  ∃ new ρ, Renumbers base new ρ u v

theorem Related.rest_eq (h : Related base u v) :
  u.rest = v.rest
  := by
  obtain ⟨_, _, h⟩ := h
  exact h.rest_eq

theorem Related.pos_eq (h : Related base u v) :
  u.pos = v.pos
  := by
  obtain ⟨_, _, h⟩ := h
  exact h.pos_eq

theorem Related.refl (base : State) :
  Related base base base
  := by
  have hnone {id : ExprId} {expr : Expr} (hid : base.arena.size ≤ id) :
      base.arena[id]? ≠ some expr := by
    rw [Array.getElem?_eq_none hid]
    simp
  exact ⟨#[], id, {
    rest_eq := rfl
    pos_eq := rfl
    strictMono := strictMono_id
    before := fun _ => rfl
    size_le := Nat.le_refl _
    fresh := fun _ => rfl
    scanned := by simp
    parsed := by simp
    refs_lt := by simp
    stored := fun hid h => absurd h (hnone hid)
    children_lt := fun hid h => absurd h (hnone hid) }⟩

/-- Both readings pass over the same text. -/
theorem Related.after (h : Related base u v) (count : Nat) :
  Related base (u.after count) (v.after count)
  := by
  obtain ⟨new, ρ, h⟩ := h
  exact ⟨new, ρ, {
    h with
    rest_eq := by simp only [State.after_rest, h.rest_eq]
    pos_eq := by simp only [State.after, h.rest_eq, h.pos_eq] }⟩

/-- The first reading stores an expression that the second one does not. -/
theorem Related.push (h : Related base u v) (expr : Expr) :
  Related base { u with arena := u.arena.push expr } v
  := by
  obtain ⟨new, ρ, h⟩ := h
  let σ (id : ExprId) : ExprId := if id < v.arena.size then ρ id else ρ id + 1
  have hold {id : ExprId} (hid : id < v.arena.size) : σ id = ρ id := if_pos hid
  have hnew {id : ExprId} (hid : ¬ id < v.arena.size) : σ id = ρ id + 1 := if_neg hid
  have hle (id : ExprId) : ρ id ≤ σ id := by
    by_cases hid : id < v.arena.size
    · exact Nat.le_of_eq (hold hid).symm
    · exact Nat.le_of_lt (Nat.lt_of_lt_of_eq (Nat.lt_succ_self _) (hnew hid).symm)
  have helements : new.map (·.renumber σ) = new.map (·.renumber ρ) := by
    apply Array.map_congr_left
    intro element hmem
    exact Element.renumber_congr fun id hid => hold (h.refs_lt hmem id hid)
  refine ⟨new, σ, {
    h with
    strictMono := ?_
    before := ?_
    fresh := ?_
    parsed := ?_
    stored := ?_ }⟩
  · intro a b hlt
    have hmono := h.strictMono hlt
    by_cases ha : a < v.arena.size
    · rw [hold ha]
      exact Nat.lt_of_lt_of_le hmono (hle b)
    · have hb : ¬ b < v.arena.size := fun hb => ha (Nat.lt_trans hlt hb)
      rw [hnew ha, hnew hb]
      exact Nat.succ_lt_succ hmono
  · intro id hid
    rw [hold (Nat.lt_of_lt_of_le hid h.size_le), h.before hid]
  · intro id
    have hnumber : ¬ v.number id < v.arena.size := Nat.not_lt_of_le (Nat.le_add_right _ _)
    rw [hnew hnumber, h.fresh]
    simp only [State.number, Array.size_push, Nat.add_right_comm]
  · rw [helements, ← h.parsed]
  · intro id stored hid hget
    have hlt := (Array.getElem?_eq_some_iff.mp hget).1
    have hexpr : stored.renumber σ = stored.renumber ρ :=
      Expr.renumber_congr fun child hchild => hold (h.children_lt hid hget child hchild)
    rw [hold hlt, hexpr]
    exact Arena.getElem?_push_of_some (h.stored hid hget)

/-- Both readings find the same. -/
theorem Renumbers.onto (h : Renumbers base new ρ u v) (ht : Ledger (t, [])) :
  Renumbers base (new ++ t.elements.map (·.renumber v.number)) ρ (t.onto u) (t.onto v)
  := by
  have hnumber : ρ ∘ v.number = u.number := funext h.fresh
  have hsize : v.arena.size ≤ (t.onto v).arena.size := by simp [State.onto]
  have hlt {id : ExprId} (hid : id ∈ refs (t, [])) : v.number id < (t.onto v).arena.size := by
    simp only [State.onto, State.number, Array.size_append, Array.size_map]
    exact Nat.add_lt_add_left (ht.lt_size hid) _
  constructor
  · rfl
  · rfl
  · exact h.strictMono
  · exact h.before
  · exact Nat.le_trans h.size_le hsize
  · intro id
    have hfresh := h.fresh (t.arena.size + id)
    simp only [State.number, State.onto, Array.size_append, Array.size_map] at hfresh ⊢
    rw [Nat.add_assoc, hfresh, Nat.add_assoc]
  · simp only [State.onto, h.scanned, Array.append_assoc]
  · simp only [State.onto, h.parsed, Array.append_assoc, Array.map_append, Array.map_map,
      Function.comp_def, Element.renumber_renumber]
    simp only [← hnumber, Function.comp_def]
  · intro element hmem id hid
    obtain hmem | hmem := Array.mem_append.mp hmem
    · exact Nat.lt_of_lt_of_le (h.refs_lt hmem id hid) hsize
    · obtain ⟨found, hfound, rfl⟩ := Array.mem_map.mp hmem
      rw [Element.refs_renumber, List.mem_map] at hid
      obtain ⟨old, hold, rfl⟩ := hid
      apply hlt
      simp only [refs, List.mem_append, List.mem_flatMap, Array.mem_toList_iff]
      exact .inl (.inl ⟨found, hfound, hold⟩)
  · intro id expr hid hget
    obtain hget | ⟨id', expr', rfl, hfound, rfl⟩ := getElem?_onto_cases hget
    · exact getElem?_onto_of_some (h.stored hid hget)
    · rw [h.fresh, getElem?_onto_number, hfound, Option.map_some, Expr.renumber_renumber, hnumber]
  · intro id expr hid hget child hchild
    obtain hget | ⟨id', expr', rfl, hfound, rfl⟩ := getElem?_onto_cases hget
    · exact Nat.lt_of_lt_of_le (h.children_lt hid hget child hchild) hsize
    · rw [Expr.renumber, ExprShape.children_renumber, List.mem_map] at hchild
      obtain ⟨old, hold, rfl⟩ := hchild
      apply hlt
      simp only [refs, Arena.refs, List.mem_append, List.mem_flatMap, Array.mem_toList_iff]
      exact .inl (.inr ⟨expr', Array.mem_of_getElem? hfound, hold⟩)

/-- What is found in any company is found in both readings. -/
theorem Related.runs {x : Scan α} {a : α} (h : Related base u v)
    (hx : ∀ company, Uniform company x)
    (hsteps : ∀ {a t}, Runs x v.bare a t → Steps (v.bare, []) (t, []))
    (hruns : Runs x v a w) :
  ∃ u', Runs x u a u' ∧ Related base u' w
  := by
  have hbare := bare_onto_of_eq h.rest_eq h.pos_eq
  obtain ⟨b, _, t, hlocal, hthere, rfl⟩ | ⟨stop, -, herror⟩ := hx v v.bare
  · rw [bare_onto] at hthere
    obtain ⟨rfl, rfl⟩ := Prod.mk.inj (Except.ok.inj (hruns.symm.trans hthere))
    obtain ⟨b', _, t', hlocal', hthere', rfl⟩ | ⟨stop, herror, -⟩ := hx u v.bare
    · rw [hbare] at hthere'
      obtain ⟨rfl, rfl⟩ := Prod.mk.inj (Except.ok.inj (hlocal.symm.trans hlocal'))
      obtain ⟨new, ρ, h⟩ := h
      exact ⟨t.onto u, hthere', _, ρ, h.onto (ledger_of_bare (hsteps hlocal))⟩
    · rw [Runs, herror] at hlocal
      cases hlocal
  · rw [bare_onto] at herror
    rw [Runs, herror] at hruns
    cases hruns

end UtilityClasses.Scan
