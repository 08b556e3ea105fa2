import UtilityClasses.Proofs.Arena.Code

/-!
# Paying for expressions

An expression that is read is paid for by bytes of its own: a literal by its first byte, an
operator by one of its bytes, and what is in brackets by the closing one. The opening bracket, and
each comma, pays for the region behind it, which may be empty.
-/

namespace UtilityClasses.Cursor

open Allocator (unbounded)
open Scan (Node run_lift_bind run_lift run_guard_bind run_ite discard_bind)

variable {source : List Char} {s t : State} {k : Nat} {alloc : Allocator} {mine theirs : Nested}
  {dialect : Dialect}

/-! ### Bytes that pay -/

/-- The first quote of a string is left over. -/
theorem State.Credit.skipString (h : s.Credit source k) (hzero : s.byteAt source 0 ≠ 0) :
  Ends source s skipString fun _ t => t.Credit source (k + 1)
  := by
  rw [Ends, Cursor.skipString, same_position, same_current]
  exact (h.advanceBy hzero).bind fun _ _ ht =>
    (Passes.rounds (fun _ => passes_stringRound) ()).ends ht

/-- The first character of a name is left over. -/
theorem State.Credit.eatName (h : s.Credit source k)
    (hname : isNameStart (s.byteAt source 0) = true) :
  Ends source s eatName fun _ t => t.Credit source (k + 1)
  := by
  have hzero : s.byteAt source 0 ≠ 0 := by
    intro heq
    rw [heq] at hname
    exact absurd hname (by decide)
  -- Nothing has been passed, or something is left over.
  apply Same.rounds (I := fun _ t => t = s ∨ t.Credit source (k + 1)) (.inl rfl)
  rintro _ t (rfl | ht)
  · rw [nameRound, same_current]
    refine .ite (fun hwide => ?_) fun _ => .ite (fun _ => ?_) fun hno => ?_
    · rw [advanceChar, bind_assoc, same_current]
      obtain ⟨more, hwidth⟩ : ∃ more, width (t.byteAt source 0) = more + 1 := by
        apply Nat.exists_eq_add_one_of_ne_zero
        rw [width]
        split_ifs <;> decide
      rw [hwidth]
      exact (h.advanceBy hzero).bind fun _ _ hu => .pure (.inr hu)
    · exact (h.advanceBy hzero).bind fun _ _ hu => .pure (.inr hu)
    · exact absurd (by rw [isNameByte, hname, Bool.true_or]) hno
  · exact (passes_nameRound.ends ht).mono fun round u hu => by
      cases round with
      | again _ => exact .inr hu
      | done _ => exact hu

/-- A text that is cut stands between the two offsets. -/
theorem exists_of_slice {start stop : Nat} {inside : List Char}
    (h : slice start stop source s = .ok (inside, t)) :
  ∃ before after, source = before ++ inside ++ after ∧ Text.byteSize before = start
  := by
  rw [slice, read_bind_apply] at h
  cases hstop : Text.cutAt stop source with
  | none =>
    rw [hstop] at h
    cases h
  | some cut =>
    rw [hstop] at h
    dsimp only at h
    cases hstart : Text.cutAt start cut.1 with
    | none =>
      rw [hstart] at h
      cases h
    | some cut' =>
      rw [hstart] at h
      cases h
      obtain ⟨hsource, -⟩ := Text.eq_append_of_cutAt hstop
      obtain ⟨hbefore, hsize⟩ := Text.eq_append_of_cutAt hstart
      exact ⟨cut'.1, cut.2, hbefore ▸ hsource, hsize⟩

/-- What is ahead starts with the byte at the cursor. -/
theorem byteAt_of_ahead {b : UInt8} {later : List UInt8}
    (h : ahead source s = .ok (b :: later, t)) :
  s.byteAt source 0 = b
  := by
  obtain ⟨_, _, ⟨⟩, h⟩ := exists_of_bind h
  obtain ⟨_, _, ⟨⟩, h⟩ := exists_of_bind h
  obtain ⟨inside, _, hslice, h⟩ := exists_of_bind h
  obtain ⟨hbytes, -⟩ := Prod.mk.inj (Except.ok.inj h)
  obtain ⟨before, after, rfl, hbefore⟩ := exists_of_slice hslice
  rw [State.byteAt, Nat.add_zero, ← hbefore, List.append_assoc, encode_append, encode_append,
    hbytes, ← length_encode, List.getElem?_append_right (Nat.le_refl _), Nat.sub_self]
  rfl

/-- If a text is ahead, its first byte is at the cursor. -/
theorem byteAt_of_startsWith {c : Char} {text : List Char} (hc : IsAscii c)
    (h : startsWith (c :: text) source s = .ok (true, t)) :
  s.byteAt source 0 = byte c
  := by
  obtain ⟨bytes, _, hahead, h⟩ := exists_of_bind h
  obtain ⟨hfront, -⟩ := Prod.mk.inj (Except.ok.inj h)
  obtain ⟨later, rfl⟩ := List.isPrefixOf_iff_prefix.mp hfront
  rw [encode_cons_of_isAscii hc] at hahead
  exact byteAt_of_ahead hahead

theorem ends_startsWith {c : Char} {text : List Char} (hc : IsAscii c) :
  Ends source s (startsWith (c :: text)) fun found t =>
    t = s ∧ (found = true → s.byteAt source 0 = byte c)
  := by
  refine ⟨rfl, fun found t hrun => ⟨looks_startsWith hrun, ?_⟩⟩
  rintro rfl
  exact byteAt_of_startsWith hc hrun

/-- A byte of a text that is passed over is left over. -/
theorem State.Credit.eatText (h : s.Credit source k) {c : Char} {text : List Char}
    (hc : IsAscii c) (hzero : byte c ≠ 0) :
  Ends source s (eatText (c :: text)) fun found t => t.Credit source (k + found.toNat)
  := by
  rw [Ends, Cursor.eatText, encode_cons_of_isAscii hc, List.length_cons]
  apply (ends_startsWith hc).bind
  rintro found _ ⟨rfl, hb⟩
  refine .ite (fun hfound => ?_) fun _ => .pure h
  exact (h.advanceBy (hb hfound ▸ hzero)).bind fun _ _ ht => .pure ht

/-- The word starts as an identifier does. -/
def IsWord (word : List Char) : Prop :=
  ∃ c text, word = c :: text ∧ IsAscii c ∧ isNameStart (byte c) = true

/-- The first character of a word that is passed over is left over. -/
theorem State.Credit.eatKeyword (h : s.Credit source k) {word : List Char} (hword : IsWord word) :
  Ends source s (eatKeyword word) fun found t => t.Credit source (k + found.toNat)
  := by
  obtain ⟨c, text, rfl, hc, hname⟩ := hword
  rw [Ends, Cursor.eatKeyword]
  apply (ends_startsWith hc).bind
  rintro found _ ⟨rfl, hb⟩
  refine .ite (fun hfound => ?_) fun _ => .pure h
  rw [← hb hfound] at hname
  rw [same_position]
  apply ((h.eatName hname).and (passes_eatName.endsAhead h.inside)).bind
  rintro _ t ⟨ht, hahead⟩
  refine looks_sliceFrom.step fun _ => .ite (fun _ => .pure ht) fun _ => ?_
  apply (h.back hahead).mono
  rintro _ _ ⟨rfl, hu⟩
  exact hu

theorem State.Credit.eatKeywords (h : s.Credit source k) {words : List (List Char)}
    (hwords : ∀ word ∈ words, IsWord word) :
  Ends source s (eatKeywords words) fun found t => t.Credit source (k + found.toNat)
  := by
  induction words generalizing s with
  | nil => exact .pure h
  | cons word words ih =>
    rw [List.forall_mem_cons] at hwords
    rw [Ends, Cursor.eatKeywords]
    apply (h.eatKeyword hwords.1).bind
    intro found t ht
    refine .ite (fun hfound => ?_) fun hno => ?_
    · subst hfound
      exact .pure ht
    · obtain rfl := eq_false_of_ne_true hno
      exact ih ht hwords.2

/-- The first byte of an operator in front of an operand is left over. -/
theorem State.Credit.eatUnary (h : s.Credit source k) :
  Ends source s eatUnary fun found t => t.Credit source (k + found.toNat)
  := by
  have hoperator : Ends source s eatPrefixOperator fun found t =>
      t.Credit source (k + found.toNat) := by
    rw [Ends, eatPrefixOperator, same_current, same_peek]
    refine .ite (fun hp => ?_) fun _ => .pure h
    simp only [Bool.and_eq_true] at hp
    have hzero : s.byteAt source 0 ≠ 0 := by
      intro heq
      rw [heq] at hp
      exact absurd hp.1 (by decide)
    exact (h.advanceBy hzero).bind fun _ _ ht => .pure ht
  rw [Ends, Cursor.eatUnary]
  apply hoperator.bind
  intro found t ht
  refine .ite (fun hfound => ?_) fun hno => ?_
  · subst hfound
    exact .pure ht
  · obtain rfl := eq_false_of_ne_true hno
    apply State.Credit.eatKeywords ht
    simp only [List.forall_mem_cons, List.not_mem_nil, false_implies, implies_true, and_true]
    exact ⟨⟨_, _, rfl, by decide⟩, ⟨_, _, rfl, by decide⟩, ⟨_, _, rfl, by decide⟩⟩

/-! ### Items of lists -/

/-- Blanks and comments are passed over, and there are none. -/
theorem ends_skipTrivia_of_byteAt {c : Char} (hb : s.byteAt source 0 = byte c)
    (hzero : byte c ≠ 0) (hspacing : isSpacing (byte c) = false) (hslash : byte c ≠ byte '/') :
  Ends source s skipTrivia fun _ t => t = s
  := by
  have hblank : Ends source s eatSpacing fun _ t => t = s := by
    refine ⟨rfl, fun _ t hrun => ?_⟩
    obtain ⟨-, rfl⟩ := ok_of_eatWhile hrun
    rw [drop_encode_eq_cons (hb ▸ hzero), hb, List.takeWhile_cons_of_neg (by simp [hspacing])]
    rfl
  have hcomment : Ends source s skipComment fun found t => found = false ∧ t = s := by
    rw [Ends, skipComment, same_current]
    exact .ite (fun heq => absurd (hb.symm.trans heq) hslash) fun _ => .pure ⟨rfl, rfl⟩
  apply Same.rounds (I := fun _ t => t = s) rfl
  rintro _ _ rfl
  apply hblank.bind
  rintro _ _ rfl
  apply hcomment.bind
  rintro _ _ ⟨rfl, rfl⟩
  exact .pure rfl

/-- A bracket that closes a list. -/
def IsClosing (close : Char) : Prop :=
  close = ')' ∨ close = ']'

/-- In front of an item, a byte is left over that can pay for it, or the list is at its end. -/
def State.BeforeItem (source : List Char) (close : Char) (k : Nat) (s : State) : Prop :=
  s.Credit source (k + 1) ∨ s.Credit source k ∧ s.byteAt source 0 = byte close

theorem State.BeforeItem.credit {close : Char} (h : s.BeforeItem source close k) :
  s.Credit source k
  := by
  obtain h | ⟨h, -⟩ := h
  · exact h.mono (Nat.le_add_right _ _)
  · exact h

theorem State.BeforeItem.credit_of_ne {close : Char} (h : s.BeforeItem source close k)
    (hne : s.byteAt source 0 ≠ byte close) :
  s.Credit source (k + 1)
  := by
  obtain h | ⟨-, hb⟩ := h
  · exact h
  · exact absurd hb hne

/-- At the end of a list there is no blank to pass over. -/
theorem State.BeforeItem.skipTrivia {close : Char} (h : s.BeforeItem source close k)
    (hclose : IsClosing close) :
  Ends source s skipTrivia fun _ t => t.BeforeItem source close k
  := by
  obtain h | ⟨h, hb⟩ := h
  · exact (passes_skipTrivia.ends h).mono fun _ _ ht => .inl ht
  · have hends : Ends source s Cursor.skipTrivia fun _ t => t = s := by
      obtain rfl | rfl := hclose
      all_goals exact ends_skipTrivia_of_byteAt hb (by decide) (by decide) (by decide)
    apply hends.mono
    rintro _ _ rfl
    exact .inr ⟨h, hb⟩

/-- The opening bracket pays for the first item, the comma in front of an item for every other one,
and the closing bracket for the list. -/
theorem same_listRound (hnested : mine.Pays source theirs) {close : Char} {gaps : Bool}
    {items : List ExprId} (hclose : IsClosing close) (h : s.BeforeItem source close k) :
  Same source s (listRound ⟨dialect, mine⟩ close gaps items).run
    (listRound ⟨dialect, theirs⟩ close gaps items).run
    (Tried (Goes (fun _ t => t.BeforeItem source close k) fun _ t => t.Credit source (k + 1)))
  := by
  have hzero : byte close ≠ 0 := by
    obtain rfl | rfl := hclose <;> decide
  rw [listRound, listRound]
  simp only [run_lift_bind, run_guard_bind, run_ite]
  apply (h.skipTrivia hclose).bind
  intro _ t ht
  rw [same_current]
  refine .ite (fun hend => ?_) fun hne => .ite (fun hgap => ?_) fun _ => ?_
  · exact ht.credit.advance hend hzero fun _ hu => .found hu
  · simp only [Bool.and_eq_true, decide_eq_true_eq] at hgap
    exact ht.credit.advance hgap.2 (by decide) fun _ hu => .found (.inl hu)
  apply (hnested.region (ht.credit_of_ne hne) _).bind
  intro item u hu
  rw [same_current]
  refine .ite (fun hcomma => ?_) fun _ => .ite (fun hend => ?_) fun _ => .none
  · exact hu.advance hcomma (by decide) fun _ hv => .found (.inl hv)
  · exact .found (.inr ⟨hu, hend⟩)

/-! ### Operands -/

variable (halloc : alloc.Suits source)
include halloc

/-- The first quote pays for a string. -/
theorem same_stringNode (h : s.Credit source k) (hzero : s.byteAt source 0 ≠ 0) {quote : Quote} :
  Same source s (alloc.stringNode quote) (unbounded.stringNode quote) fun _ t => t.Credit source k
  := by
  rw [Allocator.stringNode, Allocator.stringNode]
  apply (h.skipString hzero).bind
  intro span t ht
  exact looks_slice.step fun _ => halloc.store ht

variable (hnested : mine.Pays source theirs)
include hnested

/-- The first quote pays for a template, and the `$` of a hole for the region behind it. -/
theorem same_templateNode (h : s.Credit source k) (hb : s.byteAt source 0 = byte '\x60') :
  Same source s (alloc.templateNode ⟨dialect, mine⟩) (unbounded.templateNode ⟨dialect, theirs⟩)
    fun _ t => t.Credit source k
  := by
  rw [Allocator.templateNode, Allocator.templateNode, same_position]
  apply h.advance hb (by decide)
  intro t ht
  rw [same_position]
  apply Same.rounds (I := fun _ t => t.Credit source (k + 1)) ht
  intro template u hu
  rw [Allocator.templateNodeRound, Allocator.templateNodeRound]
  apply same_templatePart hu fun _ hv => hv
  · intro v hv _
    refine looks_sliceFrom.step fun _ => passes_advance.step hv fun _ _ hw =>
      looks_spanFrom.step fun _ => (halloc.store hw).bind fun _ _ hz => .pure hz
  · intro v hv hdollar
    refine looks_sliceFrom.step fun _ => ?_
    apply (hv.advanceBy (ne_zero_of_eq_byte hdollar (by decide))).bind
    intro _ w hw
    apply (hnested.region hw _).bind
    intro hole z hz
    rw [same_current]
    refine .ite (fun _ => ?_) fun _ => .fail
    exact passes_advance.step hz fun _ _ hlast => same_position.mpr (.pure hlast)

/-- The opening parenthesis pays for the node. -/
theorem same_parenNode (h : s.Credit source k) (hb : s.byteAt source 0 = byte '(') :
  Same source s (alloc.parenNode ⟨dialect, mine⟩).run (unbounded.parenNode ⟨dialect, theirs⟩).run
    (Tried fun _ t => t.Credit source k)
  := by
  rw [Allocator.parenNode, Allocator.parenNode]
  simp only [run_lift_bind]
  rw [same_position]
  apply h.advance hb (by decide)
  intro t ht
  refine passes_skipTrivia.step ht fun _ _ hu => (hnested.expression hu).tries fun _ v hv => ?_
  simp only [run_lift_bind, run_lift, run_guard_bind]
  apply passes_skipTrivia.step hv
  intro _ w hw
  rw [same_current]
  exact .ite (fun _ => passes_advance.step hw fun _ _ hz => halloc.storeFrom hz) fun _ => .none

theorem same_arrayNode (h : s.Credit source k) (hb : s.byteAt source 0 = byte '[') :
  Same source s (alloc.arrayNode ⟨dialect, mine⟩).run (unbounded.arrayNode ⟨dialect, theirs⟩).run
    (Tried fun _ t => t.Credit source k)
  := by
  rw [Allocator.arrayNode, Allocator.arrayNode, arrayRound_eq, arrayRound_eq]
  simp only [run_lift_bind]
  rw [same_position]
  apply h.advance hb (by decide)
  intro t ht
  apply (Same.trialRounds (I := fun _ t => t.BeforeItem source ']' k) (.inl ht)
    fun _ _ hu => same_listRound hnested (.inr rfl) hu).tries
  intro items u hu
  simp only [run_lift_bind, run_lift]
  exact halloc.storeFrom hu

theorem same_primary (h : s.Credit source k) :
  Same source s (alloc.primary ⟨dialect, mine⟩).run (unbounded.primary ⟨dialect, theirs⟩).run
    (Tried fun _ t => t.Credit source k)
  := by
  rw [Allocator.primary, Allocator.primary]
  simp only [run_lift_bind, run_lift, run_guard_bind, run_ite]
  rw [same_position, same_current]
  refine .ite (fun hdouble => ?_) fun _ => .ite (fun hsingle => ?_) fun _ =>
    .ite (fun hquote => ?_) fun _ => .ite (fun hparen => ?_) fun _ => .ite (fun hbracket => ?_)
    fun _ => .ite (fun hbrace => ?_) fun _ => .ite (fun hangle => ?_) fun _ =>
    .ite (fun hdigit => ?_) fun _ => .ite (fun hname => ?_) fun _ => .none
  · exact (same_stringNode halloc h (ne_zero_of_eq_byte hdouble (by decide))).some
  · exact (same_stringNode halloc h (ne_zero_of_eq_byte hsingle (by decide))).some
  · exact (same_templateNode halloc hnested h hquote).some
  · exact same_parenNode halloc hnested h hparen
  · exact same_arrayNode halloc hnested h hbracket
  · exact (same_skipBraced hnested h hbrace).bind fun _ _ ht => halloc.storeFrom ht
  · simp only [Bool.and_eq_true, decide_eq_true_eq] at hangle
    apply (same_element hnested h hangle.1).bind
    intro found t ht
    refine .ite (fun hfound => ?_) fun _ => .none
    subst hfound
    exact halloc.storeFrom ht
  · have hzero : s.byteAt source 0 ≠ 0 := by
      intro heq
      rw [heq] at hdigit
      exact absurd hdigit (by decide)
    apply (h.eatWhile hzero (by rw [isNameByte, hdigit, Bool.or_true, Bool.true_or])).bind
    exact fun _ _ ht => halloc.storeFrom ht
  · apply (h.eatName hname).bind
    intro _ t ht
    exact looks_sliceFrom.step fun _ => .ite (fun _ => halloc.storeFrom ht) fun _ => .none

/-! ### Member access, calls and indices -/

omit hnested in
/-- A byte in front of a property pays for the member access. -/
theorem same_memberNode (h : s.Credit source (k + 1)) {object : Node} :
  Same source s (alloc.memberNode object).run (unbounded.memberNode object).run
    (Tried fun _ t => t.Credit source k)
  := by
  rw [Allocator.memberNode, Allocator.memberNode]
  have hproperty : Ends source s propertyName.run (Tried fun _ t => t.Credit source (k + 1)) :=
    (passes_propertyName.ends h).mono fun _ _ ht _ _ => ht
  apply hproperty.tries
  intro property t ht
  simp only [run_lift_bind, run_lift]
  exact halloc.storeFrom ht

/-- The opening parenthesis pays for the first argument, and the closing one for the call. -/
theorem same_callNode (h : s.Credit source k) (hb : s.byteAt source 0 = byte '(')
    {callee : Node} :
  Same source s (alloc.callNode ⟨dialect, mine⟩ callee).run
    (unbounded.callNode ⟨dialect, theirs⟩ callee).run (Tried fun _ t => t.Credit source k)
  := by
  rw [Allocator.callNode, Allocator.callNode, callRound_eq, callRound_eq]
  simp only [run_lift_bind]
  apply h.advance hb (by decide)
  intro t ht
  apply (Same.trialRounds (I := fun _ t => t.BeforeItem source ')' k) (.inl ht)
    fun _ _ hu => same_listRound hnested (.inl rfl) hu).tries
  intro args u hu
  simp only [run_lift_bind, run_lift]
  exact halloc.storeFrom hu

/-- The opening bracket pays for what is inside, and the closing one for the node. -/
theorem same_indexNode (h : s.Credit source k) (hb : s.byteAt source 0 = byte '[')
    {object : Node} :
  Same source s (alloc.indexNode ⟨dialect, mine⟩ object).run
    (unbounded.indexNode ⟨dialect, theirs⟩ object).run (Tried fun _ t => t.Credit source k)
  := by
  rw [Allocator.indexNode, Allocator.indexNode]
  simp only [run_lift_bind, run_lift, run_guard_bind, discard_bind]
  apply h.advance hb (by decide)
  intro t ht
  apply (hnested.region ht _).bind
  intro _ u hu
  rw [same_current]
  refine .ite (fun hclose => ?_) fun _ => .none
  exact hu.advance hclose (by decide) fun _ hv => halloc.storeFrom hv

theorem same_optionalNode (h : s.Credit source (k + 1)) {node : Node} :
  Same source s (alloc.optionalNode ⟨dialect, mine⟩ node).run
    (unbounded.optionalNode ⟨dialect, theirs⟩ node).run (Tried fun _ t => t.Credit source k)
  := by
  have hless {found : Option Node} {t : State} (ht : Tried (fun _ t => t.Credit source (k + 1))
      found t) : Tried (fun _ t => t.Credit source k) found t :=
    fun a ha => (ht a ha).mono (Nat.le_add_right _ _)
  rw [Allocator.optionalNode, Allocator.optionalNode]
  simp only [run_lift_bind, run_ite]
  rw [same_current]
  refine .ite (fun hparen => ?_) fun _ => .ite (fun hbracket => ?_) fun _ =>
    same_memberNode halloc h
  · exact (same_callNode halloc hnested h hparen).mono fun _ _ => hless
  · exact (same_indexNode halloc hnested h hbracket).mono fun _ _ => hless

/-- The dot, the question mark or the exclamation mark pays for what it makes of an operand. -/
theorem same_suffixRound (h : s.Credit source k) {node : Node} :
  Same source s (alloc.suffixRound ⟨dialect, mine⟩ node).run
    (unbounded.suffixRound ⟨dialect, theirs⟩ node).run
    (Tried (Goes (fun _ t => t.Credit source k) fun _ t => t.Credit source k))
  := by
  have hagain {t : State} {x y : Trial Node}
      (hxy : Same source t x.run y.run (Tried fun _ t => t.Credit source k)) :
      Same source t (do return .again (← x) : Trial (Round Node Node)).run
        (do return .again (← y) : Trial (Round Node Node)).run
        (Tried (Goes (fun _ t => t.Credit source k) fun _ t => t.Credit source k)) :=
    hxy.tries fun _ _ ht => .found ht
  rw [Allocator.suffixRound, Allocator.suffixRound]
  simp only [run_lift_bind, run_ite]
  apply passes_skipTrivia.step h
  intro _ t ht
  rw [same_current, same_peek]
  refine .ite (fun _ => .found ht) fun _ => .ite (fun hdot => ?_) fun _ => ?_
  · refine ht.advance hdot (by decide) fun _ hu => passes_skipTrivia.step hu fun _ _ hv => ?_
    exact hagain (same_memberNode halloc hv)
  refine looks_byteAhead.step fun _ => .ite (fun hoptional => ?_) fun _ =>
    .ite (fun hparen => ?_) fun _ => .ite (fun hbracket => ?_) fun _ => .ite (fun hmark => ?_)
    fun _ => .found ht
  · simp only [Bool.and_eq_true, decide_eq_true_eq] at hoptional
    apply (ht.advanceBy (ne_zero_of_eq_byte hoptional.1.1 (by decide))).bind
    exact fun _ _ hu => passes_skipTrivia.step hu fun _ _ hv =>
      hagain (same_optionalNode halloc hnested hv)
  · exact hagain (same_callNode halloc hnested ht hparen)
  · exact hagain (same_indexNode halloc hnested ht hbracket)
  · simp only [Bool.and_eq_true, decide_eq_true_eq] at hmark
    refine ht.advance hmark.1 (by decide) fun _ hu => looks_spanFrom.step fun _ => ?_
    exact (halloc.store hu).bind fun _ _ hv => .found hv

/-- The first byte of an operator in front of an operand pays for the node. -/
theorem same_operand (h : s.Credit source k) :
  Same source s (alloc.operand ⟨dialect, mine⟩).run (unbounded.operand ⟨dialect, theirs⟩).run
    (Tried fun _ t => t.Credit source k)
  := by
  rw [Allocator.operand, Allocator.operand]
  simp only [run_lift_bind, run_ite]
  apply passes_skipTrivia.step h
  intro _ t ht
  rw [same_position]
  apply (ht.eatText (by decide) (by decide)).bind
  intro spread u hu
  refine .ite (fun hspread => ?_) fun hno => ?_
  · subst hspread
    refine passes_skipTrivia.step hu fun _ _ hv => (hnested.operand hv).tries fun _ _ hw => ?_
    exact (halloc.store hw).some
  obtain rfl := eq_false_of_ne_true hno
  apply State.Credit.eatUnary hu |>.bind
  intro unary v hv
  refine .ite (fun hunary => ?_) fun hno => ?_
  · subst hunary
    refine passes_skipTrivia.step hv fun _ _ hw => (hnested.operand hw).tries fun _ _ hz => ?_
    exact (halloc.store hz).some
  · obtain rfl := eq_false_of_ne_true hno
    apply (same_primary halloc hnested hv).tries
    exact fun _ _ hw => .trialRounds (I := fun _ t => t.Credit source k) hw fun _ _ hz =>
      same_suffixRound halloc hnested hz

/-! ### Logical operators and conditionals -/

/-- The first byte of the operator pays for the node. -/
theorem same_andRound (h : s.Credit source k) {left : Node} :
  Same source s (alloc.andRound ⟨dialect, mine⟩ left).run
    (unbounded.andRound ⟨dialect, theirs⟩ left).run
    (Tried (Goes (fun _ t => t.Credit source k) fun _ t => t.Credit source k))
  := by
  rw [Allocator.andRound, Allocator.andRound]
  simp only [run_lift_bind, run_ite]
  apply passes_skipTrivia.step h
  intro _ t ht
  apply (ends_startsWith (by decide)).bind
  rintro found _ ⟨rfl, hb⟩
  refine looks_byteAhead.step fun _ => .ite (fun hfound => ?_) fun _ => .found ht
  simp only [Bool.and_eq_true] at hfound
  apply (ht.advanceBy (ne_zero_of_eq_byte (hb hfound.1) (by decide))).bind
  intro _ u hu
  refine passes_skipTrivia.step hu fun _ _ hv => (same_operand halloc hnested hv).tries
    fun _ _ hw => ?_
  exact (halloc.store hw).some.tries fun _ _ hz => .found hz

theorem same_conjunction (h : s.Credit source k) :
  Same source s (alloc.conjunction ⟨dialect, mine⟩).run
    (unbounded.conjunction ⟨dialect, theirs⟩).run (Tried fun _ t => t.Credit source k)
  := (same_operand halloc hnested h).tries fun _ _ ht =>
    .trialRounds (I := fun _ t => t.Credit source k) ht fun _ _ hu =>
      same_andRound halloc hnested hu

omit halloc hnested in
theorem ne_zero_of_orOperator? {b next : UInt8} {op : LogicalOp}
    (h : orOperator? b next = some op) :
  b ≠ 0
  := by
  rintro rfl
  simp [orOperator?, show (0 : UInt8) ≠ byte '|' by decide, show (0 : UInt8) ≠ byte '?' by decide]
    at h

theorem same_orRound (h : s.Credit source k) {left : Node} :
  Same source s (alloc.orRound ⟨dialect, mine⟩ left).run
    (unbounded.orRound ⟨dialect, theirs⟩ left).run
    (Tried (Goes (fun _ t => t.Credit source k) fun _ t => t.Credit source k))
  := by
  rw [Allocator.orRound, Allocator.orRound]
  simp only [run_lift_bind]
  apply passes_skipTrivia.step h
  intro _ t ht
  rw [same_current, same_peek]
  cases hop : orOperator? (t.byteAt source 0) (t.byteAt source 1) with
  | none => exact .found ht
  | some op =>
    simp only [run_lift_bind, run_ite]
    refine looks_byteAhead.step fun _ => .ite (fun _ => .found ht) fun _ => ?_
    apply (ht.advanceBy (ne_zero_of_orOperator? hop)).bind
    intro _ u hu
    refine passes_skipTrivia.step hu fun _ _ hv => (same_conjunction halloc hnested hv).tries
      fun _ _ hw => ?_
    exact (halloc.store hw).some.tries fun _ _ hz => .found hz

theorem same_disjunction (h : s.Credit source k) :
  Same source s (alloc.disjunction ⟨dialect, mine⟩).run
    (unbounded.disjunction ⟨dialect, theirs⟩).run (Tried fun _ t => t.Credit source k)
  := (same_conjunction halloc hnested h).tries fun _ _ ht =>
    .trialRounds (I := fun _ t => t.Credit source k) ht fun _ _ hu =>
      same_orRound halloc hnested hu

/-- The question mark pays for a conditional. -/
theorem same_expression (h : s.Credit source k) :
  Same source s (alloc.expression ⟨dialect, mine⟩).run (unbounded.expression ⟨dialect, theirs⟩).run
    (Tried fun _ t => t.Credit source k)
  := by
  rw [Allocator.expression, Allocator.expression]
  apply (same_disjunction halloc hnested h).tries
  intro test t ht
  simp only [run_lift_bind, run_ite]
  apply passes_skipTrivia.step ht
  intro _ u hu
  have hconditional : Ends source u atConditional fun found v =>
      v = u ∧ (found = true → u.byteAt source 0 = byte '?') := by
    rw [Ends, atConditional, same_current, same_peek, same_peek]
    refine looks_byteAhead.step fun _ => .pure ⟨rfl, fun hfound => ?_⟩
    simp only [Bool.and_eq_true, decide_eq_true_eq] at hfound
    exact hfound.1.1
  apply hconditional.bind
  rintro found _ ⟨rfl, hb⟩
  refine .ite (fun hfound => ?_) fun _ => .found hu
  refine hu.advance (hb hfound) (by decide) fun _ hv => passes_skipTrivia.step hv fun _ _ hw =>
    (hnested.expression hw).tries fun _ _ hz => ?_
  simp only [run_lift_bind, run_guard_bind]
  apply passes_skipTrivia.step hz
  intro _ v hv
  rw [same_current]
  refine .ite (fun _ => ?_) fun _ => .none
  refine passes_advance.step hv fun _ _ hw => passes_skipTrivia.step hw fun _ _ hz =>
    (hnested.expression hz).tries fun _ _ hlast => ?_
  exact (halloc.store hlast).some

/-! ### Regions -/

theorem same_wholeExpression (h : s.Credit source k) {stops : List Char} :
  Same source s (alloc.wholeExpression ⟨dialect, mine⟩ stops).run
    (unbounded.wholeExpression ⟨dialect, theirs⟩ stops).run (Tried fun _ t => t.Credit source k)
  := by
  rw [Allocator.wholeExpression, Allocator.wholeExpression]
  apply (same_expression halloc hnested h).tries
  intro node t ht
  simp only [run_lift_bind, run_guard_bind]
  refine passes_skipTrivia.step ht fun _ _ hu => looks_byteAhead.step fun _ =>
    looks_atEnd.step fun _ => .ite (fun _ => .found hu) fun _ => .none

omit halloc hnested in
/-- What an attempt has added is cut off again when the cursor goes back. -/
theorem ends_restore {after : State} (hextended : s.Extended after)
    (hcut : (Text.cutAt s.pos source).isSome) :
  Ends source after (do
    moveTo s.pos
    truncate s.elements.size s.arena.size) fun _ t => t = s
  := by
  refine ⟨rfl, fun _ t hrun => ?_⟩
  rw [bind_apply, moveTo_eq_ite, if_pos hcut] at hrun
  cases hrun
  simp only [take_size_eq hextended.elements, take_size_eq hextended.arena]

/-- A byte in front of a region pays for it if nothing in it does. -/
theorem same_region (happends : theirs.Appends) (h : s.Credit source (k + 1)) (stops : List Char) :
  Same source s (alloc.region ⟨dialect, mine⟩ stops) (unbounded.region ⟨dialect, theirs⟩ stops)
    fun _ t => t.Credit source k
  := by
  have hcontext : (Context.mk dialect theirs).nested.Appends := happends
  have hcut : Ends source s skipTrivia fun _ t => (Text.cutAt t.pos source).isSome :=
    ⟨rfl, fun _ _ hrun => isSome_cutAt_of_skipTrivia hrun⟩
  rw [Allocator.region, Allocator.region]
  apply ((passes_skipTrivia.ends h).and hcut).bind
  rintro _ before ⟨hbefore, hcut⟩
  rw [same_get]
  have hwhole : Same source before (alloc.wholeExpression ⟨dialect, mine⟩ stops).run
      (unbounded.wholeExpression ⟨dialect, theirs⟩ stops).run
      (Tried fun _ t => t.Credit source (k + 1)) :=
    same_wholeExpression halloc hnested hbefore
  have hextended : Same source before (alloc.wholeExpression ⟨dialect, mine⟩ stops).run
      (unbounded.wholeExpression ⟨dialect, theirs⟩ stops).run fun _ t => before.Extended t :=
    ⟨hwhole.1, fun _ _ hrun => appends_wholeExpression hcontext hrun⟩
  apply (hwhole.and hextended).bind
  rintro found after ⟨htried, hextended⟩
  cases found with
  | some node => exact .pure ((htried node rfl).mono (Nat.le_add_right _ _))
  | none =>
    have hcode {u : State} (hu : u = before) :
        Same source u
          (do
            discard (code ⟨dialect, mine⟩ stops)
            alloc.store .verbatim (← spanFrom before.pos))
          (do
            discard (code ⟨dialect, theirs⟩ stops)
            store .verbatim (← spanFrom before.pos))
          fun _ t => t.Credit source k := by
      obtain rfl := hu
      rw [discard_bind, discard_bind]
      apply (same_code hnested hbefore stops).bind
      intro _ t ht
      exact looks_spanFrom.step fun _ => halloc.store ht
    have hrestored := (ends_restore hextended hcut).bind fun _ _ hu => hcode hu
    simpa only [bind_assoc] using hrestored

end UtilityClasses.Cursor
