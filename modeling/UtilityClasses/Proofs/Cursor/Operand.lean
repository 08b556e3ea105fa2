import UtilityClasses.Cursor.Expression
import UtilityClasses.Proofs.Cursor.Trial
import UtilityClasses.Scan.Expression

/-!
# Operands, byte by byte

Literals, parentheses, arrays and names are read as they are scanned.
-/

namespace UtilityClasses.Cursor

open Allocator (unbounded)
open Scan (Runs Node templateText discard_bind run_lift run_lift_bind run_guard_bind run_ite)

variable {source : List Char} {s t : Scan.State} {mine : Context} {theirs : Scan.Context}

/-! ### Strings and templates -/

theorem mirrors_stringNode {quote : Quote} {delimiter : Char}
    (hdelimiter : delimiter = '"' ∨ delimiter = '\'') (hhead : s.rest.head? = some delimiter) :
  Mirrors source s (unbounded.stringNode quote) (Scan.stringNode quote delimiter)
  := by
  have hascii : IsAscii delimiter := by obtain rfl | rfl := hdelimiter <;> decide
  apply Agrees.of_at
  intro hat
  rw [Allocator.stringNode, Scan.stringNode]
  apply (agrees_skipString hdelimiter hhead).bind
  rintro _ ⟨body, span⟩ t ht ⟨rfl, hfollows⟩
  obtain ⟨hrest, rfl, rfl⟩ := Scan.runs_stringLiteral ht hhead
  have hopen : (s.after 1).rest = body ++ delimiter :: (s.after (body.length + 2)).rest := by
    rw [Scan.State.after_rest, hrest]
    rfl
  have hclose : ((s.after 1).after body.length).rest =
      delimiter :: (s.after (body.length + 2)).rest :=
    Scan.State.after_length_rest hopen
  have hstop : (s.after (body.length + 2)).pos = ((s.after 1).after body.length).pos + 1 := by
    rw [← pos_after_one hascii (by rw [hclose, List.head?_cons]), Scan.State.after_after,
      Scan.State.after_after, Nat.add_comm 1, Nat.add_assoc]
  dsimp only
  rw [hstop, Nat.add_sub_cancel, ← pos_after_one hascii hhead,
    agrees_slice (hat.after 1) ((hat.after 1).after body.length) (by rw [hclose, hopen]), ← hstop]
  exact mirrors_store.follow hfollows

/-- What the scan of a template does behind a text, given the texts and the holes in front of it:
it comes to the end, or reads a hole. -/
def templateNodeItem (theirs : Scan.Context) (start : Nat) (texts : List String)
    (holes : List ExprId) : Scan (Round Template Node) := do
  let ahead ← Scan.rest
  if ahead.head? = some '\x60' then
    Scan.skip 1
    return .done (← Scan.store (.template texts holes) (← Scan.spanFrom start))
  else if ahead.isEmpty then Scan.fail .openTemplate start
  else
    Scan.skip 2
    let hole ← theirs.nested.region ['\x7d']
    if (← Scan.rest).head? = some '\x7d' then
      Scan.skip 1
      return .again ⟨texts, holes ++ [hole.id], ← Scan.position⟩
    else
      Scan.fail .openTemplate start

theorem templateFrom_succ (budget start : Nat) (texts : List String) (holes : List ExprId)
    (s : Scan.State) :
  Scan.templateFrom theirs start (budget + 1) texts holes s =
    (set (s.after (templateText s.rest)) >>= fun _ =>
      templateNodeItem theirs start
        (texts ++ [String.ofList (Literal.decode (s.rest.take (templateText s.rest)))]) holes >>=
      Round.goOn fun template =>
        Scan.templateFrom theirs start budget template.texts template.holes) s
  := by
  have hend := Scan.drop_templateText s.rest
  rw [← Scan.State.after_rest] at hend
  change _ = (templateNodeItem theirs start _ holes >>= _) (s.after (templateText s.rest))
  simp only [Scan.templateFrom, Scan.bind_apply Scan.rest, Scan.rest_apply,
    Scan.bind_apply (Scan.take (templateText s.rest)), Scan.take_apply, templateNodeItem,
    bind_assoc]
  generalize s.after (templateText s.rest) = u at hend
  obtain hnil | hquote | ⟨later, hhole⟩ := hend
  · rw [hnil]
    rfl
  · obtain ⟨later, hlater⟩ := List.head?_eq_some_iff.mp hquote
    rw [hlater]
    rfl
  · rw [hhole, List.head?_cons, if_neg (by decide), List.isEmpty_cons,
      if_neg Bool.false_ne_true]
    simp only [bind_assoc]
    refine congrFun (bind_congr fun _ => bind_congr fun hole => bind_congr fun ahead => ?_) u
    split
    · simp only [bind_assoc]
      rfl
    · rfl

/-- The texts and the holes of a template are read as a whole. -/
theorem mirrors_templateNodeRounds (s : Scan.State) (h : mine.Agrees source theirs s.rest.length)
    {budget : Nat} (hbudget : s.rest.length < budget) (start : Nat) (texts : List String)
    (holes : List ExprId) :
  Mirrors source s (rounds (unbounded.templateNodeRound mine start) ⟨texts, holes, s.pos⟩)
    (Scan.templateFrom theirs start budget texts holes)
  := by
  obtain ⟨more, rfl⟩ := Nat.exists_eq_succ_of_ne_zero (Nat.ne_zero_of_lt hbudget)
  apply Agrees.of_at
  intro hat
  rw [Nat.succ_eq_add_one, Agrees.congr_right (templateFrom_succ ..)]
  have hfollows := Follows.after s (templateText s.rest)
  have htext : s.rest = s.rest.take (templateText s.rest) ++ (s.after (templateText s.rest)).rest :=
    (List.take_append_drop _ _).symm
  apply Agrees.templateRounds (P := fun r r' v =>
      r = r' ∧ Moves (s.after (templateText s.rest)) v r ∧
        ∀ template, r = .again template → template.segment = v.pos)
    (by rfl) rfl _ _ _ _ _ s (.refl s)
  · intro hquote
    rw [agrees_sliceFrom hat htext, templateNodeItem, agrees_scan_rest, if_pos hquote]
    apply (mirrors_advance (by decide) hquote).bind
    intro _ t _ hfollows'
    rw [agrees_spanFrom, agrees_scan_spanFrom]
    apply mirrors_store.bind
    intro node u _ hfollows''
    exact .pure ⟨rfl, hfollows'.trans hfollows'', nofun⟩
  · intro hhole
    have hhead : (s.after (templateText s.rest)).rest.head? = some '$' := by
      obtain ⟨later, hlater⟩ := hhole
      rw [← hlater]
      rfl
    have hne := ne_nil_of_head? hhead
    rw [agrees_sliceFrom hat htext, templateNodeItem, agrees_scan_rest,
      if_neg (by rw [hhead]; decide), if_neg (by rwa [List.isEmpty_iff])]
    apply (mirrors_advanceBy ['$', '\x7b'] (forall_isAscii (by decide)) hhole).bind
    rintro _ t ht hfollows'
    obtain rfl := Scan.runs_skip.mp ht
    have hlt := Scan.length_after_lt hne Nat.two_pos
    apply (h.nested.region (Nat.lt_of_lt_of_le hlt hfollows.length_le) (by simp [AreStops])).bind
    intro node v _ hfollows''
    rw [agrees_current, agrees_scan_rest]
    apply Agrees.ite (lead_eq_byte_iff (by decide))
    · intro hclose
      apply (mirrors_advance (by decide) hclose).bind
      intro _ w _ hlast
      rw [agrees_position, agrees_scan_position]
      have hw := hfollows''.trans hlast
      refine .pure ⟨rfl, ⟨hfollows'.trans hw, Nat.lt_of_le_of_lt hw.length_le hlt⟩, ?_⟩
      rintro template heq
      cases heq
      rfl
    · exact fun _ => .fail
  · intro hnil
    rw [templateNodeItem, Scan.bind_apply, Scan.rest_apply]
    simp only [hnil]
    rfl
  · rintro _ _ t ⟨rfl, hfollows', -⟩
    exact .pure ⟨rfl, hfollows.trans hfollows'⟩
  · rintro ⟨texts', holes', segment⟩ _ t ⟨rfl, ⟨hfollows', hlt⟩, hsegment⟩
    obtain rfl : segment = t.pos := hsegment _ rfl
    have hlt' := Nat.lt_of_lt_of_le hlt hfollows.length_le
    have hbudget' : t.rest.length < more := by omega
    refine ⟨hfollows', hlt, ?_⟩
    exact (mirrors_templateNodeRounds t (h.mono (Nat.le_of_lt hlt')) hbudget' start _ _).follow
      (hfollows.trans hfollows')
  termination_by s.rest.length

theorem mirrors_templateNode (h : mine.Agrees source theirs s.rest.length)
    (hhead : s.rest.head? = some '\x60') :
  Mirrors source s (unbounded.templateNode mine) (Scan.templateNode theirs)
  := by
  rw [Mirrors, Allocator.templateNode, agrees_position, Scan.templateNode, agrees_scan_position]
  apply (mirrors_advance (by decide) hhead).bind
  intro _ t _ hfollows
  rw [agrees_position]
  have hmine := h.follow hfollows
  exact (mirrors_templateNodeRounds t hmine hmine.budget s.pos [] []).follow hfollows

/-! ### Parentheses and arrays -/

theorem mirrors_parenNode (h : mine.Agrees source theirs s.rest.length)
    (hhead : s.rest.head? = some '(') :
  Mirrors source s (unbounded.parenNode mine).run (Scan.parenNode theirs).run
  := by
  rw [Allocator.parenNode, Scan.parenNode]
  simp only [run_lift_bind]
  rw [Mirrors, agrees_position, agrees_scan_position]
  apply (mirrors_advance (by decide) hhead).bind
  rintro _ t ht hfollows
  obtain rfl := Scan.runs_skip.mp ht
  apply (mirrors_skipTrivia _).bind
  intro _ u _ hu
  have hlt := Follows.length_lt_of_after hu (ne_nil_of_head? hhead)
  apply (h.nested.expression hlt).attempt
  · exact fun v hv => ⟨rfl, (hfollows.trans hu).trans hv⟩
  intro inner v _ hv
  simp only [run_lift_bind, run_lift, run_guard_bind]
  apply (mirrors_skipTrivia _).bind
  intro _ w _ hw
  rw [agrees_current, agrees_scan_rest]
  have hall := ((hfollows.trans hu).trans hv).trans hw
  apply Agrees.ite (lead_eq_byte_iff (by decide))
  · intro hclose
    apply (mirrors_advance (by decide) hclose).bind
    intro _ x _ hx
    exact mirrors_some_store.follow (hall.trans hx)
  · exact fun _ => .pure ⟨rfl, hall⟩

/-! ### Lists -/

/-- Reads the next item of a list or its end, given the items read so far. In some lists there can
be commas without an item in front of them. -/
def listRound (context : Context) (close : Char) (gaps : Bool) (items : List ExprId) :
    Trial (Round (List ExprId) (List ExprId)) := do
  skipTrivia
  let b ← current
  if b = byte close then
    advance
    return .done items
  else if gaps && b = byte ',' then
    advance
    return .again items
  else
    let item ← context.nested.region [',', close]
    let next ← current
    if next = byte ',' then
      advance
      return .again (items ++ [item.id])
    else
      guard (next = byte close)
      return .again (items ++ [item.id])

theorem arrayRound_eq : 
  arrayRound mine = listRound mine ']' true
  := by
  funext items
  simp only [arrayRound, listRound, Bool.true_and, decide_eq_true_eq]

theorem callRound_eq : 
  callRound mine = listRound mine ')' false
  := by
  funext items
  simp only [callRound, listRound, Bool.false_and, Bool.false_eq_true, if_false]

/-- What the scan of a list does at an item: it reads the item or the end of the list, given the
items read so far. The end may come right behind the item. -/
def listItem (theirs : Scan.Context) (close : Char) (gaps : Bool) (items : List ExprId) :
    Attempt (Round (List ExprId × Bool) (List ExprId)) := do
  Scan.skipTrivia
  let first := (← Scan.rest).head?
  if first = some close then
    Scan.skip 1
    return .done items
  else if gaps && first = some ',' then
    Scan.skip 1
    return .again (items, false)
  else
    let item ← theirs.nested.region [',', close]
    let next := (← Scan.rest).head?
    if next = some ',' then
      Scan.skip 1
      return .again (items ++ [item.id], false)
    else
      guard (next = some close)
      return .again (items ++ [item.id], true)

/-- Reads the items of a list up to its end. -/
def listTail (theirs : Scan.Context) (close : Char) (gaps : Bool) :
    Nat → List ExprId → Attempt (List ExprId)
  | 0, _ => Scan.exhaust
  | budget + 1, items => do
    listItem theirs close gaps items >>= Round.goOn fun (items, last) => do
      if last then
        Scan.skip 1
        return items
      else listTail theirs close gaps budget items

theorem arrayItems_eq (budget : Nat) (items : List ExprId) :
  Scan.arrayItems theirs budget items = listTail theirs ']' true budget items
  := by
  induction budget generalizing items with
  | zero => rfl
  | succ budget ih =>
    rw [Scan.arrayItems, listTail, listItem]
    simp only [bind_assoc]
    refine bind_congr fun _ => bind_congr fun ahead => ?_
    by_cases hclose : ahead.head? = some ']'
    · simp [hclose, Round.goOn]
    · by_cases hgap : ahead.head? = some ','
      · simp [hgap, Round.goOn, ih]
      · simp only [hclose, hgap, if_false, decide_false, Bool.and_false, Bool.false_eq_true,
          bind_assoc]
        refine bind_congr fun item => bind_congr fun next => ?_
        by_cases hcomma : next.head? = some ',' <;> simp [hcomma, Round.goOn, ih]

theorem callArguments_eq (budget : Nat) (args : List ExprId) :
  Scan.callArguments theirs budget args = listTail theirs ')' false budget args
  := by
  induction budget generalizing args with
  | zero => rfl
  | succ budget ih =>
    rw [Scan.callArguments, listTail, listItem]
    simp only [bind_assoc]
    refine bind_congr fun _ => bind_congr fun ahead => ?_
    by_cases hclose : ahead.head? = some ')'
    · simp [hclose, Round.goOn]
    · simp only [hclose, if_false, Bool.false_and, Bool.false_eq_true, bind_assoc]
      refine bind_congr fun arg => bind_congr fun next => ?_
      by_cases hcomma : next.head? = some ',' <;> simp [hcomma, Round.goOn, ih]

/-- How a round over a list and the scan of an item have ended. -/
inductive ListStep (close : Char) (s t : Scan.State) :
    Option (Round (List ExprId) (List ExprId)) →
    Option (Round (List ExprId × Bool) (List ExprId)) → Prop
  | none (hfollows : Follows s t) : ListStep close s t none none
  | done (items : List ExprId) (hfollows : Follows s t) :
      ListStep close s t (some (.done items)) (some (.done items))
  | again (items : List ExprId) (last : Bool) (hfollows : Follows s t)
      (hlt : t.rest.length < s.rest.length) (hlast : last = true → t.rest.head? = some close) :
      ListStep close s t (some (.again items)) (some (.again (items, last)))

variable {close : Char} {gaps : Bool}

/-- A round over a list reads what the scan of an item does. -/
theorem agrees_listRound {count : Nat} (h : mine.Agrees source theirs count)
    (hcount : s.rest.length < count) (hclose : close ∈ [')', ']']) (items : List ExprId) :
  Agrees source s (listRound mine close gaps items).run (listItem theirs close gaps items).run
    fun r r' t => ListStep close s t r r'
  := by
  have hstops : AreStops [',', close] := by
    simp only [List.mem_cons, List.not_mem_nil, or_false] at hclose
    obtain rfl | rfl := hclose <;> simp [AreStops]
  have hsign : IsSign close := hstops.isSign (by simp)
  rw [listRound, listItem]
  simp only [run_lift_bind, run_ite, run_guard_bind, OptionT.run_pure]
  apply (mirrors_skipTrivia s).bind
  intro _ t _ hfollows
  rw [agrees_current, agrees_scan_rest]
  apply Agrees.ite (lead_eq_byte_iff hsign)
  · intro hend
    apply (mirrors_advance hsign.1 hend).bind
    intro _ u _ hfollows'
    exact .pure (.done items (hfollows.trans hfollows'))
  intro hend
  apply Agrees.ite (by simp (disch := decide) only [lead_eq_byte_iff])
  · intro hgap
    rw [Bool.and_eq_true, decide_eq_true_eq] at hgap
    apply (mirrors_advance (by decide) hgap.2).bind
    intro _ u hu hfollows'
    obtain rfl := Scan.runs_skip.mp hu
    have hlt := Scan.length_after_lt (ne_nil_of_head? hgap.2) Nat.one_pos
    exact .pure (.again items false (hfollows.trans hfollows')
      (Nat.lt_of_lt_of_le hlt hfollows.length_le) fun h => absurd h Bool.false_ne_true)
  intro _
  apply (h.nested.region (Nat.lt_of_le_of_lt hfollows.length_le hcount) hstops).bind
  intro item u _ hfollows'
  have hall := hfollows.trans hfollows'
  rw [agrees_current, agrees_scan_rest]
  apply Agrees.ite (lead_eq_byte_iff (by decide))
  · intro hcomma
    apply (mirrors_advance (by decide) hcomma).bind
    intro _ v hv hfollows''
    obtain rfl := Scan.runs_skip.mp hv
    have hlt := Scan.length_after_lt (ne_nil_of_head? hcomma) Nat.one_pos
    exact .pure (.again _ false (hall.trans hfollows'')
      (Nat.lt_of_lt_of_le hlt hall.length_le) fun h => absurd h Bool.false_ne_true)
  intro _
  apply Agrees.ite (lead_eq_byte_iff hsign)
  · intro hlast
    -- The end of the list was not there in front of the item.
    have hlt : u.rest.length < t.rest.length := by
      apply hfollows'.length_lt
      intro hsame
      exact hend (hsame ▸ hlast)
    exact .pure (.again _ true hall (Nat.lt_of_lt_of_le hlt hfollows.length_le) fun _ => hlast)
  · exact fun _ => .pure (.none hall)

/-- The end of a list right behind an item. -/
theorem mirrors_listEnd (hclose : close ∈ [')', ']']) (hlast : s.rest.head? = some close)
    (items : List ExprId) :
  Mirrors source s (Trial.rounds (listRound mine close gaps) items).run
    (do
      Scan.skip 1
      return items : Attempt (List ExprId)).run
  := by
  have hclose' : IsSign close ∧ Scan.isSpacing close = false ∧ close ≠ '/' := by
    simp only [List.mem_cons, List.not_mem_nil, or_false] at hclose
    obtain rfl | rfl := hclose <;> decide
  obtain ⟨hsign, hsettled⟩ := hclose'
  have htrivia : Scan.skipTrivia s = .ok ((), s) := by
    apply Scan.skipTrivia_of_settled
    rintro c hc
    obtain rfl := Option.some.inj (hlast.symm.trans hc)
    exact hsettled
  have hround : Agrees source s (listRound mine close gaps items).run (Scan.skip 1) fun r _ t =>
      r = some (.done items) ∧ Follows s t := by
    have hskip : Scan.skip 1 s = (Scan.skipTrivia >>= fun _ => Scan.skip 1) s := by
      rw [Scan.bind_apply, htrivia]
    rw [Agrees.congr_right hskip, listRound]
    simp only [run_lift_bind, run_ite]
    apply (mirrors_skipTrivia s).bind
    intro _ t ht _
    obtain rfl : s = t := (Prod.mk.inj (Except.ok.inj (htrivia.symm.trans ht))).2
    rw [agrees_current, if_pos ((lead_eq_byte_iff hsign).mpr hlast)]
    apply (mirrors_advance hsign.1 hlast).bind_left
    rintro _ _ u - ⟨-, hfollows⟩
    exact .pure ⟨rfl, hfollows⟩
  rw [run_lift_bind]
  apply hround.trialRounds
  · rintro _ t ⟨heq, -⟩
    cases heq
  · rintro result _ t ⟨heq, hfollows⟩
    cases heq
    exact .pure ⟨rfl, hfollows⟩
  · rintro next _ t ⟨heq, -⟩
    cases heq

/-- The items of a list are read as a whole. -/
theorem mirrors_listRounds {count : Nat} (s : Scan.State) (h : mine.Agrees source theirs count)
    (hcount : s.rest.length < count) {budget : Nat} (hbudget : s.rest.length < budget)
    (hclose : close ∈ [')', ']']) (items : List ExprId) :
  Mirrors source s (Trial.rounds (listRound mine close gaps) items).run
    (listTail theirs close gaps budget items).run
  := by
  obtain ⟨more, rfl⟩ := Nat.exists_eq_succ_of_ne_zero (Nat.ne_zero_of_lt hbudget)
  rw [Nat.succ_eq_add_one, listTail, OptionT.run_bind]
  apply (agrees_listRound h hcount hclose items).trialRounds
  · rintro _ t ⟨hfollows⟩
    exact .pure ⟨rfl, hfollows⟩
  · intro result found t hstep
    cases hstep with
    | done items hfollows => exact .pure ⟨rfl, hfollows⟩
  · intro next found t hstep
    cases hstep with
    | again items last hfollows hlt hlast =>
      refine ⟨hfollows, hlt, ?_⟩
      have hcount' := Nat.lt_trans hlt hcount
      cases last with
      | false =>
        have hbudget' : t.rest.length < more := by omega
        exact (mirrors_listRounds t h hcount' hbudget' hclose next).follow hfollows
      | true => exact (mirrors_listEnd hclose (hlast rfl) next).follow hfollows
  termination_by s.rest.length

theorem mirrors_arrayNode (h : mine.Agrees source theirs s.rest.length)
    (hhead : s.rest.head? = some '[') :
  Mirrors source s (unbounded.arrayNode mine).run (Scan.arrayNode theirs).run
  := by
  rw [Allocator.arrayNode, Scan.arrayNode, arrayRound_eq, arrayItems_eq]
  simp only [run_lift_bind]
  rw [Mirrors, agrees_position, agrees_scan_position]
  apply (mirrors_advance (by decide) hhead).bind
  rintro _ t ht hfollows
  obtain rfl := Scan.runs_skip.mp ht
  have hlt := Scan.length_after_lt (ne_nil_of_head? hhead) Nat.one_pos
  apply (mirrors_listRounds _ h hlt (h.follow hfollows).budget (by simp) []).attempt
  · exact fun u hu => ⟨rfl, hfollows.trans hu⟩
  · intro items u _ hu
    simp only [run_lift_bind, run_lift]
    exact mirrors_some_store.follow (hfollows.trans hu)

/-! ### Operands -/

/-- An operand without operators around it. -/
theorem mirrors_primary (h : mine.Agrees source theirs s.rest.length) :
  Mirrors source s (unbounded.primary mine).run (Scan.primary theirs).run
  := by
  apply Agrees.of_at
  intro hat
  rw [Allocator.primary, Scan.primary]
  simp only [run_lift_bind]
  rw [agrees_position, agrees_current, agrees_scan_position, agrees_scan_rest]
  cases hrest : s.rest with
  | nil =>
    have helement : ¬ (decide (lead [] = byte '<') && mine.dialect.allowsElements) = true := by
      have hlead : decide (lead [] = byte '<') = false := by decide
      rw [hlead, Bool.false_and]
      exact Bool.false_ne_true
    rw [if_neg (by decide), if_neg (by decide), if_neg (by decide), if_neg (by decide),
      if_neg (by decide), if_neg (by decide), if_neg helement, if_neg (by decide),
      if_neg (by decide)]
    exact .pure ⟨rfl, .refl s⟩
  | cons c later =>
    have hhead : s.rest.head? = some c := by rw [hrest, List.head?_cons]
    have hlead {d : Char} (hsign : IsSign d) : lead (c :: later) = byte d ↔ c = d := by
      rw [lead_eq_byte_iff hsign, List.head?_cons, Option.some.injEq]
    simp only [run_ite, discard_bind, run_lift_bind, run_lift, run_guard_bind]
    apply Agrees.ite (hlead (by decide))
    · rintro rfl
      exact (mirrors_stringNode (by simp) hhead).found
    intro _
    apply Agrees.ite (hlead (by decide))
    · rintro rfl
      exact (mirrors_stringNode (by simp) hhead).found
    intro _
    apply Agrees.ite (hlead (by decide))
    · rintro rfl
      exact (mirrors_templateNode h hhead).found
    intro _
    apply Agrees.ite (hlead (by decide))
    · rintro rfl
      exact mirrors_parenNode h hhead
    intro _
    apply Agrees.ite (hlead (by decide))
    · rintro rfl
      exact mirrors_arrayNode h hhead
    intro _
    apply Agrees.ite (hlead (by decide))
    · rintro rfl
      apply (advances_skipBraced h hhead).bind
      rintro _ _ t - ⟨rfl, hfollows⟩
      exact mirrors_some_store.follow ((Follows.after s 1).trans hfollows)
    intro _
    apply Agrees.ite (by simp (disch := decide) only [hlead, h.dialect])
    · intro helement
      rw [Bool.and_eq_true, decide_eq_true_eq] at helement
      obtain ⟨rfl, -⟩ := helement
      apply Agrees.bind (agrees_element h hhead)
      rintro found _ t - ⟨rfl, hpost⟩
      cases found with
      | true => exact mirrors_some_store.follow ((Follows.after s 1).trans hpost)
      | false =>
        obtain rfl : t = s := hpost
        exact .pure ⟨rfl, .refl t⟩
    intro _
    apply Agrees.ite (by rw [reflects_isDigit.lead_cons])
    · intro _
      apply Agrees.eatWhile (reflects_isNameByte.or_eq (by decide))
      exact mirrors_some_store.follow (.after s _)
    intro _
    apply Agrees.ite (by rw [reflects_isNameStart.lead_cons])
    · intro _
      apply Agrees.eatName
      rw [agrees_sliceFrom hat (Scan.rest_eq_takeWhile_append _ s)]
      apply Agrees.ite Iff.rfl
      · exact fun _ => mirrors_some_store.follow (.after s _)
      · exact fun _ => .pure ⟨rfl, .after s _⟩
    · exact fun _ => .pure ⟨rfl, .refl s⟩

end UtilityClasses.Cursor
