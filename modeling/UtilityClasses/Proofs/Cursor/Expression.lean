import UtilityClasses.Proofs.Cursor.Operand

/-!
# Expressions, byte by byte

What follows an operand, the operators around operands and whole regions are read as they are
scanned.
-/

namespace UtilityClasses.Cursor

open Allocator (unbounded)
open Scan (Runs Node discard_bind run_lift run_lift_bind run_guard_bind run_ite)

variable {source : List Char} {s t : Scan.State} {mine : Context} {theirs : Scan.Context}
  {node : Node}

/-! ### Member access, calls and indices -/

theorem mirrors_propertyName (s : Scan.State) :
  Mirrors source s propertyName.run Scan.propertyName.run
  := by
  apply Agrees.of_at
  intro hat
  rw [propertyName, Scan.propertyName]
  simp only [run_ite, run_lift_bind, run_guard_bind, OptionT.run_pure]
  have hname (mark : List Char) (u : Scan.State) (hrest : s.rest = mark ++ u.rest)
      (hfollows : Follows s u) :
      Agrees source u (do
          let b ← current
          if isNameStart b = true then do
            eatName
            let name ← sliceFrom s.pos
            pure (some (String.ofList name))
          else pure none)
        (do
          let ahead ← Scan.rest
          if ahead.head?.any Scan.isNameStart = true then do
            let name ← Scan.takeWhile Scan.isNameChar
            pure (some (String.ofList (mark ++ name)))
          else pure none)
        fun a b t => a = b ∧ Follows s t := by
    rw [agrees_current, agrees_scan_rest]
    apply Agrees.ite (by rw [reflects_isNameStart.lead (by decide)])
    · intro _
      apply Agrees.eatName
      rw [agrees_sliceFrom hat (by rw [hrest, List.append_assoc, ← Scan.rest_eq_takeWhile_append])]
      exact .pure ⟨rfl, hfollows.trans (.after u _)⟩
    · exact fun _ => .pure ⟨rfl, hfollows⟩
  rw [agrees_position, agrees_current, agrees_scan_rest]
  simp (disch := decide) only [lead_eq_byte_iff]
  split
  · next hmark =>
    obtain ⟨later, hrest⟩ := List.head?_eq_some_iff.mp hmark
    have hafter : s.rest = ['#'] ++ (s.after 1).rest := by
      rw [Scan.State.after_rest, hrest]
      rfl
    refine Agrees.advance (by decide) hmark ?_ (hname ['#'] (s.after 1) hafter (.after s 1))
    rw [Scan.bind_apply, Scan.take_apply, hrest]
    rfl
  · refine (Agrees.congr_right ?_).mpr (hname [] s rfl (.refl s))
    rw [Scan.bind_apply, Scan.take_apply, s.after_zero, List.take_zero]

theorem mirrors_memberNode (s : Scan.State) (object : Node) :
  Mirrors source s (unbounded.memberNode object).run (Scan.memberNode object).run
  := by
  rw [Allocator.memberNode, Scan.memberNode]
  apply (mirrors_propertyName s).tries
  intro property t _ hfollows
  simp only [run_lift_bind, run_lift]
  exact mirrors_some_store.follow hfollows

theorem advances_callNode (h : mine.Agrees source theirs s.rest.length)
    (hhead : s.rest.head? = some '(') (callee : Node) :
  Advances source s (unbounded.callNode mine callee).run (Scan.callNode theirs callee).run
  := by
  rw [Allocator.callNode, Scan.callNode, callRound_eq, callArguments_eq]
  simp only [run_lift_bind]
  apply (mirrors_advance (by decide) hhead).bind
  rintro _ t ht hfollows
  obtain rfl := Scan.runs_skip.mp ht
  have hlt := Scan.length_after_lt (ne_nil_of_head? hhead) Nat.one_pos
  apply (mirrors_listRounds _ h hlt (h.follow hfollows).budget (by simp) []).attempt
  · exact fun u hu => ⟨rfl, hu⟩
  · intro args u _ hu
    simp only [run_lift_bind, run_lift]
    exact mirrors_some_store.follow hu

theorem advances_indexNode (h : mine.Agrees source theirs s.rest.length)
    (hhead : s.rest.head? = some '[') (object : Node) :
  Advances source s (unbounded.indexNode mine object).run (Scan.indexNode theirs object).run
  := by
  rw [Allocator.indexNode, Scan.indexNode]
  simp only [run_lift_bind, run_lift, run_guard_bind, discard_bind]
  apply Agrees.skip (by decide) hhead
  have hlt := Scan.length_after_lt (ne_nil_of_head? hhead) Nat.one_pos
  apply (h.nested.region hlt (by simp [AreStops])).bind
  intro _ u _ hu
  rw [agrees_current, agrees_scan_rest]
  apply Agrees.ite (lead_eq_byte_iff (by decide))
  · intro hclose
    apply (mirrors_advance (by decide) hclose).bind
    intro _ v _ hv
    exact mirrors_some_store.follow (hu.trans hv)
  · exact fun _ => .pure ⟨rfl, hu⟩

theorem mirrors_optionalNode (h : mine.Agrees source theirs s.rest.length) (node : Node) :
  Mirrors source s (unbounded.optionalNode mine node).run (Scan.optionalNode theirs node).run
  := by
  rw [Allocator.optionalNode, Scan.optionalNode]
  simp only [run_lift_bind, run_ite]
  rw [Mirrors, agrees_current, agrees_scan_rest]
  apply Agrees.ite (lead_eq_byte_iff (by decide))
  · exact fun hhead => (advances_callNode h hhead node).mirrors
  intro _
  apply Agrees.ite (lead_eq_byte_iff (by decide))
  · exact fun hhead => (advances_indexNode h hhead node).mirrors
  · exact fun _ => mirrors_memberNode s node

/-! ### What follows an operand -/

theorem prefix_of_startsOptional {text : List Char} (h : Scan.startsOptional text = true) :
  ['?', '.'] <+: text
  := by
  unfold Scan.startsOptional at h
  split at h
  · next later => exact ⟨later, rfl⟩
  · cases h

theorem startsOptional_iff (text : List Char) :
  (decide (lead text = byte '?') && decide ((encode text)[1]?.getD 0 = byte '.') &&
    !isDigit ((encode text)[2]?.getD 0)) = true ↔ Scan.startsOptional text = true
  := by
  have hdigit (later : List Char) :
      isDigit ((encode ('?' :: '.' :: later))[2]?.getD 0) = later.head?.any Char.isDigit :=
    reflects_isDigit.lead (by decide) later
  rw [Bool.and_eq_true, Bool.and_eq_true, decide_eq_true_eq, decide_eq_true_eq,
    lead_eq_byte_and_iff (by decide) (by decide)]
  constructor
  · rintro ⟨⟨hmark, hdot⟩, hnext⟩
    obtain ⟨later, rfl⟩ := prefix_of_head? hmark hdot
    rwa [List.cons_append, List.singleton_append, hdigit] at hnext
  · intro hstarts
    obtain ⟨later, rfl⟩ := prefix_of_startsOptional hstarts
    rw [List.cons_append, List.singleton_append] at hstarts ⊢
    rw [hdigit]
    exact ⟨⟨rfl, rfl⟩, hstarts⟩

/-- The scan after what it has found behind an operand. -/
def afterSuffix (loop : Node → Attempt Node) (node : Node) :
    Option (Option Node) → Scan (Option Node)
  | some (some longer) => (loop longer).run
  | some none => return some node
  | none => return none

theorem suffixes_succ (budget : Nat) (node : Node) :
  (Scan.suffixes theirs (budget + 1) node).run =
    ((do
      Scan.skipTrivia
      (Scan.suffix? theirs node).run) >>= afterSuffix (Scan.suffixes theirs budget) node)
  := by
  rw [Scan.suffixes]
  rw [run_lift_bind, bind_assoc]
  refine bind_congr fun _ => ?_
  rw [OptionT.run_bind]
  refine bind_congr (m := Scan) fun found => ?_
  match found with
  | some (some _) => rfl
  | some none => rfl
  | none => rfl

/-- How a round behind an operand and the scan have ended. -/
def SuffixStep (node : Node) (s t : Scan.State) (round : Option (Round Node Node))
    (found : Option (Option Node)) : Prop :=
  MovesIf s t round ∧ round = found.map fun longer? =>
    match longer? with
    | some longer => .again longer
    | none => .done node

/-- Something that follows an operand is found, or it is given up, behind a character. -/
theorem agrees_longer {x : Trial Node} {y : Attempt Node} (node : Node)
    (h : Agrees source t x.run y.run fun a b u =>
      a = b ∧ Follows s u ∧ u.rest.length < s.rest.length) :
  Agrees source t (x >>= fun longer => return .again longer).run
    (y >>= fun longer => return some longer).run fun r found u => SuffixStep node s u r found
  := by
  rw [OptionT.run_bind, OptionT.run_bind]
  apply h.bind
  rintro found _ u - ⟨rfl, hfollows, hlt⟩
  cases found with
  | some longer => exact .pure ⟨⟨hfollows, hlt⟩, rfl⟩
  | none => exact .pure ⟨hfollows, rfl⟩

/-- A round over what follows an operand reads what the scan does. -/
theorem agrees_suffixRound (h : mine.Agrees source theirs s.rest.length) (node : Node) :
  Agrees source s (unbounded.suffixRound mine node).run
    (do
      Scan.skipTrivia
      (Scan.suffix? theirs node).run)
    fun r found t => SuffixStep node s t r found
  := by
  rw [Allocator.suffixRound, Scan.suffix?]
  simp only [run_lift_bind, run_ite]
  apply (mirrors_skipTrivia s).bind
  intro _ t _ hfollows
  have hmine := h.follow hfollows
  have hdone : SuffixStep node s t (some (.done node)) (some none) := ⟨hfollows, rfl⟩
  -- What lies behind a character that has been passed.
  have hpast {u v : Scan.State} (hne : t.rest ≠ []) (hu : Follows (t.after 1) u)
      (hv : Follows u v) : Follows s v ∧ v.rest.length < s.rest.length :=
    ⟨((hfollows.trans (.after t 1)).trans hu).trans hv,
      Nat.lt_of_lt_of_le ((hu.trans hv).length_lt_of_after hne) hfollows.length_le⟩
  rw [agrees_current, peek, agrees_byteAhead, agrees_scan_rest]
  have hdots : (decide (lead t.rest = byte '.') &&
      decide ((encode t.rest)[1]?.getD 0 = byte '.')) = true ↔
        t.rest.head? = some '.' ∧ (t.rest.drop 1).head? = some '.' := by
    rw [Bool.and_eq_true, decide_eq_true_eq, decide_eq_true_eq]
    exact lead_eq_byte_and_iff (by decide) (by decide)
  by_cases htwo : t.rest.head? = some '.' ∧ (t.rest.drop 1).head? = some '.'
  · obtain ⟨later, hlater⟩ := prefix_of_head? htwo.1 htwo.2
    rw [if_pos (hdots.mpr htwo), ← hlater]
    exact .pure hdone
  rw [if_neg (mt hdots.mp htwo)]
  apply Agrees.ite
  · rw [lead_eq_byte_iff (by decide)]
    simpa using htwo
  · intro hdot
    rw [Bool.and_eq_true, decide_eq_true_eq] at hdot
    apply Agrees.skip (by decide) hdot.1
    apply (mirrors_skipTrivia _).bind
    intro _ v _ hv
    apply agrees_longer
    apply (mirrors_memberNode v node).mono
    rintro member _ w - - ⟨rfl, hw⟩
    exact ⟨rfl, hpast (ne_nil_of_head? hdot.1) hv hw⟩
  intro _
  rw [peekTwo, agrees_byteAhead]
  apply Agrees.ite (startsOptional_iff t.rest)
  · intro hoptional
    have hahead := prefix_of_startsOptional hoptional
    apply Agrees.skipBy ['?', '.'] (forall_isAscii (by decide)) hahead
    apply (mirrors_skipTrivia _).bind
    intro _ v _ hv
    have hne : t.rest ≠ [] := by
      rintro hnil
      simp [hnil] at hahead
    have hv := (Follows.after_le t (by decide : 1 ≤ 2)).trans hv
    apply agrees_longer
    apply (mirrors_optionalNode (hmine.follow ((Follows.after t 1).trans hv)) node).mono
    rintro longer _ w - - ⟨rfl, hw⟩
    exact ⟨rfl, hpast hne hv hw⟩
  intro _
  apply Agrees.ite (lead_eq_byte_iff (by decide))
  · intro hhead
    apply agrees_longer
    apply (advances_callNode hmine hhead node).mono
    rintro call _ u - - ⟨rfl, hu⟩
    exact ⟨rfl, hpast (ne_nil_of_head? hhead) hu (.refl u)⟩
  intro _
  apply Agrees.ite (lead_eq_byte_iff (by decide))
  · intro hhead
    apply agrees_longer
    apply (advances_indexNode hmine hhead node).mono
    rintro index _ u - - ⟨rfl, hu⟩
    exact ⟨rfl, hpast (ne_nil_of_head? hhead) hu (.refl u)⟩
  intro _
  apply Agrees.ite
  · rw [Bool.and_eq_true, Bool.and_eq_true, decide_eq_true_eq, decide_eq_true_eq,
      decide_eq_true_eq, decide_eq_true_eq]
    exact lead_eq_byte_and_ne_iff (by decide) (by decide)
  · intro hmark
    rw [Bool.and_eq_true, decide_eq_true_eq] at hmark
    apply Agrees.skip (by decide) hmark.1
    rw [agrees_spanFrom, agrees_scan_spanFrom]
    apply mirrors_store.bind
    intro longer v _ hv
    exact .pure ⟨hpast (ne_nil_of_head? hmark.1) (.refl _) hv, rfl⟩
  · exact fun _ => .pure hdone

/-- What follows an operand is read as a whole. -/
theorem mirrors_suffixRounds (s : Scan.State) (h : mine.Agrees source theirs s.rest.length)
    {budget : Nat} (hbudget : s.rest.length < budget) (node : Node) :
  Mirrors source s (Trial.rounds (unbounded.suffixRound mine) node).run
    (Scan.suffixes theirs budget node).run
  := by
  obtain ⟨more, rfl⟩ := Nat.exists_eq_succ_of_ne_zero (Nat.ne_zero_of_lt hbudget)
  rw [Nat.succ_eq_add_one, suffixes_succ]
  apply (agrees_suffixRound h node).trialRounds
  · rintro found t ⟨hfollows, hfound⟩
    obtain rfl : found = none := by simpa using hfound.symm
    exact .pure ⟨rfl, hfollows⟩
  · rintro result found t ⟨hfollows, hfound⟩
    match found with
    | some none =>
      cases hfound
      exact .pure ⟨rfl, hfollows⟩
  · rintro next found t ⟨⟨hfollows, hlt⟩, hfound⟩
    match found with
    | some (some _) =>
      cases hfound
      have hbudget' : t.rest.length < more := by omega
      refine ⟨hfollows, hlt, ?_⟩
      exact (mirrors_suffixRounds t (h.follow hfollows) hbudget' next).follow hfollows
  termination_by s.rest.length

/-! ### Operators in front of an operand -/

/-- The characters that are operators in front of an operand, unless they start others. -/
def startsPrefixOperator (text : List Char) : Bool :=
  ['!', '-', '+', '~'].any (text.head? = some ·) && (text.drop 1).head? ≠ some '='

theorem agrees_eatPrefixOperator (source : List Char) (s : Scan.State) :
  Agrees source s eatPrefixOperator
    (Scan.skip (if startsPrefixOperator s.rest then 1 else 0))
    fun found _ _ => found = startsPrefixOperator s.rest
  := by
  have hany : ['!', '-', '+', '~'].any (lead s.rest == byte ·) =
      ['!', '-', '+', '~'].any (s.rest.head? = some ·) := by
    rw [Bool.eq_iff_iff]
    simp (disch := decide) only [List.any_cons, List.any_nil, Bool.or_eq_true, beq_iff_eq,
      lead_eq_byte_iff, decide_eq_true_eq]
  have hascii : ∀ d ∈ ['!', '-', '+', '~'], IsAscii d := forall_isAscii (by decide)
  have hhead (hmark : ['!', '-', '+', '~'].any (s.rest.head? = some ·) = true) :
      ∃ c, IsAscii c ∧ s.rest.head? = some c := by
    obtain ⟨c, hc, hhead⟩ := List.any_eq_true.mp hmark
    exact ⟨c, hascii c hc, of_decide_eq_true hhead⟩
  have hcond : (['!', '-', '+', '~'].any (lead s.rest == byte ·) &&
      decide ((encode s.rest)[1]?.getD 0 ≠ byte '=')) = startsPrefixOperator s.rest := by
    rw [startsPrefixOperator, hany]
    cases hmark : ['!', '-', '+', '~'].any (s.rest.head? = some ·) with
    | false => rfl
    | true =>
      obtain ⟨c, hc, hhead⟩ := hhead hmark
      rw [Bool.true_and, Bool.true_and, decide_eq_decide]
      exact not_congr (next_eq_byte_iff hc hhead (by decide))
  rw [eatPrefixOperator, agrees_current, peek, agrees_byteAhead, hcond]
  split
  · next hstarts =>
    rw [hstarts]
    rw [startsPrefixOperator, Bool.and_eq_true] at hstarts
    obtain ⟨c, hc, hhead⟩ := hhead hstarts.1
    exact (mirrors_advance hc hhead).bind_left fun _ _ _ _ _ => .pure rfl
  · next hstarts =>
    exact .of_runs (b := ()) (Scan.runs_skip.mpr s.after_zero.symm)
      (Bool.eq_false_iff.mpr hstarts).symm

/-- A word is passed if it lies ahead as a whole. -/
theorem agrees_eatKeyword (source : List Char) (s : Scan.State) {word : List Char}
    (hascii : ∀ d ∈ word, IsAscii d) :
  Agrees source s (eatKeyword word)
    (Scan.skip (if s.rest.takeWhile Scan.isNameChar = word then word.length else 0))
    fun found _ _ => found = decide (s.rest.takeWhile Scan.isNameChar = word)
  := by
  apply Agrees.of_at
  intro hat
  have hstay : Scan.skip 0 s = .ok ((), s) := Scan.runs_skip.mpr s.after_zero.symm
  rw [eatKeyword, agrees_startsWith hascii]
  split
  · rw [agrees_position]
    have hname : Scan.skip (s.rest.takeWhile Scan.isNameChar).length s =
        (Scan.takeWhile Scan.isNameChar >>= fun _ => pure ()) s := rfl
    split
    · next hword =>
      rw [hword] at hname
      rw [Agrees.congr_right hname]
      apply Agrees.eatName
      rw [agrees_sliceFrom hat (Scan.rest_eq_takeWhile_append _ s), hword, if_pos rfl]
      exact .pure (by simp)
    · next hword =>
      have hback : Scan.skip 0 s =
          (Scan.takeWhile Scan.isNameChar >>= fun _ => set s >>= fun _ => pure ()) s := hstay
      rw [Agrees.congr_right hback]
      apply Agrees.eatName
      rw [agrees_sliceFrom hat (Scan.rest_eq_takeWhile_append _ s), if_neg hword]
      exact Agrees.moveBack hat rfl rfl (.pure (by simp [hword]))
  · next hstart =>
    have hne : s.rest.takeWhile Scan.isNameChar ≠ word := by
      rintro rfl
      apply hstart
      rw [List.isPrefixOf_iff_prefix]
      exact List.takeWhile_prefix _
    rw [if_neg hne]
    exact .of_runs (b := ()) hstay (by simp [hne])

theorem agrees_eatKeywords (source : List Char) (s : Scan.State) {words : List (List Char)}
    (hascii : ∀ word ∈ words, ∀ d ∈ word, IsAscii d) :
  Agrees source s (eatKeywords words)
    (Scan.skip (if s.rest.takeWhile Scan.isNameChar ∈ words then
      (s.rest.takeWhile Scan.isNameChar).length else 0))
    fun found _ _ => found = decide (s.rest.takeWhile Scan.isNameChar ∈ words)
  := by
  induction words with
  | nil => exact .of_runs (b := ()) (Scan.runs_skip.mpr s.after_zero.symm) rfl
  | cons word words ih =>
    rw [List.forall_mem_cons] at hascii
    have hword := agrees_eatKeyword source s hascii.1
    rw [eatKeywords]
    by_cases hsame : s.rest.takeWhile Scan.isNameChar = word
    · rw [if_pos hsame] at hword
      rw [if_pos (by simp [hsame]), hsame]
      apply hword.bind_left
      rintro found _ t - rfl
      rw [decide_eq_true hsame, if_pos rfl]
      exact .pure (by simp)
    · have hmem : s.rest.takeWhile Scan.isNameChar ∈ word :: words ↔
          s.rest.takeWhile Scan.isNameChar ∈ words := by
        rw [List.mem_cons, or_iff_right hsame]
      have hstay (z : Scan Unit) : z s = (Scan.skip 0 >>= fun _ => z) s := by
        rw [Scan.bind_apply, Scan.skip_apply, s.after_zero]
      simp only [hmem]
      rw [if_neg hsame] at hword
      rw [Agrees.congr_right (hstay _)]
      apply hword.bind
      rintro found _ t ht rfl
      obtain rfl : t = s := (Scan.runs_skip.mp ht).trans s.after_zero
      rw [decide_eq_false hsame, if_neg Bool.false_ne_true]
      exact ih hascii.2

/-- The words that are operators in front of an operand. -/
def unaryNames : List (List Char) :=
  [['t', 'y', 'p', 'e', 'o', 'f'], ['v', 'o', 'i', 'd'], ['a', 'w', 'a', 'i', 't']]

theorem unaryLength_eq (text : List Char) :
  Scan.unaryLength text =
    if startsPrefixOperator text then 1
    else if text.takeWhile Scan.isNameChar ∈ unaryNames then
      (text.takeWhile Scan.isNameChar).length
    else 0
  := by
  have hwords : Scan.unaryWords = unaryNames.map String.ofList := by decide
  have hcontains :
      Scan.unaryWords.contains (String.ofList (text.takeWhile Scan.isNameChar)) = true ↔
        text.takeWhile Scan.isNameChar ∈ unaryNames := by
    rw [hwords, List.contains_iff_mem]
    constructor
    · intro hmem
      obtain ⟨word, hword, heq⟩ := List.mem_map.mp hmem
      rwa [← String.ofList_injective heq]
    · exact List.mem_map_of_mem
  rw [Scan.unaryLength]
  simp only [hcontains]
  rfl

/-- An operator of one character, or a word, is passed if it lies ahead. -/
theorem agrees_eatUnary (source : List Char) (s : Scan.State) :
  Agrees source s eatUnary (Scan.skip (Scan.unaryLength s.rest)) fun found _ _ =>
    found = decide (0 < Scan.unaryLength s.rest)
  := by
  have hnames : ∀ word ∈ unaryNames, word ≠ [] ∧ ∀ d ∈ word, IsAscii d := by
    intro word hword
    simp only [unaryNames, List.mem_cons, List.not_mem_nil, or_false] at hword
    obtain rfl | rfl | rfl := hword <;> exact ⟨by simp, forall_isAscii (by decide)⟩
  have hoperator := agrees_eatPrefixOperator source s
  rw [unaryLength_eq, eatUnary]
  cases hstarts : startsPrefixOperator s.rest with
  | true =>
    rw [hstarts] at hoperator
    apply hoperator.bind_left
    rintro _ _ t - rfl
    exact .pure rfl
  | false =>
    rw [hstarts] at hoperator
    simp only [Bool.false_eq_true, if_false] at hoperator ⊢
    have hstay (z : Scan Unit) : z s = (Scan.skip 0 >>= fun _ => z) s := by
      rw [Scan.bind_apply, Scan.skip_apply, s.after_zero]
    rw [Agrees.congr_right (hstay _)]
    apply hoperator.bind
    rintro _ _ t ht rfl
    obtain rfl : t = s := (Scan.runs_skip.mp ht).trans s.after_zero
    apply (agrees_eatKeywords source t fun word hword => (hnames word hword).2).mono
    rintro _ _ u - - rfl
    rw [decide_eq_decide]
    split
    · next hmem =>
      have hpos := List.length_pos_iff.mpr (hnames _ hmem).1
      simp only [hmem, hpos]
    · next hmem => simp [hmem]

/-- An operator in front of an operand, and the operand. -/
theorem mirrors_prefixed {shape : Node → ExprShape} {start count : Nat}
    (h : mine.Agrees source theirs s.rest.length) (hne : s.rest ≠ []) (hcount : 0 < count) :
  Mirrors source (s.after count)
    (skipTrivia >>= fun _ => (mine.nested.operand >>= fun inner =>
      liftM (store (shape inner) ⟨start, inner.span.stop⟩)).run)
    (Scan.skipTrivia >>= fun _ => (theirs.nested.operand >>= fun inner =>
      liftM (Scan.store (shape inner) ⟨start, inner.span.stop⟩)).run)
  := by
  apply (mirrors_skipTrivia _).bind
  intro _ t _ ht
  have hlt := Nat.lt_of_le_of_lt ht.length_le (Scan.length_after_lt hne hcount)
  apply (h.nested.operand hlt).attempt
  · exact fun u hu => ⟨rfl, ht.trans hu⟩
  · intro inner u _ hu
    rw [run_lift, run_lift]
    exact mirrors_store.found.follow (ht.trans hu)

/-- An operand with the operators in front of it and all that follows it. -/
theorem mirrors_operand (h : mine.Agrees source theirs s.rest.length) :
  Mirrors source s (unbounded.operand mine).run (Scan.operand theirs).run
  := by
  rw [Allocator.operand, Scan.operand]
  simp only [run_lift_bind, run_ite]
  apply (mirrors_skipTrivia s).bind
  intro _ t _ hfollows
  have hmine := h.follow hfollows
  rw [agrees_position, agrees_scan_position, agrees_scan_rest]
  have hdots : Agrees source t (eatText ['.', '.', '.'])
      (Scan.skip (if ['.', '.', '.'].isPrefixOf t.rest = true then 3 else 0)) fun found _ _ =>
        found = decide (['.', '.', '.'].isPrefixOf t.rest = true) :=
    agrees_eatText (forall_isAscii (by decide))
  have hunary : Agrees source t eatUnary
      (Scan.skip (if 0 < Scan.unaryLength t.rest then Scan.unaryLength t.rest else 0))
      fun found _ _ => found = decide (0 < Scan.unaryLength t.rest) := by
    have hcount : (if 0 < Scan.unaryLength t.rest then Scan.unaryLength t.rest else 0) =
        Scan.unaryLength t.rest := by
      split <;> omega
    rw [hcount]
    exact agrees_eatUnary source t
  apply hdots.tests
  · intro hstarts
    have hne : t.rest ≠ [] := by
      intro hnil
      simp [hnil] at hstarts
    rw [if_pos rfl]
    exact (mirrors_prefixed hmine hne (by decide)).follow (hfollows.trans (.after t 3))
  intro _
  apply hunary.tests
  · intro hstarts
    have hne : t.rest ≠ [] := by
      intro hnil
      simp [hnil, Scan.unaryLength] at hstarts
    rw [if_pos rfl]
    exact (mirrors_prefixed hmine hne hstarts).follow (hfollows.trans (.after t _))
  · intro _
    apply (mirrors_primary hmine).attempt
    · exact fun u hu => ⟨rfl, hfollows.trans hu⟩
    · intro node u _ hu
      have hinner := hmine.follow hu
      exact (mirrors_suffixRounds u hinner hinner.budget node).follow (hfollows.trans hu)

/-! ### Logical operators -/

/-- An operator of two characters, and the operand behind it. -/
theorem agrees_nextOperand {x : Trial Node} {y : Attempt Node} {op : LogicalOp} {left : Node}
    {text : List Char} (hascii : ∀ d ∈ text, IsAscii d) (hstarts : text <+: t.rest)
    (hlength : text.length = 2) (hfollows : Follows s t)
    (hx : ∀ u, Follows s u → Mirrors source u x.run y.run) :
  Agrees source t
    (advanceBy 2 >>= fun _ => skipTrivia >>= fun _ =>
      (x >>= fun right => liftM (unbounded.storeLogical op left right) >>= fun node =>
        return .again node : Trial (Round Node Node)).run)
    (Scan.skip 2 >>= fun _ => Scan.skipTrivia >>= fun _ =>
      (y >>= fun right => liftM (Scan.storeLogical op left right) >>= fun node =>
        return .again node : Attempt (Round Node Node)).run)
    fun r r' u => r = r' ∧ MovesIf s u r
  := by
  have hne : t.rest ≠ [] := by
    rintro hnil
    rw [hnil, List.prefix_nil] at hstarts
    simp [hstarts] at hlength
  rw [← hlength]
  apply (mirrors_advanceBy text hascii hstarts).bind
  rintro _ u hu hfollows'
  obtain rfl := Scan.runs_skip.mp hu
  apply (mirrors_skipTrivia _).bind
  intro _ v _ hv
  have hsv := (hfollows.trans hfollows').trans hv
  have hlt : v.rest.length < s.rest.length := by
    apply Nat.lt_of_le_of_lt hv.length_le
    apply Nat.lt_of_lt_of_le _ hfollows.length_le
    exact Scan.length_after_lt hne (by omega)
  apply (hx v hsv).attempt
  · exact fun w hw => ⟨rfl, hsv.trans hw⟩
  · intro right w _ hw
    simp only [run_lift_bind]
    rw [Allocator.storeLogical, Scan.storeLogical]
    apply mirrors_store.bind
    intro node x _ hx
    have hwx := hw.trans hx
    exact .pure ⟨rfl, hsv.trans hwx, Nat.lt_of_le_of_lt hwx.length_le hlt⟩

/-- What the scan of a conjunction does behind an operand: it reads the next one, or it ends. -/
def andItem (theirs : Scan.Context) (left : Node) : Attempt (Round Node Node) := do
  Scan.skipTrivia
  if Scan.startsAnd (← Scan.rest) then
    Scan.skip 2
    Scan.skipTrivia
    let right ← Scan.operand theirs
    return .again (← Scan.storeLogical .and left right)
  else
    return .done left

theorem andChain_succ (budget : Nat) (left : Node) :
  Scan.andChain theirs (budget + 1) left =
    andItem theirs left >>= Round.goOn (Scan.andChain theirs budget)
  := by
  rw [Scan.andChain, andItem]
  simp only [bind_assoc]
  refine bind_congr fun _ => bind_congr fun ahead => ?_
  split
  · simp only [bind_assoc, pure_bind, Round.goOn]
  · rw [pure_bind]
    rfl

theorem startsAnd_iff (text : List Char) :
  (['&', '&'].isPrefixOf text && decide ((encode text)[2]?.getD 0 ≠ byte '=')) = true ↔
    Scan.startsAnd text = true
  := by
  have hnext (later : List Char) :
      (encode ('&' :: '&' :: later))[2]?.getD 0 = byte '=' ↔ later.head? = some '=' :=
    lead_eq_byte_iff (by decide)
  rw [Bool.and_eq_true, List.isPrefixOf_iff_prefix, decide_eq_true_eq]
  constructor
  · rintro ⟨⟨later, rfl⟩, hne⟩
    simpa [Scan.startsAnd, hnext] using hne
  · intro hstarts
    unfold Scan.startsAnd at hstarts
    split at hstarts
    · next later =>
      refine ⟨⟨later, rfl⟩, ?_⟩
      simpa [hnext] using hstarts
    · cases hstarts

theorem agrees_andRound (h : mine.Agrees source theirs s.rest.length) (left : Node) :
  Agrees source s (unbounded.andRound mine left).run (andItem theirs left).run fun r r' t =>
    r = r' ∧ MovesIf s t r
  := by
  rw [Allocator.andRound, andItem]
  simp only [run_lift_bind, run_ite]
  apply (mirrors_skipTrivia s).bind
  intro _ t _ hfollows
  rw [agrees_startsWith (forall_isAscii (by decide)), peekTwo, agrees_byteAhead, agrees_scan_rest]
  apply Agrees.ite (startsAnd_iff t.rest)
  · intro hstarts
    have hahead := (startsAnd_iff t.rest).mpr hstarts
    rw [Bool.and_eq_true, List.isPrefixOf_iff_prefix] at hahead
    exact agrees_nextOperand (forall_isAscii (by decide)) hahead.1 rfl hfollows fun u hu =>
      mirrors_operand (h.follow hu)
  · exact fun _ => .pure ⟨rfl, hfollows⟩

/-- The operands joined by `&&` are read as a whole. -/
theorem mirrors_andRounds (s : Scan.State) (h : mine.Agrees source theirs s.rest.length)
    {budget : Nat} (hbudget : s.rest.length < budget) (left : Node) :
  Mirrors source s (Trial.rounds (unbounded.andRound mine) left).run
    (Scan.andChain theirs budget left).run
  := by
  obtain ⟨more, rfl⟩ := Nat.exists_eq_succ_of_ne_zero (Nat.ne_zero_of_lt hbudget)
  rw [Nat.succ_eq_add_one, andChain_succ]
  apply Mirrors.trialRounds (agrees_andRound h left)
  intro next t hfollows hlt
  have hbudget' : t.rest.length < more := by omega
  exact mirrors_andRounds t (h.follow hfollows) hbudget' next
  termination_by s.rest.length

theorem mirrors_conjunction (h : mine.Agrees source theirs s.rest.length) :
  Mirrors source s (unbounded.conjunction mine).run (Scan.conjunction theirs).run
  := by
  rw [Allocator.conjunction, Scan.conjunction]
  apply (mirrors_operand h).tries
  intro left t _ hfollows
  have hmine := h.follow hfollows
  exact (mirrors_andRounds t hmine hmine.budget left).follow hfollows

/-- What the scan of a disjunction does behind a conjunction: it reads the next one, or it ends. -/
def orItem (theirs : Scan.Context) (left : Node) : Attempt (Round Node Node) := do
  Scan.skipTrivia
  match Scan.orOperator? (← Scan.rest) with
  | some op =>
    Scan.skip 2
    Scan.skipTrivia
    let right ← Scan.conjunction theirs
    return .again (← Scan.storeLogical op left right)
  | none => return .done left

theorem orChain_succ (budget : Nat) (left : Node) :
  Scan.orChain theirs (budget + 1) left =
    orItem theirs left >>= Round.goOn (Scan.orChain theirs budget)
  := by
  rw [Scan.orChain, orItem]
  simp only [bind_assoc]
  refine bind_congr fun _ => bind_congr fun ahead => ?_
  cases Scan.orOperator? ahead with
  | some op => simp only [bind_assoc, pure_bind, Round.goOn]
  | none =>
    rw [pure_bind]
    rfl

/-- An operator is looked up in the first three bytes. -/
theorem orOperator?_eq (text : List Char) :
  Scan.orOperator? text =
    if (encode text)[2]?.getD 0 = byte '=' then none
    else orOperator? (lead text) ((encode text)[1]?.getD 0)
  := by
  have htwo {c : Char} (hc : IsSign c) :
      lead text = byte c ∧ (encode text)[1]?.getD 0 = byte c ↔
        text.head? = some c ∧ (text.drop 1).head? = some c :=
    lead_eq_byte_and_iff hc hc
  rw [orOperator?]
  simp only [← Bool.decide_and, decide_eq_true_eq, htwo (c := '|') (by decide),
    htwo (c := '?') (by decide)]
  have hnext (c : Char) (hc : IsAscii c) (later : List Char) :
      (encode (c :: c :: later))[2]?.getD 0 = byte '=' ↔ later.head? = some '=' := by
    rw [encode_cons_getElem? hc, encode_cons_getElem? hc]
    exact lead_eq_byte_iff (by decide)
  unfold Scan.orOperator?
  split
  · next later => simp [hnext '|' (by decide)]
  · next later => simp [hnext '?' (by decide)]
  · next hpipes hmarks =>
    have hno {c : Char} (hne : ∀ later, text ≠ c :: c :: later) :
        ¬ (text.head? = some c ∧ (text.drop 1).head? = some c) := by
      rintro ⟨hhead, hdrop⟩
      obtain ⟨later, hlater⟩ := prefix_of_head? hhead hdrop
      exact hne later hlater.symm
    rw [if_neg (hno hpipes), if_neg (hno hmarks), ite_self]

theorem exists_symbol_of_orOperator? {text : List Char} {op : LogicalOp}
    (h : Scan.orOperator? text = some op) :
  ∃ symbol : List Char, (∀ d ∈ symbol, IsAscii d) ∧ symbol <+: text ∧ symbol.length = 2
  := by
  unfold Scan.orOperator? at h
  split at h
  · next later => exact ⟨['|', '|'], forall_isAscii (by decide), ⟨later, rfl⟩, rfl⟩
  · next later => exact ⟨['?', '?'], forall_isAscii (by decide), ⟨later, rfl⟩, rfl⟩
  · cases h

theorem agrees_orRound (h : mine.Agrees source theirs s.rest.length) (left : Node) :
  Agrees source s (unbounded.orRound mine left).run (orItem theirs left).run fun r r' t =>
    r = r' ∧ MovesIf s t r
  := by
  rw [Allocator.orRound, orItem]
  simp only [run_lift_bind]
  apply (mirrors_skipTrivia s).bind
  intro _ t _ hfollows
  rw [agrees_current, peek, agrees_byteAhead, agrees_scan_rest]
  have hoperator := orOperator?_eq t.rest
  cases hbytes : orOperator? (lead t.rest) ((encode t.rest)[1]?.getD 0) with
  | none =>
    rw [hbytes, ite_self] at hoperator
    rw [hoperator]
    exact .pure ⟨rfl, hfollows⟩
  | some op =>
    rw [hbytes] at hoperator
    simp only [run_lift_bind, run_ite]
    rw [peekTwo, agrees_byteAhead]
    by_cases hassign : (encode t.rest)[2]?.getD 0 = byte '='
    · rw [if_pos hassign] at hoperator ⊢
      rw [hoperator]
      exact .pure ⟨rfl, hfollows⟩
    · rw [if_neg hassign] at hoperator ⊢
      rw [hoperator]
      simp only [run_lift_bind]
      obtain ⟨symbol, hascii, hahead, hlength⟩ := exists_symbol_of_orOperator? hoperator
      exact agrees_nextOperand hascii hahead hlength hfollows fun u hu =>
        mirrors_conjunction (h.follow hu)

/-- The operands joined by `||` and `??` are read as a whole. -/
theorem mirrors_orRounds (s : Scan.State) (h : mine.Agrees source theirs s.rest.length)
    {budget : Nat} (hbudget : s.rest.length < budget) (left : Node) :
  Mirrors source s (Trial.rounds (unbounded.orRound mine) left).run
    (Scan.orChain theirs budget left).run
  := by
  obtain ⟨more, rfl⟩ := Nat.exists_eq_succ_of_ne_zero (Nat.ne_zero_of_lt hbudget)
  rw [Nat.succ_eq_add_one, orChain_succ]
  apply Mirrors.trialRounds (agrees_orRound h left)
  intro next t hfollows hlt
  have hbudget' : t.rest.length < more := by omega
  exact mirrors_orRounds t (h.follow hfollows) hbudget' next
  termination_by s.rest.length

theorem mirrors_disjunction (h : mine.Agrees source theirs s.rest.length) :
  Mirrors source s (unbounded.disjunction mine).run (Scan.disjunction theirs).run
  := by
  rw [Allocator.disjunction, Scan.disjunction]
  apply (mirrors_conjunction h).tries
  intro left t _ hfollows
  have hmine := h.follow hfollows
  exact (mirrors_orRounds t hmine hmine.budget left).follow hfollows

/-! ### Conditionals -/

theorem startsConditional_iff (text : List Char) :
  (decide (lead text = byte '?') && decide ((encode text)[1]?.getD 0 ≠ byte '?') &&
      !(decide ((encode text)[1]?.getD 0 = byte '.') && !isDigit ((encode text)[2]?.getD 0))) =
    true ↔ Scan.startsConditional text = true
  := by
  have hmarks : (decide (lead text = byte '?') && decide ((encode text)[1]?.getD 0 ≠ byte '?')) =
      (decide (text.head? = some '?') && decide ((text.drop 1).head? ≠ some '?')) := by
    rw [Bool.eq_iff_iff]
    simp only [Bool.and_eq_true, decide_eq_true_eq]
    exact lead_eq_byte_and_ne_iff (by decide) (by decide)
  have hoptional := Bool.eq_iff_iff.mpr (startsOptional_iff text)
  rw [Scan.startsConditional, ← hmarks, ← hoptional, ← Bool.eq_iff_iff]
  cases decide (lead text = byte '?') <;> rfl

theorem agrees_atConditional {f : Bool → Reading γ} {z : Scan δ} {Q : γ → δ → Scan.State → Prop} :
  Agrees source s (atConditional >>= f) z Q ↔
    Agrees source s (f (Scan.startsConditional s.rest)) z Q
  := by
  have hcond := Bool.eq_iff_iff.mpr (startsConditional_iff s.rest)
  rw [atConditional]
  simp only [bind_assoc, pure_bind, agrees_current, peek, peekTwo, agrees_byteAhead]
  rw [hcond]

/-- A part of an expression behind a mark, which is a trial of its own. -/
theorem mirrors_expression (h : mine.Agrees source theirs s.rest.length) :
  Mirrors source s (unbounded.expression mine).run (Scan.expression theirs).run
  := by
  rw [Allocator.expression, Scan.expression]
  apply (mirrors_disjunction h).tries
  intro test t _ hfollows
  simp only [run_lift_bind, run_ite]
  apply (mirrors_skipTrivia t).bind
  intro _ u _ hu
  have hsu := hfollows.trans hu
  rw [agrees_atConditional, agrees_scan_rest]
  apply Agrees.ite Iff.rfl
  · intro hmark
    have hhead : u.rest.head? = some '?' := by
      simp only [Scan.startsConditional, Bool.and_eq_true, decide_eq_true_eq] at hmark
      exact hmark.1.1
    apply Agrees.skip (by decide) hhead
    have hpast {w : Scan.State} (hw : Follows (u.after 1) w) :
        Follows s w ∧ w.rest.length < s.rest.length :=
      ⟨(hsu.trans (.after u 1)).trans hw,
        Nat.lt_of_lt_of_le (hw.length_lt_of_after (ne_nil_of_head? hhead)) hsu.length_le⟩
    apply (mirrors_skipTrivia _).bind
    intro _ v _ hv
    apply (h.nested.expression (hpast hv).2).attempt
    · exact fun w hw => ⟨rfl, (hpast (hv.trans hw)).1⟩
    intro consequent w _ hw
    simp only [run_lift_bind, run_guard_bind]
    apply (mirrors_skipTrivia w).bind
    intro _ x _ hx
    have hux := (hv.trans hw).trans hx
    rw [agrees_current, agrees_scan_rest]
    apply Agrees.ite (lead_eq_byte_iff (by decide))
    · intro hcolon
      apply (mirrors_advance (by decide) hcolon).bind
      intro _ y _ hy
      apply (mirrors_skipTrivia y).bind
      intro _ z _ hz
      have huz := hux.trans (hy.trans hz)
      apply (h.nested.expression (hpast huz).2).attempt
      · exact fun w hw => ⟨rfl, (hpast (huz.trans hw)).1⟩
      intro alternate w _ hw
      rw [run_lift, run_lift]
      exact mirrors_store.found.follow (hpast (huz.trans hw)).1
    · exact fun _ => .pure ⟨rfl, (hpast hux).1⟩
  · exact fun _ => .pure ⟨rfl, hsu⟩

/-! ### Regions -/

theorem mirrors_wholeExpression (h : mine.Agrees source theirs s.rest.length) {stops : List Char}
    (hstops : AreStops stops) :
  Mirrors source s (unbounded.wholeExpression mine stops).run
    (Scan.wholeExpression theirs stops).run
  := by
  rw [Allocator.wholeExpression, Scan.wholeExpression]
  apply (mirrors_expression h).tries
  intro node t _ hfollows
  simp only [run_lift_bind, run_guard_bind]
  apply (mirrors_skipTrivia t).bind
  intro _ u _ hu
  have hsu := hfollows.trans hu
  rw [agrees_current, agrees_atEnd, agrees_scan_rest, any_lead_eq hstops]
  apply Agrees.ite
  · cases u.rest <;> simp
  · exact fun _ => .pure ⟨rfl, hsu⟩
  · exact fun _ => .pure ⟨rfl, hsu⟩

theorem take_size_eq {α : Type} {less more : Array α} (h : less.toList <+: more.toList) :
  more.take less.size = less
  := by
  apply Array.toList_inj.mp
  rw [Array.take_eq_extract, Array.toList_extract, List.extract_eq_take_drop, List.drop_zero,
    Nat.sub_zero, ← Array.length_toList]
  exact (List.prefix_iff_eq_take.mp h).symm

/-- The cursor goes back to an earlier place and forgets what has been found since, and the scan
takes up its earlier state. -/
theorem Agrees.restore {f : Unit → Reading γ} {g : PUnit → Scan δ} {Q : γ → δ → Scan.State → Prop}
    (hat : s.At source) (hfollows : Follows s t) (hnext : Agrees source s (f ()) (g ()) Q) :
  Agrees source t
    (moveTo s.pos >>= fun _ => truncate s.elements.size s.arena.size >>= f) (set s >>= g) Q
  := by
  rw [← bind_assoc]
  refine Agrees.move (t := s) ?_ (fun _ => hat) rfl hnext
  intro _
  rw [bind_apply, moveTo_apply hat]
  change Except.ok ((), State.mk s.pos (t.elements.take s.elements.size)
    (t.arena.take s.arena.size)) = _
  rw [take_size_eq hfollows.elements, take_size_eq hfollows.arena]
  rfl

theorem mirrors_region (h : mine.Agrees source theirs s.rest.length) {stops : List Char}
    (hstops : AreStops stops) :
  Mirrors source s (unbounded.region mine stops) (Scan.region theirs stops)
  := by
  rw [Allocator.region, Scan.region]
  apply (mirrors_skipTrivia s).bind
  intro _ t _ hfollows
  apply Agrees.of_at
  intro hat
  have hmine := h.follow hfollows
  rw [agrees_get, agrees_scan_get]
  apply (mirrors_wholeExpression hmine hstops).bind
  intro found u _ hu
  cases found with
  | some node => exact .pure ⟨rfl, hfollows.trans hu⟩
  | none =>
    apply Agrees.restore hat hu
    rw [discard_bind, discard_bind]
    apply (agrees_code hmine hstops).bind
    rintro _ _ v - ⟨-, hv, -⟩
    rw [agrees_spanFrom, agrees_scan_spanFrom]
    exact mirrors_store.follow (hfollows.trans hv)

end UtilityClasses.Cursor
