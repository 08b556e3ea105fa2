import UtilityClasses.Proofs.Term.Between

/-!
# Reading lists of terms

The items of an array, the arguments of a call and the holes of a template are regions, one after
the other, up to the character that closes them.
-/

namespace UtilityClasses.Term

open Scan
open Text (byteSize)

variable {context : Context} {s t s' : State} {node : Node} {later : List Char} {term : Term}

/-! ### Items and arguments -/

/-- An item stands between the two states, with blanks in front of it and the character `d`
behind it. -/
def AtItem (context : Context) (close : Char) (s : State) (node : Node) (d : Char) (s' : State) :
    Prop :=
  ∃ t c, Runs skipTrivia s () t ∧ t.rest.head? = some c ∧ Opens c ∧
    ∃ r, Runs (context.nested.region [',', close]) t node r ∧ r.Passes [d] s'

/-- The loop reads items up to a closing character. -/
structure Lists (context : Context) (close : Char)
    (loop : Nat → List ExprId → Attempt (List ExprId)) : Prop where
  empty {s t s' : State} {budget : Nat} {ids : List ExprId} (hblanks : Runs skipTrivia s () t)
    (hclose : t.Passes [close] s') : Yields (loop (budget + 1) ids) s ids s'
  last {s s' : State} {budget : Nat} {ids : List ExprId} {node : Node}
    (hitem : AtItem context close s node close s') :
    Yields (loop (budget + 1) ids) s (ids ++ [node.id]) s'
  more {s t s' : State} {budget : Nat} {ids found : List ExprId} {node : Node}
    (hitem : AtItem context close s node ',' t)
    (hlater : Yields (loop budget (ids ++ [node.id])) t found s') :
    Yields (loop (budget + 1) ids) s found s'

/-- What is left to do behind an item. -/
theorem yields_next {p : Prop} [Decidable p] {ids found : List ExprId}
    {more : List ExprId → Attempt (List ExprId)} :
  Yields (if p then more ids else pure ids) s found s' ↔
    if p then Yields (more ids) s found s' else found = ids ∧ s' = s
  := by
  split
  · rfl
  · apply yields_pure

/-- An argument is read, and then more of them if a comma follows. -/
theorem AtItem.callArguments {d : Char} (h : AtItem context ')' s node d t) (hd : d = ',' ∨ d = ')')
    {budget : Nat} {ids found : List ExprId}
    (hlater : if d = ',' then Yields (callArguments context budget (ids ++ [node.id])) t found s'
      else found = ids ++ [node.id] ∧ s' = t) :
  Yields (Scan.callArguments context (budget + 1) ids) s found s'
  := by
  obtain ⟨t', c, hblanks, hhead, hopens, r, hnode, hpasses⟩ := h
  have hne : c ≠ ')' := hopens.ne (by simp) rfl
  have hnext : r.rest.head? = some d := by rw [hpasses.ahead]; rfl
  simp only [Scan.callArguments, yields_bind, yields_lift]
  refine ⟨(), t', hblanks, t'.rest, t', by simp, ?_⟩
  simp only [hhead, Option.some.injEq, hne, if_false, yields_bind, yields_lift, runs_rest,
    yields_guard, and_assoc, exists_and_left, exists_eq_left]
  refine ⟨node, r, hnode, ?_⟩
  simp only [hnext, Option.some.injEq, yields_next]
  refine ⟨by simpa using hd, (), (), t, (runs_skip_one hnext).mpr hpasses, hlater⟩

/-- An item is read, and then more of them if a comma follows. -/
theorem AtItem.arrayItems {d : Char} (h : AtItem context ']' s node d t) (hd : d = ',' ∨ d = ']')
    {budget : Nat} {ids found : List ExprId}
    (hlater : if d = ',' then Yields (arrayItems context budget (ids ++ [node.id])) t found s'
      else found = ids ++ [node.id] ∧ s' = t) :
  Yields (Scan.arrayItems context (budget + 1) ids) s found s'
  := by
  obtain ⟨t', c, hblanks, hhead, hopens, r, hnode, hpasses⟩ := h
  have hclose : c ≠ ']' := hopens.ne (by simp) rfl
  have hcomma : c ≠ ',' := hopens.ne (by simp) rfl
  have hnext : r.rest.head? = some d := by rw [hpasses.ahead]; rfl
  simp only [Scan.arrayItems, yields_bind, yields_lift]
  refine ⟨(), t', hblanks, t'.rest, t', by simp, ?_⟩
  simp only [hhead, Option.some.injEq, hclose, hcomma, if_false, yields_bind, yields_lift,
    runs_rest, yields_guard, and_assoc, exists_and_left, exists_eq_left]
  refine ⟨node, r, hnode, ?_⟩
  simp only [hnext, Option.some.injEq, yields_next]
  refine ⟨by simpa using hd, (), (), t, (runs_skip_one hnext).mpr hpasses, hlater⟩

theorem lists_callArguments (context : Context) :
  Lists context ')' (callArguments context)
  where
  empty := by
    intro s t s' budget ids hblanks hclose
    have hhead : t.rest.head? = some ')' := by rw [hclose.ahead]; rfl
    simp only [callArguments, yields_bind, yields_lift]
    refine ⟨(), t, hblanks, t.rest, t, by simp, ?_⟩
    simp only [hhead, if_true, yields_bind, yields_lift, runs_skip, yields_pure]
    exact ⟨(), s', hclose.eq_after, trivial, rfl⟩
  last hitem := hitem.callArguments (.inr rfl) (by simp)
  more hitem hlater := hitem.callArguments (.inl rfl) (by simpa using hlater)

theorem lists_arrayItems (context : Context) :
  Lists context ']' (arrayItems context)
  where
  empty := by
    intro s t s' budget ids hblanks hclose
    have hhead : t.rest.head? = some ']' := by rw [hclose.ahead]; rfl
    simp only [arrayItems, yields_bind, yields_lift]
    refine ⟨(), t, hblanks, t.rest, t, by simp, ?_⟩
    simp only [hhead, if_true, yields_bind, yields_lift, runs_skip, yields_pure]
    exact ⟨(), s', hclose.eq_after, trivial, rfl⟩
  last hitem := hitem.arrayItems (.inr rfl) (by simp)
  more hitem hlater := hitem.arrayItems (.inl rfl) (by simpa using hlater)

/-- A printed item is read where the loop is about to read one. -/
theorem ReadsRegion.atItem (h : term.ReadsRegion) {level : Level} (hderives : term.Derives level)
    {close d : Char} (hd : d = ',' ∨ d = close) (hclose : close ∈ closers) {count : Nat}
    (hample : context.Ample count) (hlt : s.rest.length < count) {blanks : List Char}
    (hrest : s.rest = blanks ++ (term.print ++ d :: later))
    (hblanks : ∀ c ∈ blanks, isSpacing c = true) :
  ∃ node s', AtItem context close s node d s' ∧
    Covers s (blanks ++ (term.print ++ [d])) s' ∧
    s'.arena.Locates (s.pos + byteSize blanks) node.id term
  := by
  have hcloser : d ∈ closers := by
    obtain rfl | rfl := hd
    · simp [closers]
    · exact hclose
  have hpasses := State.passes_after hrest
  have hcovers := Covers.of_passes hpasses
  generalize s.after blanks.length = t at hpasses hcovers
  have hahead : t.rest = term.print ++ ([] ++ d :: later) := hcovers.rest_eq hrest
  have hskip : Runs skipTrivia s () t :=
    (runs_skipTrivia_of_settled hrest hblanks (hderives.settled _)).mpr hpasses
  have hlength := hcovers.length_eq
  obtain ⟨node, r, hnode, hbetween⟩ := ReadsRegion.nested h (s := t) [',', close]
    hample (by omega) hahead (by simp) hcloser (by simpa using hd)
  have hnext : r.rest = d :: later := hbetween.rest_eq hahead
  have hmark : r.Passes [d] (r.after 1) := State.passes_after hnext
  obtain ⟨c, text, hprint, hopens⟩ := hderives.exists_cons
  have hhead : t.rest.head? = some c := by rw [hahead, hprint]; rfl
  refine ⟨node, r.after 1, ⟨t, c, hskip, hhead, hopens, r, hnode, hmark⟩, ?_, ?_⟩
  · simpa using hcovers.trans (hbetween.toCovers.trans (.of_passes hmark))
  · rw [← hpasses.pos]
    exact hbetween.locates

/-- The items of a list are read up to the closing character. -/
theorem Lists.reads {close : Char} {loop : Nat → List ExprId → Attempt (List ExprId)}
    (h : Lists context close loop) (hclose : close ∈ closers) {items : List Term}
    (hitems : ∀ item ∈ items, item.ReadsRegion)
    (hderives : ∀ item ∈ items, item.Derives .conditional) {count budget : Nat}
    (ids : List ExprId) {blanks : List Char} (hample : context.Ample count)
    (hlt : s.rest.length < count) (hbudget : s.rest.length < budget)
    (hrest : s.rest = blanks ++ (printItems items ++ close :: later))
    (hblanks : ∀ c ∈ blanks, isSpacing c = true) :
  ∃ others t, Yields (loop budget ids) s (ids ++ others) t ∧
    Covers s (blanks ++ (printItems items ++ [close])) t ∧
    t.arena.LocatesItems (s.pos + byteSize blanks) others items
  := by
  induction items generalizing s budget ids blanks with
  | nil =>
    obtain ⟨budget, rfl⟩ := Nat.exists_eq_add_one_of_ne_zero (Nat.ne_zero_of_lt hbudget)
    have hpasses := State.passes_after hrest
    have hahead : (s.after blanks.length).rest = close :: later := State.after_length_rest hrest
    have hlast : (s.after blanks.length).Passes [close] _ := State.passes_after hahead
    have hends := endsExpression_of_mem hclose later
    have hskip : Runs skipTrivia s () _ :=
      (runs_skipTrivia_of_settled hrest hblanks hends.settled).mpr hpasses
    refine ⟨[], _, ?_, .of_passes (hpasses.trans hlast), rfl⟩
    rw [List.append_nil]
    exact h.empty hskip hlast
  | cons item items ih =>
    obtain ⟨budget, rfl⟩ := Nat.exists_eq_add_one_of_ne_zero (Nat.ne_zero_of_lt hbudget)
    rw [List.forall_mem_cons] at hitems hderives
    rw [printItems, List.append_assoc] at hrest
    cases items with
    | nil =>
      obtain ⟨node, t, hitem, hcovers, hlocates⟩ :=
        ReadsRegion.atItem hitems.1 hderives.1 (.inr rfl) hclose hample hlt hrest hblanks
      refine ⟨[node.id], t, h.last hitem, ?_, node.id, [], rfl, hlocates, rfl⟩
      simpa [printItems, printLater] using hcovers
    | cons other items =>
      obtain ⟨node, t, hitem, hcovers, hlocates⟩ :=
        ReadsRegion.atItem hitems.1 hderives.1 (.inl rfl) hclose hample hlt hrest hblanks
      have hlength := hcovers.length_eq
      simp only [List.length_append, List.length_singleton] at hlength
      have hahead : t.rest = [' '] ++ (printItems (other :: items) ++ close :: later) :=
        hcovers.rest_eq (by rw [hrest, printLater]; simp [printItems])
      have hlt' : t.rest.length < count := by omega
      have hbudget' : t.rest.length < budget := by omega
      obtain ⟨others, t', hyields, hcovers', hlocates'⟩ := ih hitems.2 hderives.2
        (ids ++ [node.id]) hlt' hbudget' hahead (by simp; rfl)
      have hpos : t.pos + byteSize [' '] = s.pos + byteSize blanks + byteSize item.print + 2 := by
        have hcomma : byteSize [','] = 1 := rfl
        have hblank : byteSize [' '] = 1 := rfl
        simp only [hcovers.pos, Text.byteSize_append]
        omega
      rw [hpos] at hlocates'
      refine ⟨node.id :: others, t', h.more hitem ?_, ?_, node.id, others, rfl, ?_, hlocates'⟩
      · simpa using hyields
      · simpa [printItems, printLater] using hcovers.trans hcovers'
      · exact hlocates.mono hcovers'.grows

/-- What is read at a bracket is an array. -/
theorem yields_primary_bracket (hhead : s.rest.head? = some '[') :
  Yields (primary context) s node s' ↔ Yields (arrayNode context) s node s'
  := by
  obtain ⟨text, hrest⟩ := List.head?_eq_some_iff.mp hhead
  simp [primary, hrest]

theorem readsPrimary_array {items : List Term} (hitems : ∀ item ∈ items, item.ReadsRegion)
    (hderives : ∀ item ∈ items, item.Derives .conditional) :
  (array items).ReadsPrimary
  := by
  intro context s later hample hrest _
  have hrest' : s.rest = '[' :: (printItems items ++ ']' :: later) := by simpa [print] using hrest
  have hopen : s.Passes ['['] (s.after 1) := State.passes_after hrest'
  have hahead : (s.after 1).rest = [] ++ (printItems items ++ ']' :: later) := by
    rw [s.after_rest, hrest']
    rfl
  have hlt : (s.after 1).rest.length < s.rest.length := by simp [hrest']
  obtain ⟨ids, t, hyields, hcovers, hlocates⟩ := (lists_arrayItems context).reads
    (by simp [closers]) hitems hderives [] hample hlt (Nat.lt_trans hlt hample.lt_budget)
    hahead (by simp)
  have hcovers : Covers s (array items).print t := by
    simpa [print] using (Covers.of_passes hopen).trans hcovers
  refine ⟨_, _, ?_, hcovers.stored_here ⟨ids, hcovers.holds (.array ids), ?_⟩⟩
  · rw [yields_primary_bracket (by rw [hrest']; rfl)]
    simp only [arrayNode, yields_bind, yields_lift, runs_position, runs_skip, runs_spanFrom,
      runs_store, and_assoc, exists_and_left, exists_eq_left, exists_const]
    exact ⟨ids, t, hyields, rfl, rfl⟩
  · have hpos : (s.after 1).pos + byteSize [] = s.pos + 1 := hopen.pos
    rw [hpos] at hlocates
    exact hlocates.mono (storing_grows t _ _)

/-! ### Templates -/

/-- A plain text is taken up to what ends it. -/
theorem runs_take_templateText {text : String} (htext : IsPlain text)
    (hrest : s.rest = text.toList ++ later) (hlater : templateText later = 0) :
  Runs (take (templateText s.rest)) s text.toList (s.after text.toList.length)
  := by
  rw [runs_take, hrest, htext.templateText hlater, List.take_left]
  exact ⟨rfl, rfl⟩

/-- A template is stored when its closing quote has been passed. -/
theorem exists_runs_templateFrom_close {text : String} (htext : IsPlain text) {start budget : Nat}
    {texts : List String} {ids : List ExprId} (hrest : s.rest = text.toList ++ '\x60' :: later) :
  ∃ t, Covers s (text.toList ++ ['\x60']) t ∧
    Runs (templateFrom context start (budget + 1) texts ids) s ⟨t.arena.size, ⟨start, t.pos⟩⟩
      (storing t (.template (texts ++ [text]) ids) ⟨start, t.pos⟩)
  := by
  have htake := runs_take_templateText htext hrest (by simp [templateText])
  have hpasses := State.passes_after hrest
  have hahead := State.after_length_rest hrest
  generalize s.after text.toList.length = r at htake hpasses hahead
  have hclose : r.Passes ['\x60'] (r.after 1) := State.passes_after hahead
  refine ⟨r.after 1, .of_passes (hpasses.trans hclose), ?_⟩
  simp only [templateFrom, runs_bind, runs_rest, and_assoc, exists_and_left, exists_eq_left]
  refine ⟨_, r, htake, ?_⟩
  simp only [hahead, runs_bind, runs_skip, runs_spanFrom, runs_store, and_assoc, exists_and_left,
    exists_eq_left, exists_const]
  rw [htext.decode, String.ofList_toList]
  exact ⟨trivial, rfl⟩

/-- A text and the hole behind it are read, and the template goes on. -/
theorem ReadsRegion.exists_hole (h : term.ReadsRegion) {text : String} (htext : IsPlain text)
    {start count : Nat} (hample : context.Ample count) (hlt : s.rest.length < count)
    (hrest : s.rest = text.toList ++ ('$' :: '\x7b' :: (term.print ++ '\x7d' :: later))) :
  ∃ (node : Node) (t : State),
    Covers s (text.toList ++ ('$' :: '\x7b' :: (term.print ++ ['\x7d']))) t ∧
    t.arena.Locates (s.pos + byteSize text.toList + 2) node.id term ∧
    ∀ {budget texts ids found s'},
      Runs (templateFrom context start budget (texts ++ [text]) (ids ++ [node.id])) t found s' →
        Runs (templateFrom context start (budget + 1) texts ids) s found s'
  := by
  have htake := runs_take_templateText htext hrest (by simp [templateText])
  have hpasses := State.passes_after hrest
  have hahead := State.after_length_rest hrest
  generalize s.after text.toList.length = r at htake hpasses hahead
  have hopen : r.Passes ['$', '\x7b'] (r.after 2) := State.passes_after hahead
  have hcovers := Covers.of_passes (hpasses.trans hopen)
  have hinside : (r.after 2).rest = term.print ++ ([] ++ '\x7d' :: later) :=
    (Covers.of_passes hopen).rest_eq hahead
  have hlength := hcovers.length_eq
  obtain ⟨node, t, hnode, hbetween⟩ := ReadsRegion.nested h ['\x7d'] hample
    (by omega) hinside (by simp) (by simp [closers]) (by simp)
  have hclosing := hbetween.rest_eq hinside
  have hclose : t.Passes ['\x7d'] (t.after 1) := State.passes_after hclosing
  refine ⟨node, t.after 1, ?_, ?_, ?_⟩
  · simpa using hcovers.trans (hbetween.toCovers.trans (.of_passes hclose))
  · have hpos : (r.after 2).pos = s.pos + byteSize text.toList + 2 := by
      rw [hopen.pos, hpasses.pos]
      rfl
    rw [← hpos]
    exact hbetween.locates
  · intro budget texts ids found s' hmore
    simp only [templateFrom, runs_bind, runs_rest, and_assoc, exists_and_left, exists_eq_left]
    refine ⟨_, r, htake, ?_⟩
    rw [hahead]
    split
    · next heq => simp at heq
    · next heq => simp at heq
    · simp only [runs_bind, runs_skip, runs_rest, and_assoc, exists_and_left, exists_eq_left,
        exists_const]
      refine ⟨node, t, hnode, ?_⟩
      simp only [hclosing, List.head?_cons, if_true, runs_bind, runs_skip, exists_eq_left,
        exists_const]
      rw [htext.decode, String.ofList_toList]
      exact hmore

/-- The holes of a template are read, each with the text behind it. -/
theorem exists_runs_templateFrom {holes : List (Term × String)}
    (hholes : ∀ entry ∈ holes, entry.1.ReadsRegion) (htexts : ∀ entry ∈ holes, IsPlain entry.2)
    {text : String} (htext : IsPlain text) {start count budget : Nat} (texts : List String)
    (ids : List ExprId) (hample : context.Ample count) (hlt : s.rest.length < count)
    (hbudget : s.rest.length < budget)
    (hrest : s.rest = text.toList ++ (printHoles holes ++ '\x60' :: later)) :
  ∃ others t, Covers s (text.toList ++ (printHoles holes ++ ['\x60'])) t ∧
    t.arena.LocatesHoles (s.pos + byteSize text.toList) others holes ∧
    Runs (templateFrom context start budget texts ids) s ⟨t.arena.size, ⟨start, t.pos⟩⟩
      (storing t (.template (texts ++ text :: holes.map Prod.snd) (ids ++ others)) ⟨start, t.pos⟩)
  := by
  obtain ⟨budget, rfl⟩ := Nat.exists_eq_add_one_of_ne_zero (Nat.ne_zero_of_lt hbudget)
  induction holes generalizing s text budget texts ids with
  | nil =>
    obtain ⟨t, hcovers, hruns⟩ := exists_runs_templateFrom_close htext hrest
    refine ⟨[], t, hcovers, rfl, ?_⟩
    simpa using hruns
  | cons hole holes ih =>
    obtain ⟨hole, behind⟩ := hole
    rw [List.forall_mem_cons] at hholes htexts
    have hrest' : s.rest = text.toList ++ ('$' :: '\x7b' :: (hole.print ++ '\x7d' ::
        (behind.toList ++ (printHoles holes ++ '\x60' :: later)))) := by
      rw [hrest, printHoles]
      simp
    obtain ⟨node, t, hcovers, hlocates, hmore⟩ :=
      ReadsRegion.exists_hole hholes.1 htext hample hlt hrest'
    have hahead : t.rest = behind.toList ++ (printHoles holes ++ '\x60' :: later) :=
      hcovers.rest_eq (by rw [hrest']; simp)
    have hlength := hcovers.length_eq
    simp only [List.length_append, List.length_cons] at hlength
    obtain ⟨budget, rfl⟩ : ∃ less, budget = less + 1 :=
      Nat.exists_eq_add_one_of_ne_zero (by omega)
    obtain ⟨others, r, hcovers', hlocates', hruns⟩ := ih hholes.2 htexts.2 htexts.1
      (texts ++ [text]) (ids ++ [node.id]) (by omega) hahead budget (by omega)
    have hpos : t.pos = s.pos + byteSize text.toList + 2 + byteSize hole.print + 1 := by
      simp only [hcovers.pos, Text.byteSize_append, byteSize]
      have hdollar : Char.utf8Size '$' = 1 := rfl
      have hopen : Char.utf8Size '\x7b' = 1 := rfl
      have hclose : Char.utf8Size '\x7d' = 1 := rfl
      omega
    rw [hpos] at hlocates'
    have hhere := hlocates.mono hcovers'.grows
    refine ⟨node.id :: others, r, ?_, ⟨node.id, others, rfl, hhere, hlocates'⟩, ?_⟩
    · simpa [printHoles] using hcovers.trans hcovers'
    · apply hmore
      simpa using hruns

/-- What is read at a backtick is a template. -/
theorem yields_primary_backtick (hhead : s.rest.head? = some '\x60') :
  Yields (primary context) s node s' ↔ Runs (templateNode context) s node s'
  := by
  obtain ⟨text, hrest⟩ := List.head?_eq_some_iff.mp hhead
  simp [primary, hrest]

theorem readsPrimary_template {text : String} {holes : List (Term × String)}
    (htext : IsPlain text) (hholes : ∀ entry ∈ holes, entry.1.ReadsRegion)
    (htexts : ∀ entry ∈ holes, IsPlain entry.2) :
  (template text holes).ReadsPrimary
  := by
  intro context s later hample hrest _
  have hrest' : s.rest = '\x60' :: (text.toList ++ (printHoles holes ++ '\x60' :: later)) := by
    simpa [print] using hrest
  have hopen : s.Passes ['\x60'] (s.after 1) := State.passes_after hrest'
  have hahead := (passes_one hrest').2
  have hlt : (s.after 1).rest.length < s.rest.length := by simp [hrest']
  obtain ⟨ids, t, hcovers, hlocates, hruns⟩ := exists_runs_templateFrom hholes htexts htext
    [] [] hample hlt (Nat.lt_trans hlt hample.lt_budget) hahead
  have hcovers : Covers s (template text holes).print t := by
    simpa [print] using (Covers.of_passes hopen).trans hcovers
  refine ⟨_, _, ?_, hcovers.stored_here ⟨ids, hcovers.holds _, ?_⟩⟩
  · rw [yields_primary_backtick (by rw [hrest']; rfl)]
    simp only [templateNode, runs_bind, runs_position, runs_skip, and_assoc, exists_and_left,
      exists_eq_left, exists_const]
    exact hruns
  · have hpos : (s.after 1).pos = s.pos + 1 := hopen.pos
    rw [hpos] at hlocates
    exact hlocates.mono (storing_grows t _ _)

end UtilityClasses.Term
