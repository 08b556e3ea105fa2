import Mathlib.Data.List.Pairwise
import UtilityClasses.Proofs.Scan.Invariant
import UtilityClasses.Proofs.Trace.Source

/-!
# Markup is well-formed

Every source that can be read has well-formed markup: the scan starts with nothing, and each
of its moves keeps the invariants.
-/

namespace UtilityClasses

namespace Scan

/-! ### The start of a scan -/

theorem formed_initial (text : List Char) :
  Formed (State.initial text, [])
  where
  ordered := Nat.le_refl _
  arena := by
    constructor <;> simp [State.initial]
  loose := by simp
  element := by simp [State.initial]

theorem nesting_initial (text : List Char) :
  Nesting (State.initial text, [])
  where
  before := by simp [State.initial]
  pairwise := List.Pairwise.nil
  tags := by simp

theorem ledger_initial (text : List Char) :
  Ledger (State.initial text, [])
  := by
  intro id
  simp [refs, State.initial, Arena.refs]

end Scan

namespace Markup

/-! ### The end of a scan -/

/-- In a well-formed arena everything that can be reached is there. -/
theorem lt_size_of_reachable {markup : Markup} (harena : markup.arena.WellFormed)
    (helement : ∀ element ∈ markup.elements, element.WellFormed markup.arena) {id : ExprId}
    (h : markup.Reachable id) :
  id < markup.arena.size
  := by
  induction h with
  | root hmem hattr hvalue =>
    obtain ⟨root, hroot, -⟩ := ((helement _ hmem).attrs _ hattr).value _ hvalue
    apply Arena.lt_size_of_span? hroot
  | child _ hexpr hchild ih => apply Nat.lt_trans (harena.earlier hexpr _ hchild) ih

instance : Std.Symm fun a b : Element => a.span.Nests b.span where
  symm _ _ h := h.symm

/-- Elements of which one was found after the other are nested. -/
theorem nests_of_precedes {a b : Element} (h : Scan.Element.Precedes a b) :
  a.span.Nests b.span
  := by
  obtain hapart | ⟨hstart, hstop⟩ := h
  · apply Or.inl hapart
  · right; right; right
    simp [Span.contains, Nat.le_of_lt hstart, hstop]

/-- Elements of which one was found after the other do not start at the same place. -/
theorem start_ne_of_precedes {a b : Element} (h : Scan.Element.Precedes a b)
    (ha : a.span.start < a.span.stop) :
  a.span.start ≠ b.span.start
  := by
  obtain hapart | ⟨hstart, -⟩ := h
  · apply Nat.ne_of_lt (Nat.lt_of_lt_of_le ha hapart)
  · apply Nat.ne_of_gt hstart

/-- The expressions and the elements of every source that can be read are well-formed. -/
theorem formed_of_parse {dialect : Dialect} {text : String} {markup : Markup}
    (h : Markup.parse dialect text = .ok markup) :
  markup.arena.WellFormed ∧ ∀ element ∈ markup.elements, element.WellFormed markup.arena
  := by
  obtain ⟨found, hsteps, helements, harena⟩ := exists_steps_of_parse h
  have hformed := hsteps.formed (Scan.formed_initial text.toList)
  rw [harena]
  constructor
  · apply hformed.arena
  · intro element hmem
    apply hformed.element
    rw [helements, List.mem_mergeSort, Array.mem_toList_iff] at hmem
    apply hmem

/-- The markup of every source that can be read is well-formed. -/
theorem wellFormed_of_parse {dialect : Dialect} {text : String} {markup : Markup}
    (h : Markup.parse dialect text = .ok markup) :
  markup.WellFormed
  := by
  obtain ⟨found, hsteps, helements, harena⟩ := exists_steps_of_parse h
  obtain ⟨hwellFormed, helement⟩ := formed_of_parse h
  have hnesting := hsteps.nesting (Scan.formed_initial _) (Scan.nesting_initial _)
  have hledger := hsteps.ledger (Scan.formed_initial _) (Scan.ledger_initial _)
  have hperm : markup.elements.Perm found.elements.toList := by
    rw [helements]
    apply List.mergeSort_perm
  constructor
  · have hne : found.elements.toList.Pairwise fun a b => a.span.start ≠ b.span.start := by
      apply hnesting.pairwise.imp_of_mem
      intro a b ha _ hprecedes
      apply start_ne_of_precedes hprecedes (helement a (hperm.symm.subset ha)).span
    have hle : markup.elements.Pairwise fun a b => a.span.start ≤ b.span.start := by
      rw [helements]
      apply List.Pairwise.imp _ (List.pairwise_mergeSort _ _ _)
      · simp
      · simpa using fun a b c => Nat.le_trans
      · simpa using fun a b => Nat.le_total _ _
    apply List.Pairwise.imp _ (hle.and (hperm.symm.pairwise hne Ne.symm))
    rintro a b ⟨hle, hne⟩
    apply Nat.lt_of_le_of_ne hle hne
  · have hnests := hperm.symm.pairwise (hnesting.pairwise.imp nests_of_precedes) Span.Nests.symm
    apply hnests.forall_of_forall
    intro element hmem
    right; right; left
    simp [Span.contains]
  · apply helement
  · apply hwellFormed
  · intro id hreachable
    apply lt_size_of_reachable hwellFormed helement hreachable
  · rw [List.nodup_iff_count]
    intro id
    have hcount := hledger id
    have hrefs : markup.refs.Perm (Scan.refs (found, [])) := by
      simp only [Markup.refs, Scan.refs, harena, List.flatMap_nil, List.append_nil]
      apply (hperm.flatMap_right _).append_right
    rw [hrefs.count_eq]
    apply Nat.le_trans hcount
    split <;> omega

/-- An element in a conditional expression in the attribute of another element. -/
theorem wellFormed_of_parse_nested :
  ∃ markup, Markup.parse .jsx "<a b=\x7bc && <i d='e'/>\x7d/>" = .ok markup ∧ markup.WellFormed
  := by
  have hok : (Markup.parse .jsx "<a b=\x7bc && <i d='e'/>\x7d/>").isOk = true := by decide +kernel
  obtain ⟨markup, hparse⟩ := exists_parse_of_isOk hok
  exact ⟨markup, hparse, wellFormed_of_parse hparse⟩

end Markup

end UtilityClasses
