import UtilityClasses.Proofs.Arena.Expression
import UtilityClasses.Proofs.Cursor.Source

/-!
# Arenas are no larger than sources

Before a source is read nothing has been stored and nothing has been passed. So in every way to
store expressions that has room for as many as the source has bytes, a source is read alike.
-/

namespace UtilityClasses.Cursor

open Allocator (unbounded)
open Scan (Node)
open Text (byteSize)

variable {source : List Char} {s t : State} {k : Nat} {alloc : Allocator} {mine theirs : Nested}
  {dialect : Dialect}

/-! ### Text of documents -/

theorem passes_frontmatter :
  Passes frontmatter
  := by
  intro source s _ t hs h
  obtain ⟨_, _, ⟨⟩, h⟩ := exists_of_bind h
  obtain ⟨_, u, hspacing, h⟩ := exists_of_bind h
  obtain ⟨_, v, htext, h⟩ := exists_of_bind h
  have hahead := passes_eatSpacing hs hspacing
  have hahead' := hahead.trans (passes_eatText hahead.inside htext)
  split at h
  · have hfence : Passes (do
        if ← skipPast ['\n', '-', '-', '-'] then eatLine : Reading Unit) :=
      passes_skipPast.bind fun _ => .ite passes_eatLine passes_pure
    exact hahead'.trans (hfence hahead'.inside h)
  · exact hahead'.moveTo (Nat.le_refl _) h

theorem passes_rawTextRound {name : List Char} :
  Passes (rawTextRound name)
  := by
  intro source s _ t hs h
  obtain ⟨found, u, hskip, h⟩ := exists_of_bind h
  have hahead := passes_skipPast hs hskip
  cases found with
  | false =>
    cases h
    exact hahead
  | true =>
    have hle := le_of_skipPast hskip
    obtain ⟨named, v, hnamed, h⟩ := exists_of_bind h
    obtain rfl := looks_startsWithFolded hnamed
    cases named with
    | false =>
      cases h
      exact hahead
    | true =>
      obtain ⟨_, _, ⟨⟩, h⟩ := exists_of_bind h
      obtain ⟨_, _, hmove, ⟨⟩⟩ := exists_of_bind h
      exact hahead.moveTo (Nat.le_sub_of_add_le hle) hmove

section Nested

variable (hnested : mine.Pays source theirs)
include hnested

theorem same_documentElement (h : s.Credit source k) :
  Same source s (documentElement ⟨dialect, mine⟩) (documentElement ⟨dialect, theirs⟩)
    fun _ t => t.Credit source k
  := by
  rw [documentElement, documentElement, same_position]
  apply passes_advance.step h
  intro _ t ht
  rw [same_position]
  refine passes_eatWhile.step ht fun _ _ hu => looks_sliceFrom.step fun name => ?_
  apply (same_tag hnested hu).bind
  intro _ v hv
  refine .ite (fun _ => .pure hv) fun _ => ?_
  split
  · exact (Passes.rounds (fun _ => passes_rawTextRound) ()).ends hv
  · exact .pure hv

theorem same_documentTag (h : s.Credit source k) :
  Same source s (documentTag ⟨dialect, mine⟩) (documentTag ⟨dialect, theirs⟩)
    fun _ t => t.Credit source k
  := by
  rw [documentTag, documentTag, same_position]
  refine passes_eatText.step h fun _ t ht => .ite (fun _ => ?_) fun _ => ?_
  · exact passes_skipPast.step ht fun _ _ hu => .ite (fun _ => .pure hu) fun _ => .fail
  rw [same_peek]
  refine .ite (fun _ => ?_) fun _ => .ite (fun _ => same_documentElement hnested ht) fun _ =>
    passes_advance.ends ht
  exact passes_advanceBy.step ht fun _ _ hu => passes_skipPast.discard.ends hu

theorem same_documentBraces (h : s.Credit source k) (hb : s.byteAt source 0 = byte '\x7b') :
  Same source s (documentBraces ⟨dialect, mine⟩) (documentBraces ⟨dialect, theirs⟩)
    fun _ t => t.Credit source k
  := by
  rw [documentBraces, documentBraces]
  refine .ite (fun _ => ?_) fun _ => ?_
  · exact (same_skipBraced hnested h hb).mono fun _ _ ht => ht.mono (Nat.le_add_right _ _)
  rw [same_peek]
  refine .ite (fun _ => ?_) fun _ => passes_advance.ends h
  exact passes_advanceBy.step h fun _ _ ht => passes_skipPast.discard.ends ht

theorem same_documentRound (h : s.Credit source k) :
  Same source s (documentRound ⟨dialect, mine⟩) (documentRound ⟨dialect, theirs⟩)
    (Goes (fun _ t => t.Credit source k) fun _ t => t.Credit source k)
  := by
  rw [documentRound, documentRound]
  apply h.seek.bind
  rintro b t ⟨ht, hb⟩
  refine .ite (fun _ => ?_) fun _ => .ite (fun hbrace => ?_) fun _ => .pure ht
  · exact (same_documentTag hnested ht).bind fun _ _ hu => .pure hu
  · exact (same_documentBraces hnested ht (hb.trans hbrace)).bind fun _ _ hu => .pure hu

theorem same_document (h : s.Credit source k) :
  Same source s (document ⟨dialect, mine⟩) (document ⟨dialect, theirs⟩)
    fun _ t => t.Credit source k
  := by
  have hrounds {u : State} (hu : u.Credit source k) :
      Same source u (rounds (fun _ => documentRound ⟨dialect, mine⟩) ())
        (rounds (fun _ => documentRound ⟨dialect, theirs⟩) ()) fun _ t => t.Credit source k :=
    .rounds (I := fun _ t => t.Credit source k) hu fun _ _ ht => same_documentRound hnested ht
  rw [document, document]
  exact .ite (fun _ => passes_frontmatter.step h fun _ _ ht => hrounds ht) fun _ => hrounds h

/-! ### Sources -/

theorem same_script (h : s.Credit source k) :
  Same source s (script ⟨dialect, mine⟩) (script ⟨dialect, theirs⟩)
    fun _ t => t.Credit source k
  := by
  have hcode {u : State} (hu : u.Credit source k) :
      Same source u (discard (code ⟨dialect, mine⟩ [])) (discard (code ⟨dialect, theirs⟩ []))
        fun _ t => t.Credit source k :=
    (same_code hnested hu []).discard.mono fun _ _ ht => ht.elim fun _ ht => ht
  rw [script, script]
  refine looks_startsWith.step fun _ => .ite (fun _ => ?_) fun _ => hcode h
  exact passes_eatLine.step h fun _ _ ht => hcode ht

theorem same_source (h : s.Credit source k) :
  Same source s (Cursor.source ⟨dialect, mine⟩) (Cursor.source ⟨dialect, theirs⟩)
    fun _ t => t.Credit source k
  := by
  rw [Cursor.source, Cursor.source]
  exact .ite (fun _ => same_document hnested h) fun _ => same_script hnested h

end Nested

variable (halloc : alloc.Suits source)
include halloc

/-- However deep constructs may lie in others, those inside pay for what they store. -/
theorem pays_nested (dialect : Dialect) (depth : Nat) :
  (alloc.nested dialect depth).Pays source (unbounded.nested dialect depth)
  := by
  induction depth with
  | zero =>
    constructor
    · exact fun _ _ => .throw
    · exact fun _ _ => .throw
    · exact fun _ _ => .throw
    · exact fun _ => .throw
    · exact fun _ => .throw
  | succ depth ih =>
    constructor
    · exact fun h stops => same_code ih h stops
    · exact fun h hb => same_element ih h hb
    · exact fun h stops => same_region halloc ih (appends_nested dialect depth) h stops
    · exact fun h => same_expression halloc ih h
    · exact fun h => same_operand halloc ih h

/-- Before a source is read, nothing has to be paid for. -/
theorem same_source_initial (dialect : Dialect) (depth : Nat) :
  Same source State.initial (Cursor.source ⟨dialect, alloc.nested dialect depth⟩)
    (Cursor.source ⟨dialect, unbounded.nested dialect depth⟩) fun _ t => t.Credit source 0
  := same_source (pays_nested halloc dialect depth) ⟨Nat.zero_le _, Nat.le_refl _⟩

omit halloc

/-! ### Limited room -/

/-- With room for as many expressions as there are bytes, a source is read as with any room. -/
theorem Allocator.Suits.parse_eq {text : String} (h : alloc.Suits text.toList)
    (dialect : Dialect) :
  alloc.parse dialect text = Cursor.parse dialect text
  := by
  rw [Cursor.parse, Allocator.parse, Allocator.parse]
  dsimp only
  rw [(same_source_initial h dialect _).1]

theorem parse_within {text : String} {capacity : Nat} (full : Reading Node)
    (hcapacity : text.utf8ByteSize ≤ capacity) (dialect : Dialect) :
  (Allocator.within capacity full).parse dialect text = parse dialect text
  := by
  rw [utf8ByteSize_eq] at hcapacity
  exact (suits_within full hcapacity).parse_eq dialect

/-- An index in brackets is an expression, and so is what is in them, even if that is nothing. So
five expressions have five bytes here. -/
example :
  ((Allocator.within 5 stall).parse .jsx "<a b=\x7ba[][]\x7d/>").isOk = true ∧
  ((Allocator.within 4 stall).parse .jsx "<a b=\x7ba[][]\x7d/>").isOk = false
  := by decide +kernel

theorem suits_unbounded :
  unbounded.Suits source
  := fun _ _ _ _ => rfl

/-- What has been read has no more expressions than the source has bytes. -/
theorem size_arena_le {text : String} {markup : Markup} (h : parse dialect text = .ok markup) :
  markup.arena.size ≤ text.utf8ByteSize
  := by
  rw [parse, Allocator.parse] at h
  cases hrun : Cursor.source ⟨dialect, unbounded.nested dialect (byteSize text.toList)⟩
    text.toList .initial with
  | error halt =>
    rw [hrun] at h
    cases h
  | ok found =>
    rw [hrun] at h
    cases h
    obtain ⟨hinside, hcovers⟩ := (same_source_initial suits_unbounded dialect _).2 hrun
    rw [utf8ByteSize_eq]
    exact Nat.le_trans hcovers hinside

/-- With room for as many expressions as the source has bytes, it makes no difference what would be
done if there were no more room, so it is never done: at no point there are more expressions than
bytes. Nor does it make a difference for a source of limited size when the indices are limited. -/
theorem arena_never_outgrows (dialect : Dialect) (text : String) (full : Reading Node) :
  (Allocator.within text.utf8ByteSize full).parse dialect text = parse dialect text ∧
  (∀ markup, Markup.parse dialect text = .ok markup → markup.arena.size ≤ text.utf8ByteSize) ∧
  (Allocator.indexed full).parseSized? dialect text = unbounded.parseSized? dialect text
  := by
  refine ⟨parse_within full (Nat.le_refl _) dialect, ?_, ?_⟩
  · intro markup hscan
    obtain ⟨_, hparse, hscan'⟩ | ⟨error, -, hscan'⟩ := parse_agrees dialect text
    · obtain rfl := Except.ok.inj (hscan.symm.trans hscan')
      exact size_arena_le hparse
    · cases hscan.symm.trans hscan'
  · rw [Allocator.parseSized?, Allocator.parseSized?]
    split
    · next hsized =>
      rw [Allocator.indexed, parse_within full (Nat.le_succ_of_le hsized), parse]
    · rfl

/-- A template with an empty hole. -/
theorem arena_never_outgrows_emptyHole :
  (Allocator.within 14 stall).parse .jsx "<a b=\x7b\x60$\x7b\x7d\x60\x7d/>" =
      parse .jsx "<a b=\x7b\x60$\x7b\x7d\x60\x7d/>" ∧
    ∃ markup, Markup.parse .jsx "<a b=\x7b\x60$\x7b\x7d\x60\x7d/>" = .ok markup ∧
      markup.arena.size ≤ 14
  := by
  have hsize : "<a b=\x7b\x60$\x7b\x7d\x60\x7d/>".utf8ByteSize = 14 := by decide +kernel
  have hok : (Markup.parse .jsx "<a b=\x7b\x60$\x7b\x7d\x60\x7d/>").isOk = true := by
    decide +kernel
  obtain ⟨hparse, hle, -⟩ := arena_never_outgrows .jsx "<a b=\x7b\x60$\x7b\x7d\x60\x7d/>" stall
  rw [hsize] at hparse hle
  obtain ⟨markup, hmarkup⟩ := Markup.exists_parse_of_isOk hok
  exact ⟨hparse, markup, hmarkup, hle markup hmarkup⟩

end UtilityClasses.Cursor
