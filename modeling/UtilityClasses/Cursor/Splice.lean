import UtilityClasses.Cursor.Token
import UtilityClasses.Replacement

/-!
# Replacements by byte offsets

The source is cut by offsets into the whole of it, and the code is written piece by piece.
Nothing ensures that what is copied between two replacements is made of whole characters, or
ends where it starts or later: `splice?` has no result where it is not.
-/

namespace UtilityClasses.Cursor

/-- What has become of a source of which the first bytes have been dealt with. -/
structure Splicing where
  copied : Nat
  code : List Char
  edits : List Edit

/-- Makes a replacement, unless it starts in what has been dealt with, is not one of a part of
the source, or changes nothing. -/
def Splicing.make? (source : List Char) (state : Splicing) (replacement : Replacement) :
    Option Splicing :=
  if replacement.span.start < state.copied then some state
  else
    match textAt? source replacement.span with
    | none => some state
    | some original =>
      if original = replacement.text.toList then some state
      else do
        let between ← textAt? source ⟨state.copied, replacement.span.start⟩
        let front := state.code ++ between
        let code := front ++ replacement.text.toList
        let output : Span := ⟨Text.byteSize front, Text.byteSize code⟩
        return ⟨replacement.span.stop, code,
          state.edits ++ [⟨replacement.target, replacement.span, output⟩]⟩

/-- Copies what is left of a source. -/
def Splicing.finish? (source : List Char) (state : Splicing) : Option Spliced := do
  let last ← textAt? source ⟨state.copied, Text.byteSize source⟩
  return ⟨String.ofList (state.code ++ last), state.edits⟩

/-- Makes replacements in a source. -/
def splice? (source : String) (replacements : List Replacement) : Option Spliced := do
  let state ← (Replacement.inOrder replacements).foldlM (Splicing.make? source.toList) ⟨0, [], []⟩
  state.finish? source.toList

end UtilityClasses.Cursor
