import UtilityClasses.Settings
import UtilityClasses.Dialect

/-!
# Options

The words after `prefix` on the command line, and what they ask for.
-/

namespace UtilityClasses.Command

/-! ### Prefixes -/

/-- Why a prefix is not accepted.  It is written into attribute values and strings as it
stands, so it must not be able to end either. -/
inductive AffixError where
  | empty
  | contains (c : Char)
  deriving DecidableEq

/-- The error in words. -/
def AffixError.message : AffixError → String
  | empty => "--prefix must not be empty"
  | contains c => "--prefix must not contain " ++ Text.quotedChar c

/-- Whether a character cannot be part of a prefix. -/
def isForbidden (c : Char) : Bool :=
  Text.isBlank c || c = '"' || c = '\'' || c = '\x60' || c = '\\'

/-- Accepts a prefix, or says what is wrong with it. -/
def checkAffix (affix : String) : Except AffixError Unit :=
  if affix.isEmpty then .error .empty
  else
    match affix.toList.find? isForbidden with
    | some c => .error (.contains c)
    | none => .ok ()

/-! ### Words -/

/-- Why the words do not make sense. -/
inductive UsageError where
  | unknownOption (word : String)
  | missingAffix
  | badAffix (error : AffixError)
  | emptyAttribute
  | unknownInput (name : String)
  | pathsWithInput
  | modeWithInput
  deriving DecidableEq

/-- The error in words. -/
def UsageError.message : UsageError → String
  | unknownOption word => "unknown option: " ++ word
  | missingAffix => "missing --prefix=<prefix>"
  | badAffix error => error.message
  | emptyAttribute => "--attr must name an attribute"
  | unknownInput name => "unsupported --stdin file type: " ++ name
  | pathsWithInput => "cannot specify paths with --stdin"
  | modeWithInput => "cannot use --check or --diff with --stdin"

/-- What the words read so far say.  Of several prefixes, and of several kinds of input, the
last one counts. -/
structure Words where
  affix : Option String := none
  attributes : List String := []
  check : Bool := false
  diff : Bool := false
  input : Option String := none
  paths : List String := []
  deriving DecidableEq

/-- The rest of a word after its beginning. -/
def after? (beginning word : String) : Option String :=
  if beginning.toList.isPrefixOf word.toList then
    some (String.ofList (word.toList.drop beginning.length))
  else none

/-- The extension that stands for the kind of input if none is given. -/
def defaultInput : String := "tsx"

/-- Reads one word. -/
def Words.add (words : Words) (word : String) : Except UsageError Words :=
  match after? "--prefix=" word, after? "--attr=" word, after? "--stdin=" word with
  | some affix, _, _ => .ok { words with affix := some affix }
  | none, some name, _ => .ok { words with attributes := words.attributes ++ [name] }
  | none, none, some name => .ok { words with input := some name }
  | none, none, none =>
    if word = "--check" then .ok { words with check := true }
    else if word = "--diff" then .ok { words with diff := true }
    else if word = "--stdin" then .ok { words with input := some defaultInput }
    else if word.toList.head? = some '-' then .error (.unknownOption word)
    else .ok { words with paths := words.paths ++ [word] }

/-! ### Options -/

/-- What to prefix and how. -/
structure Options where
  settings : Settings
  /-- Files that would change are only named. -/
  check : Bool
  /-- Changes are only shown. -/
  diff : Bool
  /-- The kind of the one source that is read from standard input. -/
  input : Option Dialect
  paths : List String

/-- Refuses an attribute without a name. -/
def Words.checkAttributes (words : Words) : Except UsageError Unit :=
  if words.attributes.any String.isEmpty then .error .emptyAttribute else .ok ()

/-- The kind of input that words ask for.  Dots in front of the extension are ignored. -/
def Words.dialect? (words : Words) : Except UsageError (Option Dialect) :=
  match words.input with
  | none => .ok none
  | some name =>
    let ext := String.ofList (name.toList.dropWhile (· = '.'))
    match Dialect.ofExtension? ext with
    | none => .error (.unknownInput ext)
    | some dialect =>
      if !words.paths.isEmpty then .error .pathsWithInput
      else if words.check || words.diff then .error .modeWithInput
      else .ok (some dialect)

/-- The options that words ask for.  The current directory is meant if nothing is named. -/
def Words.options (words : Words) : Except UsageError Options := do
  let affix ← words.affix.elim (.error .missingAffix) .ok
  (checkAffix affix).mapError .badAffix
  words.checkAttributes
  let input ← words.dialect?
  let attributes := if words.attributes.isEmpty then defaultAttributes else words.attributes
  let paths := if input.isNone && words.paths.isEmpty then ["."] else words.paths
  return ⟨⟨affix, attributes, Classifier.lexical⟩, words.check, words.diff, input, paths⟩

/-- Reads the words after `prefix`. -/
def Options.parse (args : List String) : Except UsageError Options := do
  (← args.foldlM Words.add {}).options

end UtilityClasses.Command
