import UtilityClasses.Proofs.ClassList
import UtilityClasses.Command.Options

/-!
# The order of the words

Words can be given in any order, as long as the paths stay in order among themselves, and so do the
prefixes and the kinds of input: other orders are accepted as well and ask for the same. What is
asked for makes sense: there is something to prefix and something to read, and not both files and
an input.
-/

namespace UtilityClasses.Command

variable {args args' : List String} {arg : String} {words words' : Words} {options : Options}

/-! ### What a word says -/

/-- What one word says. -/
inductive Word where
  | affix (text : String)
  | attr (name : String)
  | input (name : String)
  | check
  | diff
  | path (name : String)

namespace Word

/-- What a word says, if it is no unknown option. -/
def read (arg : String) : Option Word :=
  match after? "--prefix=" arg, after? "--attr=" arg, after? "--stdin=" arg with
  | some text, _, _ => some (affix text)
  | none, some name, _ => some (attr name)
  | none, none, some name => some (input name)
  | none, none, none =>
    if arg = "--check" then some check
    else if arg = "--diff" then some diff
    else if arg = "--stdin" then some (input defaultInput)
    else if arg.toList.head? = some '-' then none
    else some (path arg)

/-- The prefix that a word gives. -/
@[simp]
def affix? : Word → Option String
  | affix text => some text
  | _ => none

/-- The attribute that a word gives. -/
@[simp]
def attr? : Word → Option String
  | attr name => some name
  | _ => none

/-- The kind of input that a word gives. -/
@[simp]
def input? : Word → Option String
  | input name => some name
  | _ => none

/-- Whether a word asks for files to be named only. -/
@[simp]
def isCheck : Word → Bool
  | check => true
  | _ => false

/-- Whether a word asks for changes to be shown only. -/
@[simp]
def isDiff : Word → Bool
  | diff => true
  | _ => false

/-- The path that a word gives. -/
@[simp]
def path? : Word → Option String
  | path name => some name
  | _ => none

end Word

/-- What some words say. -/
def Words.of (said : List Word) : Words where
  affix := (said.filterMap Word.affix?).getLast?
  attributes := said.filterMap Word.attr?
  check := said.any Word.isCheck
  diff := said.any Word.isDiff
  input := (said.filterMap Word.input?).getLast?
  paths := said.filterMap Word.path?

/-- What is said with one word more. -/
def Words.say (words : Words) : Word → Words
  | .affix text => { words with affix := some text }
  | .attr name => { words with attributes := words.attributes ++ [name] }
  | .input name => { words with input := some name }
  | .check => { words with check := true }
  | .diff => { words with diff := true }
  | .path name => { words with paths := words.paths ++ [name] }

theorem Words.say_of (said : List Word) (word : Word) :
  (Words.of said).say word = Words.of (said ++ [word])
  := by
  cases word with
  | affix text => simp [Words.say, Words.of]
  | attr name => simp [Words.say, Words.of]
  | input name => simp [Words.say, Words.of]
  | check => simp [Words.say, Words.of]
  | diff => simp [Words.say, Words.of]
  | path name => simp [Words.say, Words.of]

/-- A word is refused, or it adds what it says. -/
theorem Words.add_eq (words : Words) (arg : String) :
  words.add arg =
    match Word.read arg with
    | some word => .ok (words.say word)
    | none => .error (.unknownOption arg)
  := by
  rw [Words.add, Word.read]
  cases after? "--prefix=" arg with
  | some text => rfl
  | none =>
    cases after? "--attr=" arg with
    | some name => rfl
    | none =>
      cases after? "--stdin=" arg with
      | some name => rfl
      | none =>
        dsimp only
        split_ifs with hcheck hdiff hinput hunknown
        · rfl
        · rfl
        · rfl
        · rfl
        · rfl

theorem bind_eq_ok_iff {ε α β : Type} {x : Except ε α} {f : α → Except ε β} {b : β} :
  x >>= f = .ok b ↔ ∃ a, x = .ok a ∧ f a = .ok b
  := by
  cases x with
  | error error => exact ⟨nofun, nofun⟩
  | ok a => exact ⟨fun h => ⟨a, rfl, h⟩, fun ⟨_, ha, h⟩ => Except.ok.inj ha ▸ h⟩

/-- Words are accepted if none is an unknown option. -/
theorem foldlM_add_eq_ok_iff (said : List Word) :
  args.foldlM Words.add (Words.of said) = .ok words ↔
    (∀ arg ∈ args, (Word.read arg).isSome) ∧ words = Words.of (said ++ args.filterMap Word.read)
  := by
  induction args generalizing said with
  | nil =>
    rw [List.foldlM_nil, List.filterMap_nil, List.append_nil]
    exact ⟨fun h => ⟨List.forall_mem_nil _, (Except.ok.inj h).symm⟩, fun h => by rw [h.2]; rfl⟩
  | cons arg args ih =>
    rw [List.foldlM_cons, bind_eq_ok_iff, Words.add_eq, List.forall_mem_cons]
    cases hread : Word.read arg with
    | none => simp
    | some word =>
      rw [List.filterMap_cons_some hread, ← List.singleton_append, ← List.append_assoc]
      simp [Words.say_of, ih]

/-! ### Kinds of words -/

/-- Whether a word is a path. -/
def isPath (arg : String) : Bool :=
  arg.toList.head? != some '-'

/-- Whether a word gives a prefix. -/
def givesAffix (arg : String) : Bool :=
  "--prefix=".toList.isPrefixOf arg.toList

/-- Whether a word gives a kind of input. -/
def givesInput (arg : String) : Bool :=
  arg == "--stdin" || "--stdin=".toList.isPrefixOf arg.toList

theorem isPrefixOf_of_after? {beginning rest : String} (h : after? beginning arg = some rest) :
  beginning.toList.isPrefixOf arg.toList = true
  := by
  rw [after?] at h
  split at h
  · assumption
  · cases h

/-- What a word says comes from how it begins or from the word as a whole. -/
inductive Word.Reads (arg : String) : Option Word → Prop where
  | affix {text : String} (h : after? "--prefix=" arg = some text) : Reads arg (some (.affix text))
  | attr {name : String} (h : after? "--attr=" arg = some name) : Reads arg (some (.attr name))
  | input {name : String} (h : after? "--stdin=" arg = some name) : Reads arg (some (.input name))
  | check (h : arg = "--check") : Reads arg (some .check)
  | diff (h : arg = "--diff") : Reads arg (some .diff)
  | stdin (h : arg = "--stdin") : Reads arg (some (.input defaultInput))
  | unknown (h : arg.toList.head? = some '-') : Reads arg none
  | path (h : arg.toList.head? ≠ some '-') : Reads arg (some (.path arg))

theorem Word.reads_read (arg : String) :
  Word.Reads arg (Word.read arg)
  := by
  rw [Word.read]
  cases haffix : after? "--prefix=" arg with
  | some text => exact .affix haffix
  | none =>
    cases hattr : after? "--attr=" arg with
    | some name => exact .attr hattr
    | none =>
      cases hinput : after? "--stdin=" arg with
      | some name => exact .input hinput
      | none =>
        dsimp only
        split_ifs with hcheck hdiff hstdin hunknown
        · exact .check hcheck
        · exact .diff hdiff
        · exact .stdin hstdin
        · exact .unknown hunknown
        · exact .path hunknown

theorem Word.reads_of_read {said : Option Word} (h : Word.read arg = said) :
  Word.Reads arg said
  := h ▸ Word.reads_read arg

theorem givesAffix_of_read {text : String} (h : Word.read arg = some (.affix text)) :
  givesAffix arg = true
  := by
  cases Word.reads_of_read h with
  | affix htext => exact isPrefixOf_of_after? htext

theorem givesInput_of_read {name : String} (h : Word.read arg = some (.input name)) :
  givesInput arg = true
  := by
  cases Word.reads_of_read h with
  | input hname => rw [givesInput, isPrefixOf_of_after? hname, Bool.or_true]
  | stdin hstdin => rw [givesInput, beq_iff_eq.mpr hstdin, Bool.true_or]

theorem isPath_of_read {name : String} (h : Word.read arg = some (.path name)) :
  isPath arg = true
  := by
  cases Word.reads_of_read h with
  | path hdash => exact bne_iff_ne.mpr hdash

/-- What words say of one kind is what the words of that kind say. -/
theorem filterMap_read_eq {part? : Word → Option String} {kind : String → Bool}
    (h : ∀ arg word, Word.read arg = some word → (part? word).isSome → kind arg = true)
    (args : List String) :
  (args.filterMap Word.read).filterMap part? =
    (args.filter kind).filterMap fun arg => (Word.read arg).bind part?
  := by
  rw [List.filterMap_filterMap, List.filterMap_filter]
  apply List.filterMap_congr
  intro arg _
  split
  · rfl
  · next hkind =>
    cases hread : Word.read arg with
    | none => rfl
    | some word => simpa using mt (h arg word hread) hkind

theorem filterMap_affix?_eq (args : List String) :
  (args.filterMap Word.read).filterMap Word.affix? =
    (args.filter givesAffix).filterMap fun arg => (Word.read arg).bind Word.affix?
  := by
  apply filterMap_read_eq
  intro arg word hread hsome
  cases word with
  | affix text => exact givesAffix_of_read hread
  | _ => simp [Word.affix?] at hsome

theorem filterMap_input?_eq (args : List String) :
  (args.filterMap Word.read).filterMap Word.input? =
    (args.filter givesInput).filterMap fun arg => (Word.read arg).bind Word.input?
  := by
  apply filterMap_read_eq
  intro arg word hread hsome
  cases word with
  | input name => exact givesInput_of_read hread
  | _ => simp [Word.input?] at hsome

theorem filterMap_path?_eq (args : List String) :
  (args.filterMap Word.read).filterMap Word.path? =
    (args.filter isPath).filterMap fun arg => (Word.read arg).bind Word.path?
  := by
  apply filterMap_read_eq
  intro arg word hread hsome
  cases word with
  | path name => exact isPath_of_read hread
  | _ => simp [Word.path?] at hsome

/-! ### What words ask for -/

/-- The words say the same, and name the same attributes in any order. -/
structure Words.Alike (words words' : Words) : Prop where
  affix : words.affix = words'.affix
  attributes : words.attributes.Perm words'.attributes
  check : words.check = words'.check
  diff : words.diff = words'.diff
  input : words.input = words'.input
  paths : words.paths = words'.paths

/-- The options are the same, and so are the sets of attributes. -/
structure Options.Alike (options options' : Options) : Prop where
  affix : options.settings.affix = options'.settings.affix
  attributes : ∀ name, name ∈ options.settings.attributes ↔ name ∈ options'.settings.attributes
  check : options.check = options'.check
  diff : options.diff = options'.diff
  input : options.input = options'.input
  paths : options.paths = options'.paths

/-- The prefix is accepted, there are attributes and all have names, so that sources can change; and
there is something to read, either files or an input, whose changes are neither counted nor
shown. -/
structure Options.Sound (options : Options) : Prop where
  affix : checkAffix options.settings.affix = .ok ()
  attributes : options.settings.attributes ≠ []
  named : "" ∉ options.settings.attributes
  effective : options.settings.isNoop = false
  input : options.input.isSome → options.paths = [] ∧ options.check = false ∧ options.diff = false
  paths : options.input = none → options.paths ≠ []

/-- Words give options if there is a prefix that is accepted, all attributes have names, and the
kind of input, if one is asked for, is known and nothing is in its way. -/
theorem Words.options_eq_ok_iff :
  words.options = .ok options ↔
    ∃ affix input, words.affix = some affix ∧ checkAffix affix = .ok () ∧
      "" ∉ words.attributes ∧ words.dialect? = .ok input ∧
      options = ⟨⟨affix, if words.attributes.isEmpty then defaultAttributes else words.attributes,
        Classifier.lexical⟩, words.check, words.diff, input,
        if input.isNone && words.paths.isEmpty then ["."] else words.paths⟩
  := by
  have hgiven (affix : String) :
      words.affix.elim (.error .missingAffix) .ok = (.ok affix : Except UsageError String) ↔
        words.affix = some affix := by
    cases words.affix with
    | none => exact ⟨nofun, nofun⟩
    | some given => rw [Option.elim_some, Except.ok.injEq, Option.some.injEq]
  have haccepted (affix : String) (u : Unit) :
      (checkAffix affix).mapError UsageError.badAffix = .ok u ↔ checkAffix affix = .ok () := by
    cases checkAffix affix with
    | error error => exact ⟨nofun, nofun⟩
    | ok _ => exact ⟨fun _ => rfl, fun _ => rfl⟩
  have hnamed (u : Unit) : words.checkAttributes = .ok u ↔ "" ∉ words.attributes := by
    rw [Words.checkAttributes]
    split_ifs with hempty
    · exact ⟨nofun, fun h => absurd hempty (by simpa [String.isEmpty_iff] using h)⟩
    · exact ⟨fun _ => by simpa [String.isEmpty_iff] using hempty, fun _ => rfl⟩
  simp only [Words.options, bind_eq_ok_iff, hgiven, haccepted, hnamed]
  constructor
  · rintro ⟨affix, haffix, -, hchecked, -, hattributes, input, hinput, hoptions⟩
    exact ⟨affix, input, haffix, hchecked, hattributes, hinput, (Except.ok.inj hoptions).symm⟩
  · rintro ⟨affix, input, haffix, hchecked, hattributes, hinput, rfl⟩
    exact ⟨affix, haffix, (), hchecked, (), hattributes, input, hinput, rfl⟩

theorem Words.dialect?_eq_ok_some {dialect : Dialect} (h : words.dialect? = .ok (some dialect)) :
  words.paths = [] ∧ words.check = false ∧ words.diff = false
  := by
  rw [Words.dialect?] at h
  split at h
  · cases h
  · dsimp only at h
    split at h
    · cases h
    · split at h
      · cases h
      · split at h
        · cases h
        · next hpaths hmode => simpa [not_or] using And.intro hpaths hmode

/-- Words that say the same ask for the same. -/
theorem Words.exists_options_of_alike (h : words.Alike words')
    (hoptions : words.options = .ok options) :
  ∃ options', words'.options = .ok options' ∧ options.Alike options'
  := by
  obtain ⟨affix, input, haffix, haccepted, hnamed, hinput, rfl⟩ :=
    Words.options_eq_ok_iff.mp hoptions
  have hdialect : words'.dialect? = words.dialect? := by
    simp only [Words.dialect?, h.input, h.paths, h.check, h.diff]
  refine ⟨_, Words.options_eq_ok_iff.mpr ⟨affix, input, h.affix ▸ haffix, haccepted,
    fun hmem => hnamed (h.attributes.mem_iff.mpr hmem), hdialect.trans hinput, rfl⟩, ?_⟩
  refine ⟨rfl, fun name => ?_, h.check, h.diff, rfl, by rw [h.paths]⟩
  have hempty : words.attributes.isEmpty = words'.attributes.isEmpty := by
    rw [Bool.eq_iff_iff, List.isEmpty_iff, List.isEmpty_iff, ← List.perm_nil, ← List.perm_nil]
    exact ⟨h.attributes.symm.trans, h.attributes.trans⟩
  simp only [hempty]
  split
  · rfl
  · exact h.attributes.mem_iff

theorem Words.sound_options (h : words.options = .ok options) :
  options.Sound
  := by
  obtain ⟨affix, input, haffix, haccepted, hnamed, hinput, rfl⟩ := Words.options_eq_ok_iff.mp h
  have hattributes : (if words.attributes.isEmpty then defaultAttributes else words.attributes) ≠
      [] := by
    split
    · decide
    · next hempty => simpa using hempty
  refine ⟨haccepted, hattributes, ?_, ?_, ?_, ?_⟩
  · dsimp only
    split
    · decide
    · exact hnamed
  · rw [Settings.isNoop, (of_checkAffix haccepted).1, Bool.false_or, ← Bool.not_eq_true,
      List.isEmpty_iff]
    exact hattributes
  · intro hsome
    obtain ⟨dialect, rfl⟩ := Option.isSome_iff_exists.mp hsome
    obtain ⟨hpaths, hcheck, hdiff⟩ := Words.dialect?_eq_ok_some hinput
    exact ⟨by simp [hpaths], hcheck, hdiff⟩
  · rintro rfl
    dsimp only
    split
    · decide
    · next hpaths => simpa using hpaths

/-! ### Orders of words -/

theorem parse_eq_ok_iff :
  Options.parse args = .ok options ↔
    (∀ arg ∈ args, (Word.read arg).isSome) ∧
      (Words.of (args.filterMap Word.read)).options = .ok options
  := by
  have hparse : Options.parse args = (args.foldlM Words.add (Words.of []) >>= Words.options) := rfl
  simp only [hparse, bind_eq_ok_iff, foldlM_add_eq_ok_iff, List.nil_append]
  constructor
  · rintro ⟨words, ⟨hread, rfl⟩, hoptions⟩
    exact ⟨hread, hoptions⟩
  · rintro ⟨hread, hoptions⟩
    exact ⟨_, ⟨hread, rfl⟩, hoptions⟩

section Perm

variable (hperm : args.Perm args') (hpaths : args.filter isPath = args'.filter isPath)
  (haffixes : args.filter givesAffix = args'.filter givesAffix)
  (hinputs : args.filter givesInput = args'.filter givesInput)
include hperm hpaths haffixes hinputs

theorem Words.alike_of_perm :
  (Words.of (args.filterMap Word.read)).Alike (Words.of (args'.filterMap Word.read))
  := by
  have hsaid := hperm.filterMap Word.read
  constructor
  · simp only [Words.of, filterMap_affix?_eq, haffixes]
  · exact hsaid.filterMap Word.attr?
  · exact hsaid.any_eq
  · exact hsaid.any_eq
  · simp only [Words.of, filterMap_input?_eq, hinputs]
  · simp only [Words.of, filterMap_path?_eq, hpaths]

theorem exists_parse_of_perm (h : Options.parse args = .ok options) :
  ∃ options', Options.parse args' = .ok options' ∧ options.Alike options'
  := by
  obtain ⟨hread, hoptions⟩ := parse_eq_ok_iff.mp h
  obtain ⟨options', hoptions', halike⟩ :=
    Words.exists_options_of_alike (Words.alike_of_perm hperm hpaths haffixes hinputs) hoptions
  exact ⟨options', parse_eq_ok_iff.mpr ⟨fun arg harg => hread arg (hperm.mem_iff.mpr harg),
    hoptions'⟩, halike⟩

/-- Words in another order, in which the paths, the prefixes and the kinds of input come in the
order they had, are accepted exactly if the words are, and then they ask for the same, which makes
sense. -/
theorem parse_perm :
  ((∃ options, Options.parse args = .ok options) ↔
      ∃ options, Options.parse args' = .ok options) ∧
    ∀ options, Options.parse args = .ok options → options.Sound ∧
      ∀ options', Options.parse args' = .ok options' → options.Alike options'
  := by
  refine ⟨⟨?_, ?_⟩, ?_⟩
  · rintro ⟨options, h⟩
    obtain ⟨options', h', -⟩ := exists_parse_of_perm hperm hpaths haffixes hinputs h
    exact ⟨options', h'⟩
  · rintro ⟨options, h⟩
    obtain ⟨options', h', -⟩ :=
      exists_parse_of_perm hperm.symm hpaths.symm haffixes.symm hinputs.symm h
    exact ⟨options', h'⟩
  · intro options h
    refine ⟨Words.sound_options (parse_eq_ok_iff.mp h).2, ?_⟩
    intro options' h'
    obtain ⟨_, h'', halike⟩ := exists_parse_of_perm hperm hpaths haffixes hinputs h
    obtain rfl := Except.ok.inj (h'.symm.trans h'')
    exact halike

end Perm

/-- Of two prefixes the last one counts in both orders, and both name the attributes `x` and `y`. -/
theorem parse_perm_shuffled :
  let args := ["--attr=x", "a.html", "--prefix=!", "--check", "--prefix=tw-", "--attr=y", "b"]
  let args' := ["--prefix=!", "--attr=y", "--prefix=tw-", "a.html", "b", "--attr=x", "--check"]
  args.Perm args' ∧ (Options.parse args).isOk ∧
    ((∃ options, Options.parse args = .ok options) ↔
      ∃ options, Options.parse args' = .ok options) ∧
    ∀ options, Options.parse args = .ok options → options.Sound ∧
      ∀ options', Options.parse args' = .ok options' → options.Alike options'
  := by
  intro args args'
  have hperm : args.Perm args' := by decide
  exact ⟨hperm, by decide, parse_perm hperm (by decide) (by decide) (by decide)⟩

end UtilityClasses.Command
