import UtilityClasses.Command.Run
import UtilityClasses.Proofs.Files.Sources
import UtilityClasses.Proofs.Files.Visits

/-!
# Checking and writing

A run that only checks leaves all files alone and foretells the run that writes, if the paths that
are visited are texts: which files are revised is known from the tree at the start, and if no file
is visited twice both runs count the same.
-/

namespace UtilityClasses.Command

variable {host : Host} {options : Options} {settings : Settings} {tree : FileTree}
  {location : List FileName} {path : Path} {content : ByteArray} {tasks : List Task}
  {args : List String}

/-! ### Counts -/

/-- The number of tasks that are counted. -/
def Summary.total (summary : Summary) : Nat :=
  summary.changed + summary.unchanged + summary.failed

theorem total_foldl_record (results : List FileResult) (summary : Summary) :
  (results.foldl Summary.record summary).total = summary.total + results.length
  := by
  induction results generalizing summary with
  | nil => rfl
  | cons result results ih =>
    rw [List.foldl_cons, ih, List.length_cons]
    cases result <;> simp only [Summary.record, Summary.total] <;> omega

theorem changed_foldl_record_pos (results : List FileResult) (summary : Summary) :
  0 < (results.foldl Summary.record summary).changed ↔
    0 < summary.changed ∨ ∃ source code, .changed source code ∈ results
  := by
  induction results generalizing summary with
  | nil => simp
  | cons result results ih =>
    rw [List.foldl_cons, ih]
    cases result <;> simp [Summary.record, exists_or]

theorem failed_foldl_record_pos (results : List FileResult) (summary : Summary) :
  0 < (results.foldl Summary.record summary).failed ↔
    0 < summary.failed ∨ ∃ message, .failed message ∈ results
  := by
  induction results generalizing summary with
  | nil => simp
  | cons result results ih =>
    rw [List.foldl_cons, ih]
    cases result <;> simp [Summary.record]

/-! ### What is visited -/

/-- The path of the file that is visited. -/
def Task.visit? : Task → Option Path
  | visit path => some path
  | missing _ => none

/-- The path that leads to no file and no directory. -/
def Task.missing? : Task → Option String
  | visit _ => none
  | missing path => some path

/-- The files that a run visits: those that the path arguments lead to, and the sources below the
directories that they lead to. -/
def visits (host : Host) (options : Options) (tree : FileTree) : List Path :=
  (runTasks host options tree).filterMap Task.visit?

/-- The path arguments that lead to no file and no directory. -/
def missingPaths (host : Host) (options : Options) (tree : FileTree) : List String :=
  (runTasks host options tree).filterMap Task.missing?

theorem length_visits_add_length_missingPaths (host : Host) (options : Options)
    (tree : FileTree) :
  (visits host options tree).length + (missingPaths host options tree).length =
    (runTasks host options tree).length
  := by
  rw [visits, missingPaths]
  induction runTasks host options tree with
  | nil => rfl
  | cons task tasks ih =>
    cases task <;> simp only [List.filterMap_cons, Task.visit?, Task.missing?, List.length_cons] <;>
      omega

theorem mem_visits :
  path ∈ visits host options tree ↔ .visit path ∈ runTasks host options tree
  := by
  rw [visits, List.mem_filterMap]
  constructor
  · rintro ⟨task, hmem, htask⟩
    cases task with
    | visit other => exact Option.some.inj htask ▸ hmem
    | missing other => cases htask
  · exact fun h => ⟨_, h, rfl⟩

theorem mem_missingPaths {path : String} :
  path ∈ missingPaths host options tree ↔ .missing path ∈ runTasks host options tree
  := by
  rw [missingPaths, List.mem_filterMap]
  constructor
  · rintro ⟨task, hmem, htask⟩
    cases task with
    | visit other => cases htask
    | missing other => exact Option.some.inj htask ▸ hmem
  · exact fun h => ⟨_, h, rfl⟩

/-- Tasks are read from where they are written to if the visited paths are texts. -/
theorem isText_of_mem_runTasks (htext : ∀ path ∈ visits host options tree, path.IsText) :
  ∀ task ∈ runTasks host options tree, task.IsText
  := by
  intro task htask
  cases task with
  | visit path => exact htext path (mem_visits.mpr htask)
  | missing path => trivial

/-- What is visited is there and no directory, if its path is short enough. -/
theorem find_of_mem_visits (hwell : tree.WellFormed) (h : path ∈ visits host options tree)
    (hfits : path.fits = true) :
  ∃ location leaf, tree.find host.here path = .found location leaf ∧ leaf.IsLeaf
  := by
  rw [mem_visits, runTasks, List.mem_flatMap] at h
  obtain ⟨argument, -, h⟩ := h
  rw [pathTasks] at h
  split at h
  · next location content hfind =>
    obtain rfl : path = argument := by simpa using h
    exact ⟨location, _, hfind, trivial⟩
  · next location entries hfind =>
    obtain ⟨later, leaf, hleaf⟩ :=
      FileTree.find_of_mem_sources hwell (fun _ => hfind) (by simpa using h) hfits
    exact ⟨location ++ later, leaf, hleaf⟩
  all_goals simp at h

theorem apart_of_nodup_visits
    (h : ((visits host options tree).filterMap (tree.location? host.here)).Nodup) :
  Apart host options tree (runTasks host options tree)
  := by
  apply apart_of_nodup_filterMap
  have hlocation : Task.location? host tree =
      fun task => task.visit?.bind (tree.location? host.here) := by
    funext task
    cases task <;> rfl
  rw [hlocation, ← List.filterMap_filterMap]
  exact h

/-! ### Options -/

theorem exists_add_of_foldlM {words result : Words} (h : args.foldlM Words.add words = .ok result)
    {arg : String} (hmem : arg ∈ args) :
  ∃ before after : Words, before.add arg = .ok after
  := by
  induction args generalizing words with
  | nil => simp at hmem
  | cons first args ih =>
    rw [List.foldlM_cons] at h
    cases hfirst : words.add first with
    | error error =>
      rw [hfirst] at h
      cases h
    | ok next =>
      rw [hfirst] at h
      rcases List.mem_cons.mp hmem with rfl | hmem
      · exact ⟨words, next, hfirst⟩
      · exact ih h hmem

/-- Words that ask for help give no options. -/
theorem asksHelp_of_parse (h : Options.parse args = .ok options) :
  asksHelp args = false
  := by
  have hrefused (words : Words) {arg : String} (harg : arg = "--help" ∨ arg = "-h") :
      words.add arg = .error (.unknownOption arg) := by
    obtain rfl | rfl := harg <;> rfl
  rw [asksHelp, List.any_eq_false]
  intro arg hmem hhelp
  cases hwords : args.foldlM Words.add {} with
  | error error =>
    rw [Options.parse, hwords] at h
    cases h
  | ok words =>
    obtain ⟨before, after, hadd⟩ := exists_add_of_foldlM hwords hmem
    rw [hrefused before (by simpa using hhelp)] at hadd
    cases hadd

/-! ### Runs that check and runs that write -/

/-- A file is revised as often as it is visited, and nothing else changes. -/
theorem foldl_revise_eq (hwrite : (options.check || options.diff) = false) (tasks : List Task) :
  tasks.foldl (fun content task => task.revise host options tree location content) content =
    ((tasks.filterMap Task.visit?).filter fun path =>
        tree.location? host.here path = some location).foldl
      (fun content path => revision options.settings path content) content
  := by
  induction tasks generalizing content with
  | nil => rfl
  | cons task tasks ih =>
    rw [List.foldl_cons, ih]
    cases task with
    | missing path => rfl
    | visit path =>
      have hvisits : (Task.visit path :: tasks).filterMap Task.visit? =
          path :: tasks.filterMap Task.visit? := rfl
      rw [hvisits, List.filter_cons]
      by_cases hlocation : tree.location? host.here path = some location
      · simp [Task.revise, hwrite, hlocation]
      · simp [Task.revise, hlocation]

theorem processPaths_tree (hwell : tree.WellFormed)
    (htext : ∀ path ∈ visits host options tree, path.IsText)
    (hwrite : (options.check || options.diff) = false) :
  (processPaths host options tree).tree = tree.mapFiles fun location content =>
    ((visits host options tree).filter fun path =>
        tree.location? host.here path = some location).foldl
      (fun content path => revision options.settings path content) content
  := by
  have htext := isText_of_mem_runTasks htext
  rw [processPaths_eq hwell htext, foldl_process_tree hwell htext]
  simp only [foldl_revise_eq hwrite, visits]

/-- A run that checks, or only shows changes, leaves the tree as it is. -/
theorem processPaths_tree_of_check (hcheck : (options.check || options.diff) = true) :
  (processPaths host options tree).tree = tree
  := by
  have hfiles (paths : List Path) (progress : Progress) :
      (paths.foldl (processFile host options) progress).tree = progress.tree := by
    induction paths generalizing progress with
    | nil => rfl
    | cons path paths ih => rw [List.foldl_cons, ih, processFile_tree_of_check hcheck]
  have hpath (progress : Progress) (path : String) :
      (processPath host options progress path).tree = progress.tree := by
    rw [processPath]
    split
    · exact processFile_tree_of_check hcheck progress path
    · exact hfiles _ progress
    all_goals rfl
  have hpaths (paths : List String) (progress : Progress) :
      (paths.foldl (processPath host options) progress).tree = progress.tree := by
    induction paths generalizing progress with
    | nil => rfl
    | cons path paths ih => rw [List.foldl_cons, ih, hpath]
  exact hpaths options.paths { tree }

/-- If no file is visited twice, what becomes of the tasks in the tree at the start is counted. -/
theorem processPaths_summary (hwell : tree.WellFormed)
    (htext : ∀ path ∈ visits host options tree, path.IsText)
    (hdistinct : ((visits host options tree).filterMap (tree.location? host.here)).Nodup) :
  (processPaths host options tree).summary =
    ((runTasks host options tree).map (Task.result host options.settings tree)).foldl
      Summary.record {}
  := by
  have htext := isText_of_mem_runTasks htext
  rw [processPaths_eq hwell htext]
  exact foldl_process_summary hwell htext (apart_of_nodup_visits hdistinct)

theorem mem_results_iff {result : FileResult} :
  result ∈ (runTasks host options tree).map (Task.result host settings tree) ↔
    (∃ path ∈ visits host options tree, fileResult host settings tree path = result) ∨
      ∃ path ∈ missingPaths host options tree, .failed ("Path not found: " ++ path ++ "\n") = result
  := by
  rw [List.mem_map]
  constructor
  · rintro ⟨task, hmem, htask⟩
    cases task with
    | visit path => exact .inl ⟨path, mem_visits.mpr hmem, htask⟩
    | missing path => exact .inr ⟨path, mem_missingPaths.mpr hmem, htask⟩
  · rintro (⟨path, hmem, hpath⟩ | ⟨path, hmem, hpath⟩)
    · exact ⟨.visit path, mem_visits.mp hmem, hpath⟩
    · exact ⟨.missing path, mem_missingPaths.mp hmem, hpath⟩

theorem exists_changed_iff :
  (∃ source code,
      .changed source code ∈ (runTasks host options tree).map (Task.result host settings tree)) ↔
    ∃ path ∈ visits host options tree,
      ∃ source code, fileResult host settings tree path = .changed source code
  := by
  simp only [mem_results_iff, reduceCtorEq, and_false, exists_false, or_false]
  constructor
  · rintro ⟨source, code, path, hmem, hpath⟩
    exact ⟨path, hmem, source, code, hpath⟩
  · rintro ⟨path, hmem, source, code, hpath⟩
    exact ⟨source, code, path, hmem, hpath⟩

theorem exists_failed_iff :
  (∃ message,
      .failed message ∈ (runTasks host options tree).map (Task.result host settings tree)) ↔
    missingPaths host options tree ≠ [] ∨
      ∃ path ∈ visits host options tree,
        ∃ message, fileResult host settings tree path = .failed message
  := by
  simp only [mem_results_iff]
  constructor
  · rintro ⟨message, ⟨path, hmem, hpath⟩ | ⟨path, hmem, -⟩⟩
    · exact .inr ⟨path, hmem, message, hpath⟩
    · exact .inl (List.ne_nil_of_mem hmem)
  · rintro (hne | ⟨path, hmem, message, hpath⟩)
    · obtain ⟨path, hmem⟩ := List.exists_mem_of_ne_nil _ hne
      exact ⟨_, .inr ⟨path, hmem, rfl⟩⟩
    · exact ⟨message, .inl ⟨path, hmem, hpath⟩⟩

/-- A run on files deals with all path arguments. -/
theorem runFiles_eq (input : ByteArray) (hparse : Options.parse args = .ok options)
    (hinput : options.input = none) :
  runFiles host args input tree = processTree host options tree
  := by
  rw [runFiles, asksHelp_of_parse hparse, hparse]
  simp only [Bool.false_eq_true, if_false, hinput]

theorem exit_processTree :
  (processTree host options tree).2.exit = 1 ↔
    0 < (processPaths host options tree).summary.failed ∨
      options.check = true ∧ 0 < (processPaths host options tree).summary.changed
  := by
  simp only [processTree]
  split
  · next h => simpa using h
  · next h => simpa using h

/-- What is visited is there and no directory. A run that checks, or only shows changes, leaves the
tree as it is. If the paths that are visited are texts, a run that writes revises every file as
often as it visits it, from the content that the file has by then, and changes nothing else. If no
file is visited twice then, a run that checks counts the same as one that does not, every visit and
every path that leads to no file and no directory is counted once, and the exit code says whether
anything fails, or is found by a check to change. -/
theorem runFiles_foretold (input : ByteArray) (hwell : tree.WellFormed)
    (hparse : Options.parse args = .ok options) (hinput : options.input = none) :
  (runFiles host args input tree).1 = (processPaths host options tree).tree ∧
    (∀ path ∈ visits host options tree, path.fits = true →
      ∃ location leaf, tree.find host.here path = .found location leaf ∧ leaf.IsLeaf) ∧
    (options.check = true ∨ options.diff = true → (processPaths host options tree).tree = tree) ∧
    ((∀ path ∈ visits host options tree, path.IsText) →
      (options.check = false → options.diff = false →
        (processPaths host options tree).tree = tree.mapFiles fun location content =>
          ((visits host options tree).filter fun path =>
              tree.location? host.here path = some location).foldl
            (fun content path => revision options.settings path content) content) ∧
      (((visits host options tree).filterMap (tree.location? host.here)).Nodup →
        (processPaths host { options with check := true } tree).summary =
            (processPaths host { options with check := false } tree).summary ∧
          (processPaths host options tree).summary.total =
            (visits host options tree).length + (missingPaths host options tree).length ∧
          ((runFiles host args input tree).2.exit = 1 ↔
            (missingPaths host options tree ≠ [] ∨ ∃ path ∈ visits host options tree,
              ∃ message, fileResult host options.settings tree path = .failed message) ∨
            options.check = true ∧ ∃ path ∈ visits host options tree,
              ∃ source code, fileResult host options.settings tree path = .changed source code)))
  := by
  have hrun : runFiles host args input tree = _ := runFiles_eq input hparse hinput
  refine ⟨by rw [hrun, processTree], fun path => find_of_mem_visits hwell, ?_, ?_⟩
  · intro hmode
    exact processPaths_tree_of_check (by simpa using hmode)
  · intro htext
    constructor
    · intro hcheck hdiff
      exact processPaths_tree hwell htext (by simp [hcheck, hdiff])
    · intro hdistinct
      have hsummary := processPaths_summary hwell htext hdistinct
      refine ⟨?_, ?_, ?_⟩
      · have hother (check : Bool) :
            (processPaths host { options with check } tree).summary =
              ((runTasks host options tree).map (Task.result host options.settings tree)).foldl
                Summary.record {} :=
          processPaths_summary hwell htext hdistinct
        rw [hother, hother]
      · rw [hsummary, total_foldl_record, List.length_map, length_visits_add_length_missingPaths]
        exact Nat.zero_add _
      · rw [hrun, exit_processTree, hsummary, failed_foldl_record_pos, changed_foldl_record_pos,
          exists_failed_iff, exists_changed_iff]
        simp

/-- A check of a directory, and of a path that leads nowhere. -/
def sampleOptions : Options :=
  ⟨⟨"tw-", defaultAttributes, Classifier.lexical⟩, true, false, none, ["src", "gone.html"]⟩

theorem runTasks_sample :
  runTasks (briefHost []) sampleOptions FileTree.sample =
    [.visit (.ofText "src/a.html"), .visit (.ofText "src/b.jsx"), .missing "gone.html"]
  := by
  have htasks : runTasks (briefHost []) sampleOptions FileTree.sample =
      (FileTree.sampleDirectory.sources "src").map .visit ++ [.missing "gone.html"] := rfl
  rw [htasks, FileTree.sources_sample]
  rfl

/-- The check fails and leaves both sources alone, and it counts what a run that writes counts. -/
theorem runFiles_foretold_broken :
  let run := runFiles (briefHost []) ["src", "gone.html", "--prefix=tw-", "--check"] .empty
    FileTree.sample
  run.1 = FileTree.sample ∧ run.2.exit = 1 ∧
    (processPaths (briefHost []) { sampleOptions with check := false } FileTree.sample).summary.total
      = 3
  := by
  have hparse : Options.parse ["src", "gone.html", "--prefix=tw-", "--check"] =
    .ok sampleOptions := rfl
  obtain ⟨htree, -, hcheck, htext⟩ :=
    @runFiles_foretold (briefHost []) _ _ _ .empty FileTree.sample_wellFormed hparse rfl
  have hvisits : visits (briefHost []) sampleOptions FileTree.sample =
      [.ofText "src/a.html", .ofText "src/b.jsx"] := by
    rw [visits, runTasks_sample]
    rfl
  have hmissing : missingPaths (briefHost []) sampleOptions FileTree.sample = ["gone.html"] := by
    rw [missingPaths, runTasks_sample]
    rfl
  rw [hvisits] at htext
  obtain ⟨-, hdistinct⟩ := htext (by simp [Path.isText_ofText])
  obtain ⟨hsame, htotal, hexit⟩ := hdistinct (by decide +kernel)
  refine ⟨htree.trans (hcheck (.inl rfl)), hexit.mpr (.inl (.inl (by simp [hmissing]))), ?_⟩
  rw [← hsame]
  rw [hmissing] at htotal
  exact htotal

theorem processPaths_sampleAlike (check : Bool) :
  processPaths (briefHost []) { sampleOptions with check, paths := ["."] } FileTree.sampleAlike =
    [.ofText "./p\uFFFD.html", ⟨Text.bytes "./p" ++ 0xFF :: Text.bytes ".html"⟩].foldl
      (processFile (briefHost []) { sampleOptions with check, paths := ["."] })
      { tree := FileTree.sampleAlike }
  := by
  have hpath : processPaths (briefHost []) { sampleOptions with check, paths := ["."] }
      FileTree.sampleAlike = (FileTree.sampleAlike.sources ".").foldl
        (processFile (briefHost []) { sampleOptions with check, paths := ["."] })
        { tree := FileTree.sampleAlike } := rfl
  rw [hpath, FileTree.sources_sampleAlike]

/-- Of two files whose paths are shown alike the first is read for both. So the run that writes
leaves the second alone, in which a class list is to be revised, and does not count what the check
counts, although no file is visited twice. -/
theorem processPaths_not_foretold :
  let options (check : Bool) : Options := { sampleOptions with check, paths := ["."] }
  let second : Path := ⟨Text.bytes "./p" ++ 0xFF :: Text.bytes ".html"⟩
  let visited (check : Bool) := processPaths (briefHost []) (options check) FileTree.sampleAlike
  FileTree.sampleAlike.WellFormed ∧
    ((visits (briefHost []) (options false) FileTree.sampleAlike).filterMap
      (FileTree.sampleAlike.location? [])).Nodup ∧
    (visited true).summary = { changed := 2 } ∧
    (visited false).summary = { changed := 1, unchanged := 1 } ∧
    (visited false).tree.files =
      [([Text.bytes "p\uFFFD.html"], "<p class='tw-flex'>".toUTF8),
        ([Text.bytes "p" ++ 0xFF :: Text.bytes ".html"], "<p class='grid'>".toUTF8)] ∧
    revision sampleOptions.settings second "<p class='grid'>".toUTF8 =
      "<p class='tw-grid'>".toUTF8
  := by
  intro options second visited
  have hvisits : visits (briefHost []) (options false) FileTree.sampleAlike =
      [.ofText "./p\uFFFD.html", second] := by
    have htasks : visits (briefHost []) (options false) FileTree.sampleAlike =
        (((FileTree.sampleAlike.sources ".").map Task.visit) ++ []).filterMap Task.visit? := rfl
    rw [htasks, FileTree.sources_sampleAlike]
    rfl
  rw [hvisits]
  simp only [visited, options, processPaths_sampleAlike]
  exact ⟨FileTree.sampleAlike_wellFormed, by decide +kernel, by decide +kernel, by decide +kernel,
    by decide +kernel, by decide +kernel⟩

end UtilityClasses.Command
