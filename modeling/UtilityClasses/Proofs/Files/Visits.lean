import UtilityClasses.Command.Files
import UtilityClasses.Proofs.Files.Contents
import UtilityClasses.Proofs.Text.Decoding

/-!
# Visits

A run visits files one after the other. A file is read where its path leads as it is shown, and
written where the path itself leads, which is the same file if the path is a text. Then what a visit
does is known from the content of the file alone, so a run is known from the tree at its start:
every file ends up with what the visits to it have made of its content, and if no file is visited
twice the count is that of a run which writes nothing.
-/

namespace UtilityClasses.Command

variable {host : Host} {options : Options} {settings : Settings} {progress : Progress}
  {tree : FileTree} {location : List FileName} {path : Path} {content : ByteArray}
  {f : List FileName → ByteArray → ByteArray}

/-! ### Files by their content -/

/-- The content of a file after a visit that writes: the text in which the class lists are
prefixed, if the file can be read and that changes it. -/
def revision (settings : Settings) (path : Path) (content : ByteArray) : ByteArray :=
  match Dialect.ofPath? path, String.fromUTF8? content with
  | some dialect, some source =>
    match Outcome.ofSource settings dialect source with
    | .changed result => result.code.toUTF8
    | _ => content
  | _, _ => content

/-- A file that is written gets its new content. -/
theorem revision_of_fileResult (htext : path.IsText)
    (h : tree.find host.here path = .found location (.file content)) :
  revision settings path content =
    match fileResult host settings tree path with
    | .changed _ code => code.toUTF8
    | _ => content
  := by
  rw [← htext.ofText_display] at h
  simp only [revision, fileResult, readFile, h]
  cases Dialect.ofPath? path with
  | none => rfl
  | some dialect =>
    cases String.fromUTF8? content with
    | none => rfl
    | some source =>
      simp only [sourceResult]
      cases Outcome.ofSource settings dialect source <;> rfl

/-- The tree after a visit that writes. -/
def visited (host : Host) (settings : Settings) (tree : FileTree) (path : Path) : FileTree :=
  match fileResult host settings tree path with
  | .changed _ code => writeFile host tree path code
  | _ => tree

/-- A visit that writes revises the file that the path leads to, and changes nothing else. -/
theorem visited_eq_mapFiles (hwell : tree.WellFormed) (htext : path.IsText) :
  visited host settings tree path = tree.mapFiles fun location content =>
    if tree.location? host.here path = some location then revision settings path content
    else content
  := by
  cases hlocation : tree.location? host.here path with
  | none =>
    have hwrite (code : String) : writeFile host tree path code = tree := by
      rw [writeFile]
      split
      · next hfind => simp [FileTree.location?, hfind] at hlocation
      · rfl
    simp only [reduceCtorEq, if_false, FileTree.mapFiles_id, visited, hwrite]
    split <;> rfl
  | some location =>
    obtain ⟨content, hfind⟩ := FileTree.location?_eq_some_iff.mp hlocation
    have hget := FileTree.get?_of_find hfind
    have hinsert (new : ByteArray) := FileTree.insert_eq_mapFiles new hwell hget
    have hvisited : visited host settings tree path =
        tree.insert location (.file (revision settings path content)) := by
      rw [visited, revision_of_fileResult htext hfind]
      split
      · simp only [writeFile, hfind]
      · rw [hinsert]
        apply tree.mapFiles_id.symm.trans (FileTree.mapFiles_congr hwell _)
        intro other old hother
        split
        · next heq => simpa [heq, hget, eq_comm] using hother
        · rfl
    rw [hvisited, hinsert]
    apply FileTree.mapFiles_congr hwell
    intro other old hother
    by_cases heq : other = location
    · obtain rfl : content = old := by simpa [heq, hget] using hother
      simp [heq]
    · simp [heq, Ne.symm heq]

theorem processFile_tree_of_check (hcheck : (options.check || options.diff) = true)
    (progress : Progress) (path : Path) :
  (processFile host options progress path).tree = progress.tree
  := by
  rw [processFile]
  cases fileResult host options.settings progress.tree path with
  | unchanged | failed message => rfl
  | changed source code => simp only [hcheck, if_true]

/-! ### Tasks -/

/-- What a run deals with at a time: a file, or a path argument that leads to no file and no
directory. -/
inductive Task where
  | visit (path : Path)
  | missing (path : String)

variable {task : Task} {tasks : List Task}

/-- What there is to do for a path argument. -/
def pathTasks (host : Host) (tree : FileTree) (path : String) : List Task :=
  match tree.find host.here path with
  | .found _ (.file _) => [.visit path]
  | .found _ (.directory entries) => ((FileTree.directory entries).sources path).map .visit
  | .found _ (.special _) | .missing | .notDirectory | .tooLong => [.missing path]

namespace Task

/-- Deals with a file, or reports a path argument that leads to none. -/
def process (host : Host) (options : Options) (progress : Progress) : Task → Progress
  | visit path => processFile host options progress path
  | missing path =>
    { progress with
      errors := progress.errors ++ "Path not found: " ++ path ++ "\n"
      summary.failed := progress.summary.failed + 1 }

/-- A task whose file is read from where it is written to. -/
def IsText : Task → Prop
  | visit path => path.IsText
  | missing _ => True

/-- The location of the file that is visited. -/
def location? (host : Host) (tree : FileTree) : Task → Option (List FileName)
  | visit path => tree.location? host.here path
  | missing _ => none

/-- What becomes of a task in a tree. -/
def result (host : Host) (settings : Settings) (tree : FileTree) : Task → FileResult
  | visit path => fileResult host settings tree path
  | missing path => .failed ("Path not found: " ++ path ++ "\n")

/-- The content of the file at a location after a task. Only a visit to that file revises it, and
only if the run is to write. -/
def revise (host : Host) (options : Options) (tree : FileTree) (location : List FileName)
    (content : ByteArray) : Task → ByteArray
  | visit path =>
    if (options.check || options.diff) = false ∧ tree.location? host.here path = some location then
      revision options.settings path content
    else content
  | missing _ => content

@[simp]
theorem location?_mapFiles (task : Task) :
  task.location? host (tree.mapFiles f) = task.location? host tree
  := by
  cases task <;> simp [location?]

@[simp]
theorem revise_mapFiles (task : Task) :
  task.revise host options (tree.mapFiles f) location content =
    task.revise host options tree location content
  := by
  cases task <;> simp [revise]

theorem revise_of_check (hcheck : (options.check || options.diff) = true) (task : Task) :
  task.revise host options tree location content = content
  := by
  cases task <;> simp [revise, hcheck]

theorem revise_of_ne (h : task.location? host tree ≠ some location) :
  task.revise host options tree location content = content
  := by
  cases task with
  | visit path => exact if_neg fun hvisit => h hvisit.2
  | missing path => rfl

/-- A task revises files and does nothing else to the tree. -/
theorem process_tree (hwell : progress.tree.WellFormed) (htext : task.IsText) :
  (task.process host options progress).tree =
    progress.tree.mapFiles fun location content =>
      task.revise host options progress.tree location content
  := by
  cases task with
  | missing path => exact (FileTree.mapFiles_id _).symm
  | visit path =>
    cases hmode : options.check || options.diff with
    | true =>
      simp only [revise_of_check hmode, FileTree.mapFiles_id]
      exact processFile_tree_of_check hmode progress path
    | false =>
      simp only [revise, hmode, true_and, ← visited_eq_mapFiles hwell htext]
      rw [process, processFile, visited]
      cases fileResult host options.settings progress.tree path with
      | unchanged | failed message => rfl
      | changed source code => simp only [hmode, Bool.false_eq_true, if_false]

end Task

/-- The count after a task of which this has become. -/
def Summary.record (summary : Summary) : FileResult → Summary
  | .changed _ _ => { summary with changed := summary.changed + 1 }
  | .unchanged => { summary with unchanged := summary.unchanged + 1 }
  | .failed _ => { summary with failed := summary.failed + 1 }

/-- Every task is counted by what has become of it. -/
theorem Task.process_summary (task : Task) :
  (task.process host options progress).summary =
    progress.summary.record (task.result host options.settings progress.tree)
  := by
  cases task with
  | missing path => rfl
  | visit path =>
    rw [process, processFile, result]
    cases fileResult host options.settings progress.tree path with
    | unchanged | failed message => rfl
    | changed source code => simp only [Summary.record, apply_ite Progress.summary, ite_self]

/-! ### Runs -/

/-- A run revises files and does nothing else to the tree. -/
theorem foldl_process_tree (hwell : progress.tree.WellFormed)
    (htext : ∀ task ∈ tasks, task.IsText) :
  (tasks.foldl (Task.process host options) progress).tree =
    progress.tree.mapFiles fun location content =>
      tasks.foldl
        (fun content task => task.revise host options progress.tree location content) content
  := by
  induction tasks generalizing progress with
  | nil => exact (FileTree.mapFiles_id _).symm
  | cons task tasks ih =>
    obtain ⟨hfirst, hlater⟩ := List.forall_mem_cons.mp htext
    have htree : (task.process host options progress).tree = _ := Task.process_tree hwell hfirst
    rw [List.foldl_cons, ih (htree ▸ hwell.mapFiles) hlater, htree, FileTree.mapFiles_mapFiles]
    simp only [Task.revise_mapFiles, List.foldl_cons]

theorem foldl_revise_eq_self
    (h : ∀ task ∈ tasks, ∀ content, task.revise host options tree location content = content)
    (content : ByteArray) :
  tasks.foldl (fun content task => task.revise host options tree location content) content = content
  := by
  induction tasks with
  | nil => rfl
  | cons task tasks ih =>
    rw [List.forall_mem_cons] at h
    rw [List.foldl_cons, h.1, ih h.2]

/-- What is read at a path is the content of the file there. -/
theorem readFile_mapFiles {path : String}
    (h : ∀ location content, tree.location? host.here path = some location →
      f location content = content) :
  readFile host (tree.mapFiles f) path = readFile host tree path
  := by
  rw [readFile, readFile, FileTree.find_mapFiles]
  cases hfind : tree.find host.here path with
  | missing | notDirectory | tooLong => rfl
  | found location inner =>
    cases inner with
    | special reading => rfl
    | directory entries =>
      rw [Lookup.mapFiles, FileTree.mapFiles_directory]
    | file content =>
      rw [Lookup.mapFiles, FileTree.mapFiles, List.append_nil,
        h location content (FileTree.location?_eq_some_iff.mpr ⟨content, hfind⟩)]

/-- What becomes of a task depends on the content of its own file only. -/
theorem Task.result_mapFiles (htext : task.IsText)
    (h : ∀ location content, task.location? host tree = some location →
      f location content = content) :
  task.result host settings (tree.mapFiles f) = task.result host settings tree
  := by
  cases task with
  | missing path => rfl
  | visit path =>
    rw [location?, ← Path.IsText.ofText_display htext] at h
    rw [result, result, fileResult, fileResult, readFile_mapFiles h]

/-- No task revises the file of a later one. -/
def Apart (host : Host) (options : Options) (tree : FileTree) (tasks : List Task) : Prop :=
  tasks.Pairwise fun earlier later =>
    ∀ location content, later.location? host tree = some location →
      earlier.revise host options tree location content = content

/-- Tasks that lead to distinct files are apart. -/
theorem apart_of_nodup_filterMap (h : (tasks.filterMap (Task.location? host tree)).Nodup) :
  Apart host options tree tasks
  := by
  apply (List.pairwise_filterMap.mp h).imp
  intro earlier later hne location content hlater
  exact Task.revise_of_ne fun hearlier => hne location hearlier location hlater rfl

/-- A run in which no task revises the file of a later one counts what becomes of the tasks in the
tree at its start. -/
theorem foldl_process_summary (hwell : progress.tree.WellFormed)
    (htext : ∀ task ∈ tasks, task.IsText)
    (hapart : Apart host options progress.tree tasks) :
  (tasks.foldl (Task.process host options) progress).summary =
    (tasks.map (Task.result host options.settings progress.tree)).foldl Summary.record
      progress.summary
  := by
  induction tasks generalizing progress with
  | nil => rfl
  | cons task tasks ih =>
    obtain ⟨hfirst, hlater⟩ := List.pairwise_cons.mp hapart
    obtain ⟨htext, htexts⟩ := List.forall_mem_cons.mp htext
    have htree : (task.process host options progress).tree = _ := Task.process_tree hwell htext
    have hapart' : Apart host options (task.process host options progress).tree tasks := by
      simpa only [htree, Apart, Task.location?_mapFiles, Task.revise_mapFiles] using hlater
    rw [List.foldl_cons, ih (htree ▸ hwell.mapFiles) htexts hapart', task.process_summary,
      List.map_cons, List.foldl_cons]
    congr 1
    apply List.map_congr_left
    intro later hmem
    rw [htree]
    exact Task.result_mapFiles (htexts later hmem) (hfirst later hmem)

/-- What becomes of a task is not changed by the tasks before it. -/
theorem result_foldl_process (hwell : progress.tree.WellFormed) {earlier later : List Task}
    (htext : ∀ other ∈ earlier ++ task :: later, other.IsText)
    (hapart : Apart host options progress.tree (earlier ++ task :: later)) :
  task.result host settings (earlier.foldl (Task.process host options) progress).tree =
    task.result host settings progress.tree
  := by
  rw [List.forall_mem_append, List.forall_mem_cons] at htext
  rw [foldl_process_tree hwell htext.1]
  apply Task.result_mapFiles htext.2.1
  intro location content hlocation
  apply foldl_revise_eq_self
  intro other hother content
  exact (List.pairwise_append.mp hapart).2.2 other hother task List.mem_cons_self location content
    hlocation

/-! ### Path arguments -/

theorem pathTasks_mapFiles (tree : FileTree) (path : String) :
  pathTasks host (tree.mapFiles f) path = pathTasks host tree path
  := by
  rw [pathTasks, pathTasks, FileTree.find_mapFiles]
  cases tree.find host.here path with
  | missing | notDirectory | tooLong => rfl
  | found location inner =>
    cases inner with
    | file content | special reading => rfl
    | directory entries =>
      rw [Lookup.mapFiles, FileTree.mapFiles_directory]
      simp only
      rw [← FileTree.mapFiles_directory, FileTree.sources_mapFiles]

theorem processPath_eq (host : Host) (options : Options) (progress : Progress) (path : String) :
  processPath host options progress path =
    (pathTasks host progress.tree path).foldl (Task.process host options) progress
  := by
  rw [processPath, pathTasks]
  cases progress.tree.find host.here path with
  | missing | notDirectory | tooLong => rfl
  | found location tree =>
    cases tree with
    | file content | special reading => rfl
    | directory entries =>
      simp only [List.foldl_map]
      rfl

/-- What there is to do for all path arguments. -/
def runTasks (host : Host) (options : Options) (tree : FileTree) : List Task :=
  options.paths.flatMap (pathTasks host tree)

/-- What there is to do is known at the start of a run. -/
theorem processPaths_eq (hwell : tree.WellFormed)
    (htext : ∀ task ∈ runTasks host options tree, task.IsText) :
  processPaths host options tree =
    (runTasks host options tree).foldl (Task.process host options) { tree }
  := by
  have hpaths (progress : Progress) (hwell : progress.tree.WellFormed) (paths : List String)
      (htext : ∀ task ∈ paths.flatMap (pathTasks host progress.tree), task.IsText) :
      paths.foldl (processPath host options) progress =
        (paths.flatMap (pathTasks host progress.tree)).foldl (Task.process host options)
          progress := by
    induction paths generalizing progress with
    | nil => rfl
    | cons path paths ih =>
      rw [List.flatMap_cons, List.forall_mem_append] at htext
      have hpath := processPath_eq host options progress path
      have htree := (congrArg Progress.tree hpath).trans (foldl_process_tree hwell htext.1)
      have htasks : pathTasks host (processPath host options progress path).tree =
          pathTasks host progress.tree := by
        funext path
        rw [htree, pathTasks_mapFiles]
      rw [List.foldl_cons, ih _ (htree ▸ hwell.mapFiles) (htasks ▸ htext.2), htasks, hpath,
        List.flatMap_cons, List.foldl_append]
  exact hpaths { tree } hwell options.paths htext

end UtilityClasses.Command
