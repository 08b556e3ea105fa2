import Mathlib.Data.List.Pairwise
import UtilityClasses.Command.Run
import UtilityClasses.Proofs.Files.Sources
import UtilityClasses.Proofs.Files.Visits

/-!
# The order of the files

The sources below a directory can be dealt with in any order if their paths are texts: the tree in
the end, the count, and what becomes of each file are the same.
-/

namespace UtilityClasses.Command

variable {host : Host} {options : Options} {progress : Progress} {tree : FileTree}
  {location : List FileName} {content : ByteArray} {tasks order : List Task}

/-- If tasks lead to distinct files, two that lead to one file are the same. -/
theorem eq_of_location? (hdistinct : (tasks.filterMap (Task.location? host tree)).Nodup)
    {first second : Task} (hfirst : first ∈ tasks) (hsecond : second ∈ tasks)
    (hhere : first.location? host tree = some location)
    (hother : second.location? host tree = some location) :
  first = second
  := by
  let Same (first second : Task) : Prop := first.location? host tree = some location →
    second.location? host tree = some location → first = second
  have hsymm : Std.Symm Same := ⟨fun _ _ h hsecond hfirst => (h hfirst hsecond).symm⟩
  have hsame : tasks.Pairwise Same := by
    apply (List.pairwise_filterMap.mp hdistinct).imp
    exact fun hne hfirst hsecond => absurd rfl (hne location hfirst location hsecond)
  exact hsame.forall_of_forall (fun _ _ _ _ => rfl) hfirst hsecond hhere hother

/-- Files at different locations are revised in any order. -/
theorem foldl_revise_perm (hperm : order.Perm tasks)
    (hdistinct : (tasks.filterMap (Task.location? host tree)).Nodup) :
  order.foldl (fun content task => task.revise host options tree location content) content =
    tasks.foldl (fun content task => task.revise host options tree location content) content
  := by
  apply hperm.foldl_eq'
  intro first hfirst second hsecond content
  by_cases hhere : first.location? host tree = some location
  · by_cases hother : second.location? host tree = some location
    · rw [eq_of_location? hdistinct (hperm.mem_iff.mp hfirst) (hperm.mem_iff.mp hsecond) hhere
        hother]
    · rw [Task.revise_of_ne hother, Task.revise_of_ne hother]
  · rw [Task.revise_of_ne hhere, Task.revise_of_ne hhere]

theorem record_record (summary : Summary) (first second : FileResult) :
  (summary.record first).record second = (summary.record second).record first
  := by
  cases first <;> cases second <;> rfl

/-- Tasks at different locations can be dealt with in any order. -/
theorem foldl_process_perm (hwell : progress.tree.WellFormed) (hperm : order.Perm tasks)
    (htext : ∀ task ∈ tasks, task.IsText)
    (hdistinct : (tasks.filterMap (Task.location? host progress.tree)).Nodup) :
  (order.foldl (Task.process host options) progress).tree =
      (tasks.foldl (Task.process host options) progress).tree ∧
    (order.foldl (Task.process host options) progress).summary =
      (tasks.foldl (Task.process host options) progress).summary
  := by
  have htext' : ∀ task ∈ order, task.IsText := fun task h => htext task (hperm.mem_iff.mp h)
  have hdistinct' := (hperm.filterMap (Task.location? host progress.tree)).nodup_iff.mpr hdistinct
  constructor
  · simp only [foldl_process_tree hwell htext, foldl_process_tree hwell htext',
      foldl_revise_perm hperm hdistinct]
  · rw [foldl_process_summary hwell htext' (apart_of_nodup_filterMap hdistinct'),
      foldl_process_summary hwell htext (apart_of_nodup_filterMap hdistinct)]
    apply (hperm.map _).foldl_eq'
    exact fun first _ second _ summary => record_record summary first second

/-- The sources below a directory are dealt with in any order, if their paths are texts: the tree in
the end and the count are those of the run from first to last, and every file becomes what it would
become if it were dealt with alone. -/
theorem foldl_processFile_perm (hwell : progress.tree.WellFormed) {path : String}
    {entries : List (FileName × FileTree)}
    (hfind : progress.tree.find host.here path = .found location (.directory entries))
    (htext : ∀ file ∈ (FileTree.directory entries).sources path, file.IsText)
    {order : List Path} (horder : order.Perm ((FileTree.directory entries).sources path)) :
  (order.foldl (processFile host options) progress).tree =
      (processPath host options progress path).tree ∧
    (order.foldl (processFile host options) progress).summary =
      (processPath host options progress path).summary ∧
    ∀ earlier file later, order = earlier ++ file :: later →
      fileResult host options.settings (earlier.foldl (processFile host options) progress).tree
          file =
        fileResult host options.settings progress.tree file
  := by
  have hprocess (files : List Path) : files.foldl (processFile host options) progress =
      (files.map Task.visit).foldl (Task.process host options) progress := by
    rw [List.foldl_map]
    rfl
  have hpath : processPath host options progress path =
      ((FileTree.directory entries).sources path).foldl (processFile host options) progress := by
    rw [processPath, hfind]
  have hlocations (files : List Path) :
      (files.map Task.visit).filterMap (Task.location? host progress.tree) =
        files.filterMap (progress.tree.location? host.here) := by
    rw [List.filterMap_map]
    rfl
  have hsources := FileTree.nodup_location?_sources hwell fun _ => hfind
  have htasks : ∀ task ∈ ((FileTree.directory entries).sources path).map Task.visit,
      task.IsText := List.forall_mem_map.mpr htext
  rw [← hlocations] at hsources
  have hperm := horder.map Task.visit
  obtain ⟨htree, hsummary⟩ :=
    @foldl_process_perm host options progress _ _ hwell hperm htasks hsources
  rw [← hprocess, ← hprocess, ← hpath] at htree hsummary
  refine ⟨htree, hsummary, ?_⟩
  rintro earlier file later rfl
  have hall := (hperm.filterMap (Task.location? host progress.tree)).nodup_iff.mpr hsources
  have htasks' := fun task h => htasks task (hperm.mem_iff.mp h)
  rw [List.map_append, List.map_cons] at hall htasks'
  rw [hprocess]
  exact result_foldl_process hwell htasks' (apart_of_nodup_filterMap hall)

/-- Two sources that are dealt with from last to first, after a run that has failed on a file. -/
theorem foldl_processFile_perm_reverse :
  let options : Options := ⟨{ affix := "tw-" }, false, false, none, ["src"]⟩
  let progress : Progress := { tree := FileTree.sample, summary := { failed := 1 } }
  let order : List Path := [.ofText "src/b.jsx", .ofText "src/a.html"]
  let run := order.foldl (processFile (briefHost []) options) progress
  run.tree = (processPath (briefHost []) options progress "src").tree ∧
    run.summary = (processPath (briefHost []) options progress "src").summary ∧
    fileResult (briefHost []) options.settings
        (processFile (briefHost []) options progress (.ofText "src/b.jsx")).tree
        (.ofText "src/a.html") =
      fileResult (briefHost []) options.settings FileTree.sample (.ofText "src/a.html")
  := by
  intro options progress order run
  have hperm : order.Perm (FileTree.sampleDirectory.sources "src") := by
    rw [FileTree.sources_sample]
    exact .swap _ _ _
  have htext : ∀ file ∈ FileTree.sampleDirectory.sources "src", file.IsText := by
    rw [FileTree.sources_sample]
    simp [Path.isText_ofText]
  have hfind : progress.tree.find (briefHost []).here "src" =
      .found [Text.bytes "src"] FileTree.sampleDirectory := rfl
  obtain ⟨htree, hsummary, hresult⟩ :=
    @foldl_processFile_perm (briefHost []) options _ _ FileTree.sample_wellFormed _ _ hfind htext _
      hperm
  exact ⟨htree, hsummary, hresult [.ofText "src/b.jsx"] (.ofText "src/a.html") [] rfl⟩

/-- Of two files whose paths are shown alike the first is read for both. If the second is dealt with
first, it is written over with the first and both count as changed, and otherwise it is left
alone. -/
theorem foldl_processFile_not_perm :
  let options : Options := ⟨{ affix := "tw-" }, false, false, none, ["."]⟩
  let run (order : List Path) :=
    order.foldl (processFile (briefHost []) options) { tree := FileTree.sampleAlike }
  let first := Text.bytes "p\uFFFD.html"
  let second := Text.bytes "p" ++ 0xFF :: Text.bytes ".html"
  let sources := FileTree.sampleAlike.sources "."
  FileTree.sampleAlike.WellFormed ∧
    (run sources).summary = { changed := 1, unchanged := 1 } ∧
    (run sources.reverse).summary = { changed := 2 } ∧
    (run sources).tree.files =
      [([first], "<p class='tw-flex'>".toUTF8), ([second], "<p class='grid'>".toUTF8)] ∧
    (run sources.reverse).tree.files =
      [([first], "<p class='tw-flex'>".toUTF8), ([second], "<p class='tw-flex'>".toUTF8)]
  := by
  intro options run first second sources
  have hsources : sources = _ := FileTree.sources_sampleAlike
  rw [hsources]
  exact ⟨FileTree.sampleAlike_wellFormed, by decide +kernel, by decide +kernel, by decide +kernel,
    by decide +kernel⟩

end UtilityClasses.Command
