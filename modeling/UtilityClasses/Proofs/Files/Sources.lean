import Mathlib.Data.List.Flatten
import UtilityClasses.Proofs.Files.Contents

/-!
# Sources below a directory

The paths of the sources below a directory lead to files, each to another one.
-/

namespace UtilityClasses

variable {root tree : FileTree} {here location : List FileName} {path : Path} {name : FileName}
  {entries : List (FileName × FileTree)}

/-! ### Paths of entries -/

theorem Path.splitOnP_append_separator (before : List UInt8) (hname : IsName name) :
  (before ++ separator :: name).splitOnP (· == separator) =
    before.splitOnP (· == separator) ++ [name]
  := by
  have hlast : name.splitOnP (· == separator) = [name] := by
    apply List.splitOnP_eq_singleton
    intro byte hbyte
    simpa using fun heq : byte = separator => hname.separator_notMem (heq ▸ hbyte)
  rw [List.splitOnP_append_cons before _ (by simp), hlast]

/-- The path of an entry has the components of the path of the directory, apart from an empty one
at the end, and then the name. -/
theorem Path.components_entry (hname : IsName name) (hne : path.bytes ≠ []) :
  ∃ components later, path.components = components ++ later ∧ (later = [] ∨ later = [[]]) ∧
    (path.entry name).components = components ++ [name]
  := by
  obtain ⟨before, last, hpath⟩ := (List.eq_nil_or_concat path.bytes).resolve_left hne
  rw [List.concat_eq_append] at hpath
  have hgetLast : path.bytes.getLast? = some last := by
    rw [hpath, List.getLast?_concat]
  rw [entry, hgetLast]
  dsimp only
  split
  · next hslash =>
    refine ⟨before.splitOnP (· == separator), [[]], ?_, .inr rfl, ?_⟩
    · rw [components, hpath, List.splitOnP_append_cons before [] (by simpa using hslash)]
      simp
    · rw [components, hpath, hslash, List.append_assoc]
      exact splitOnP_append_separator before hname
  · exact ⟨path.components, [], by simp, .inl rfl, splitOnP_append_separator path.bytes hname⟩

theorem Path.head?_entry (name : FileName) (hne : path.bytes ≠ []) :
  (path.entry name).bytes.head? = path.bytes.head?
  := by
  obtain ⟨first, later, hpath⟩ := List.exists_cons_of_ne_nil hne
  rw [entry]
  split
  · next hlast => simp [hpath] at hlast
  · split <;> simp [hpath]

theorem Path.entry_ne_nil (hne : path.bytes ≠ []) (name : FileName) :
  (path.entry name).bytes ≠ []
  := by
  intro hnil
  have hhead := head?_entry name hne
  rw [hnil, List.head?_nil, eq_comm, List.head?_eq_none_iff] at hhead
  exact hne hhead

theorem Path.fits_of_fits_entry (hfits : (path.entry name).fits = true) :
  path.fits = true
  := by
  rw [fits, decide_eq_true_eq] at hfits ⊢
  apply Nat.le_trans _ hfits
  rw [entry]
  split
  · next hnil => simp [List.getLast?_eq_none_iff.mp hnil]
  · split <;> simp

namespace FileTree

theorem WellFormed.of_get? (h : root.WellFormed) (hget : root.get? location = some tree) :
  tree.WellFormed
  := by
  induction location generalizing root with
  | nil =>
    obtain rfl : root = tree := by simpa [get?] using hget
    exact h
  | cons name location ih =>
    cases h with
    | file content | special reading => simp [get?] at hget
    | directory distinct names inner =>
      rw [get?] at hget
      obtain ⟨entry, hlookup, hget⟩ := Option.bind_eq_some_iff.mp hget
      exact ih (inner _ (mem_of_lookup hlookup)) hget

/-- A path that leads somewhere is neither empty nor too long, and its components lead there. -/
theorem find_eq_found_iff :
  root.find here path = .found location tree ↔
    path.bytes ≠ [] ∧ path.fits = true ∧
      root.follow (if path.isAbsolute then [] else here) path.components = .found location tree
  := by
  rw [find]
  by_cases hne : path.bytes = []
  · simp [hne]
  · cases hfits : path.fits <;> simp [hne]

/-- The components of a path that leads to a directory lead on to what an entry with a name of its
own leads to. -/
theorem follow_cons_of_directory {later : List FileName}
    (hget : root.get? location = some (directory entries)) (hhere : Path.isHere name = false)
    (habove : Path.isAbove name = false) (hlength : name.length ≤ Path.maxNameLength) :
  root.follow location (name :: later) = root.follow (location ++ [name]) later
  := by
  simp only [follow_cons, hget, turn?, hhere, habove, Bool.false_eq_true, if_false,
    if_neg (Nat.not_lt.mpr hlength)]

/-- An empty component at the end of a path stands for the directory in front of it. -/
theorem follow_here {found later : List FileName} (hlater : later = [] ∨ later = [[]])
    (h : root.follow location later = .found found tree) :
  found = location
  := by
  have hnil (h : root.follow location [] = .found found tree) : found = location := by
    rw [follow] at h
    split at h
    · exact (Lookup.found.inj h).1.symm
    · cases h
  obtain rfl | rfl := hlater
  · exact hnil h
  · rw [follow] at h
    split at h
    · cases h
    · exact hnil h
    · cases h

/-- What stands for a directory is a text that starts with a dot. -/
theorem of_isSkipped (h : isSkipped name = false) :
  name ≠ [Path.dot] ∧ Path.isAbove name = false
  := by
  constructor
  · rintro rfl
    exact absurd h (by decide +kernel)
  · rw [Path.isAbove, beq_eq_false_iff_ne]
    rintro rfl
    exact absurd h (by decide +kernel)

/-- The path of an entry that is not passed over leads to the entry if it is short enough. -/
theorem find_entry (hroot : root.WellFormed)
    (h : root.find here path = .found location (directory entries))
    (hentry : (name, tree) ∈ entries) (hskip : isSkipped name = false)
    (hfits : (path.entry name).fits = true) :
  root.find here (path.entry name) = .found (location ++ [name]) tree
  := by
  have hget := get?_of_find h
  obtain ⟨distinct, names⟩ :
      (entries.map Prod.fst).Nodup ∧ ∀ entry ∈ entries, Path.IsName entry.1 := by
    cases hroot.of_get? hget with
    | directory distinct names inner => exact ⟨distinct, names⟩
  have hname : Path.IsName name := names _ hentry
  obtain ⟨hdot, habove⟩ := of_isSkipped hskip
  obtain ⟨hne, -, hfollow⟩ := find_eq_found_iff.mp h
  obtain ⟨components, later, hpath, hlater, hinner⟩ := Path.components_entry hname hne
  have hstart : (path.entry name).isAbsolute = path.isAbsolute := by
    rw [Path.isAbsolute, Path.isAbsolute, Path.head?_entry name hne]
  have hdirectory : root.follow (if path.isAbsolute then [] else here) components =
      .found location (directory entries) := by
    rw [hpath, follow_append] at hfollow
    split at hfollow
    · next found inner hcomponents =>
      obtain rfl := follow_here hlater hfollow
      rw [hcomponents, Option.some.inj ((get?_of_follow hcomponents).symm.trans hget)]
    · next hlookup => exact absurd hfollow (hlookup _ _)
  have hlookup : root.get? (location ++ [name]) = some tree := by
    simp [get?_append, hget, get?, lookup_of_mem distinct hentry]
  have hhere : Path.isHere name = false := by
    simp [Path.isHere, hname.ne_nil, hdot]
  rw [find_eq_found_iff, hstart, hinner, follow_append, hdirectory]
  refine ⟨Path.entry_ne_nil hne name, hfits, ?_⟩
  dsimp only
  rw [follow_cons_of_directory hget hhere habove hname.length_le, follow, hlookup]

/-! ### Sources -/

/-- What is no directory. -/
def IsLeaf : FileTree → Prop
  | directory _ => False
  | file _ | special _ => True

theorem eq_of_mem_named {inner : Path} (h : inner ∈ named path) :
  inner = path
  := by
  rw [named] at h
  split at h
  · exact List.mem_singleton.mp h
  · exact absurd h List.not_mem_nil

theorem mem_entrySource {entry : FileName × FileTree} {inner : Path} :
  inner ∈ (entrySource path entry).2 ↔
    isSkipped entry.1 = false ∧ inner ∈ entry.2.sources (path.entry entry.1)
  := by
  rw [entrySource_eq]
  cases isSkipped entry.1 <;> simp

theorem sources_of_not_fits (hfits : path.fits = false) (tree : FileTree) :
  tree.sources path = named path
  := by
  cases tree with
  | file content | special reading => rw [sources]
  | directory entries => rw [sources, hfits, if_neg (by simp)]

theorem sources_directory_perm (hfits : path.fits = true) (entries : List (FileName × FileTree)) :
  ((directory entries).sources path).Perm (entries.flatMap fun entry => (entrySource path entry).2)
  := by
  rw [sources, if_pos hfits, entrySources_eq_map]
  apply ((List.mergeSort_perm _ _).flatMap_right _).trans
  rw [List.flatMap_map]

/-- Entries that stand in the order of their names are gone through as they stand. -/
theorem sources_of_pairwise (hfits : path.fits = true)
    (hsorted : entries.Pairwise fun a b => a.1 ≤ b.1) :
  (directory entries).sources path =
    entries.flatMap fun entry =>
      if isSkipped entry.1 then [] else entry.2.sources (path.entry entry.1)
  := by
  have hsorted' : (entries.map (entrySource path)).Pairwise fun a b => decide (a.1 ≤ b.1) := by
    rw [List.pairwise_map]
    exact hsorted.imp fun h => by simpa only [entrySource_eq, decide_eq_true_eq] using h
  rw [sources, if_pos hfits, entrySources_eq_map, List.mergeSort_of_pairwise hsorted',
    List.flatMap_map]
  simp only [entrySource_eq]

/-- The paths of the sources in a tree lead to what is no directory, if they are short enough. -/
theorem find_of_mem_sources (hroot : root.WellFormed)
    (h : path.fits = true → root.find here path = .found location tree) {inner : Path}
    (hinner : inner ∈ tree.sources path) (hfits : inner.fits = true) :
  ∃ later leaf, root.find here inner = .found (location ++ later) leaf ∧ leaf.IsLeaf
  := by
  induction tree using induction generalizing path location with
  | file content | special reading =>
    rw [sources] at hinner
    obtain rfl := eq_of_mem_named hinner
    have hfind := h hfits
    rw [← List.append_nil location] at hfind
    exact ⟨[], _, hfind, trivial⟩
  | directory entries ih =>
    cases hpath : path.fits with
    | false =>
      rw [sources_of_not_fits hpath] at hinner
      obtain rfl := eq_of_mem_named hinner
      rw [hpath] at hfits
      cases hfits
    | true =>
      rw [(sources_directory_perm hpath entries).mem_iff, List.mem_flatMap] at hinner
      obtain ⟨entry, hentry, hinner⟩ := hinner
      obtain ⟨hskip, hinner⟩ := mem_entrySource.mp hinner
      obtain ⟨later, leaf, hfind, hleaf⟩ :=
        ih entry hentry (find_entry hroot (h hpath) hentry hskip) hinner
      exact ⟨[entry.1] ++ later, leaf, by rw [hfind, List.append_assoc], hleaf⟩

theorem fits_of_location? (h : (root.location? here path).isSome) :
  path.fits = true
  := by
  obtain ⟨found, hfound⟩ := Option.isSome_iff_exists.mp h
  obtain ⟨content, hfind⟩ := location?_eq_some_iff.mp hfound
  exact (find_eq_found_iff.mp hfind).2.1

/-- The files that the paths of sources below an entry lead to are below that entry. -/
theorem location?_of_mem_entrySource (hroot : root.WellFormed)
    (h : root.find here path = .found location (directory entries))
    {entry : FileName × FileTree} (hentry : entry ∈ entries) {inner : Path}
    (hinner : inner ∈ (entrySource path entry).2) {found : List FileName}
    (hfound : root.location? here inner = some found) :
  ∃ later, found = location ++ entry.1 :: later
  := by
  obtain ⟨hskip, hinner⟩ := mem_entrySource.mp hinner
  obtain ⟨later, leaf, hfind, -⟩ :=
    find_of_mem_sources hroot (find_entry hroot h hentry hskip) hinner
      (fits_of_location? (Option.isSome_of_eq_some hfound))
  obtain ⟨content, hcontent⟩ := location?_eq_some_iff.mp hfound
  rw [hfind] at hcontent
  obtain ⟨rfl, -⟩ := Lookup.found.inj hcontent
  exact ⟨later, by rw [List.append_assoc, List.singleton_append]⟩

theorem nodup_location?_named (path : Path) :
  ((named path).filterMap (root.location? here)).Nodup
  := by
  rw [named]
  split
  · cases hlocation : root.location? here path <;> simp [hlocation]
  · exact List.nodup_nil

/-- The paths of the sources in a tree lead to distinct files. -/
theorem nodup_location?_sources (hroot : root.WellFormed)
    (h : path.fits = true → root.find here path = .found location tree) :
  ((tree.sources path).filterMap (root.location? here)).Nodup
  := by
  induction tree using induction generalizing path location with
  | file content | special reading =>
    rw [sources]
    exact nodup_location?_named path
  | directory entries ih =>
    cases hpath : path.fits with
    | false =>
      rw [sources_of_not_fits hpath]
      exact nodup_location?_named path
    | true =>
      have hfind := h hpath
      have distinct : (entries.map Prod.fst).Nodup := by
        cases hroot.of_get? (get?_of_find hfind) with
        | directory distinct names inner => exact distinct
      rw [((sources_directory_perm hpath entries).filterMap _).nodup_iff, List.filterMap_flatMap,
        List.nodup_flatMap]
      constructor
      · intro entry hentry
        rw [entrySource_eq]
        cases hskip : isSkipped entry.1 with
        | true => simp
        | false => exact ih entry hentry (find_entry hroot hfind hentry hskip)
      · -- Files below entries with different names have different locations.
        apply (List.pairwise_map.mp distinct).imp_of_mem
        intro a b ha hb hne
        rw [Function.onFun_apply, List.disjoint_left]
        intro found hfirst hsecond
        obtain ⟨first, hmem, hfound⟩ := List.mem_filterMap.mp hfirst
        obtain ⟨second, hmem', hfound'⟩ := List.mem_filterMap.mp hsecond
        obtain ⟨later, hlater⟩ := location?_of_mem_entrySource hroot hfind ha hmem hfound
        obtain ⟨later', hlater'⟩ := location?_of_mem_entrySource hroot hfind hb hmem' hfound'
        rw [hlater, List.append_cancel_left_eq, List.cons.injEq] at hlater'
        exact hne hlater'.1

/-! ### A directory with two sources -/

/-- A directory with a source that can change and one that is broken. -/
def sampleDirectory : FileTree :=
  directory [(Text.bytes "a.html", file "<p class='flex'>".toUTF8),
    (Text.bytes "b.jsx", file "'".toUTF8)]

/-- The directory inside another one. -/
def sample : FileTree :=
  directory [(Text.bytes "src", sampleDirectory)]

theorem sample_wellFormed :
  sample.WellFormed
  := by decide +kernel

theorem sources_sample :
  sampleDirectory.sources "src" = ([↑"src/a.html", ↑"src/b.jsx"] : List Path)
  := by
  rw [sampleDirectory, sources_of_pairwise (by decide +kernel) (by decide +kernel)]
  decide +kernel

/-- A directory with two files whose paths are shown alike. The path of the second is no text, and
as it is shown it leads to the first. -/
def sampleAlike : FileTree :=
  directory [(Text.bytes "p\uFFFD.html", file "<p class='flex'>".toUTF8),
    (Text.bytes "p" ++ 0xFF :: Text.bytes ".html", file "<p class='grid'>".toUTF8)]

theorem sampleAlike_wellFormed :
  sampleAlike.WellFormed
  := by decide +kernel

theorem sources_sampleAlike :
  sampleAlike.sources "." =
    [.ofText "./p\uFFFD.html", ⟨Text.bytes "./p" ++ 0xFF :: Text.bytes ".html"⟩]
  := by
  rw [sampleAlike, sources_of_pairwise (by decide +kernel) (by decide +kernel)]
  decide +kernel

end FileTree

end UtilityClasses
