import Mathlib.Data.List.Nodup
import UtilityClasses.FileTree

/-!
# Contents of files

Files are written in place: the content of a file changes, and no name does. So a path leads to
the same location whatever has been written, and writing to one file leaves the others alone.
-/

namespace UtilityClasses

/-- The names that entries of a directory can have. -/
structure Path.IsName (name : FileName) : Prop where
  ne_nil : name ≠ []
  separator_notMem : separator ∉ name
  length_le : name.length ≤ maxNameLength

theorem Path.isName_iff (name : FileName) :
  IsName name ↔ name ≠ [] ∧ separator ∉ name ∧ name.length ≤ maxNameLength
  := ⟨fun h => ⟨h.ne_nil, h.separator_notMem, h.length_le⟩, fun h => ⟨h.1, h.2.1, h.2.2⟩⟩

instance (name : FileName) : Decidable (Path.IsName name) :=
  decidable_of_iff _ (Path.isName_iff name).symm

variable {root tree : FileTree} {here location components : List FileName} {path : Path}
  {name : FileName} {entries : List (FileName × FileTree)}
  {f g : List FileName → ByteArray → ByteArray}

namespace FileTree

/-- What holds of everything that is no directory, and of a directory if it holds of its entries,
holds of every tree. -/
theorem induction {P : FileTree → Prop} (file : ∀ content, P (file content))
    (special : ∀ reading, P (special reading))
    (directory : ∀ entries, (∀ entry ∈ entries, P entry.2) → P (directory entries)) :
  ∀ tree, P tree
  := by
  intro tree
  apply FileTree.rec (motive_1 := P) (motive_2 := fun entries => ∀ entry ∈ entries, P entry.2)
    (motive_3 := fun entry => P entry.2)
  · exact file
  · exact directory
  · exact special
  · exact List.forall_mem_nil _
  · exact fun entry entries hentry hentries => List.forall_mem_cons.mpr ⟨hentry, hentries⟩
  · exact fun name tree h => h

/-- Within a directory the names are distinct, and each is one that entries can have. -/
inductive WellFormed : FileTree → Prop
  | file (content : ByteArray) : WellFormed (file content)
  | special (reading : Except String ByteArray) : WellFormed (special reading)
  | directory {entries : List (FileName × FileTree)} (distinct : (entries.map Prod.fst).Nodup)
      (names : ∀ entry ∈ entries, Path.IsName entry.1)
      (inner : ∀ entry ∈ entries, WellFormed entry.2) : WellFormed (directory entries)

mutual

/-- Tells whether a tree is well-formed. -/
def isWellFormed : FileTree → Bool
  | directory entries => (entries.map Prod.fst).Nodup && entriesWellFormed entries
  | file _ | special _ => true

/-- Tells whether entries have proper names and are well-formed. -/
def entriesWellFormed : List (FileName × FileTree) → Bool
  | [] => true
  | entry :: later => entryWellFormed entry && entriesWellFormed later

/-- Tells whether an entry has a proper name and is well-formed. -/
def entryWellFormed : FileName × FileTree → Bool
  | (name, tree) => Path.IsName name && tree.isWellFormed

end

theorem entriesWellFormed_eq_all (entries : List (FileName × FileTree)) :
  entriesWellFormed entries = entries.all fun entry =>
    Path.IsName entry.1 && entry.2.isWellFormed
  := by
  induction entries with
  | nil => rfl
  | cons entry entries ih => rw [entriesWellFormed, ih, List.all_cons, entryWellFormed.eq_def]

theorem isWellFormed_iff (tree : FileTree) :
  tree.isWellFormed = true ↔ tree.WellFormed
  := by
  induction tree using induction with
  | file content => exact ⟨fun _ => .file content, fun _ => rfl⟩
  | special reading => exact ⟨fun _ => .special reading, fun _ => rfl⟩
  | directory entries ih =>
    simp only [isWellFormed, entriesWellFormed_eq_all, Bool.and_eq_true, decide_eq_true_eq,
      List.all_eq_true]
    constructor
    · rintro ⟨distinct, hentries⟩
      exact .directory distinct (fun entry hentry => (hentries entry hentry).1)
        fun entry hentry => (ih entry hentry).mp (hentries entry hentry).2
    · rintro ⟨⟩
      next distinct names inner =>
      exact ⟨distinct, fun entry hentry => ⟨names entry hentry,
        (ih entry hentry).mpr (inner entry hentry)⟩⟩

instance (tree : FileTree) : Decidable tree.WellFormed :=
  decidable_of_iff _ tree.isWellFormed_iff

/-! ### New contents -/

mutual

/-- The tree in which every file has the content that `f` gives for its location and for the
content it had. -/
def mapFiles (f : List FileName → ByteArray → ByteArray) : FileTree → FileTree
  | file content => file (f [] content)
  | directory entries => directory (mapEntries f entries)
  | special reading => special reading

/-- The entries in which every file has the content that `f` gives. -/
def mapEntries (f : List FileName → ByteArray → ByteArray) :
    List (FileName × FileTree) → List (FileName × FileTree)
  | [] => []
  | entry :: later => mapEntry f entry :: mapEntries f later

/-- The entry in which every file has the content that `f` gives. -/
def mapEntry (f : List FileName → ByteArray → ByteArray) : FileName × FileTree → FileName × FileTree
  | (name, tree) => (name, tree.mapFiles fun location => f (name :: location))

end

theorem mapEntries_eq_map (entries : List (FileName × FileTree)) :
  mapEntries f entries = entries.map (mapEntry f)
  := by
  induction entries with
  | nil => rfl
  | cons entry entries ih => rw [mapEntries, ih, List.map_cons]

theorem mapFiles_directory (entries : List (FileName × FileTree)) :
  (directory entries).mapFiles f = directory (entries.map (mapEntry f))
  := by
  rw [mapFiles, mapEntries_eq_map]

theorem mapEntry_eq (entry : FileName × FileTree) :
  mapEntry f entry = (entry.1, entry.2.mapFiles fun location => f (entry.1 :: location))
  := by
  rw [mapEntry.eq_def]

theorem mapFiles_mapFiles (tree : FileTree) :
  (tree.mapFiles f).mapFiles g = tree.mapFiles fun location content =>
    g location (f location content)
  := by
  induction tree using induction generalizing f g with
  | file content | special reading => rfl
  | directory entries ih =>
    simp only [mapFiles_directory, List.map_map]
    congr 1
    apply List.map_congr_left
    intro entry hentry
    simp only [Function.comp_apply, mapEntry_eq, ih entry hentry]

@[simp]
theorem mapFiles_id (tree : FileTree) :
  tree.mapFiles (fun _ content => content) = tree
  := by
  induction tree using induction with
  | file content | special reading => rfl
  | directory entries ih =>
    rw [mapFiles_directory]
    congr 1
    apply (List.map_congr_left fun entry hentry => ?_).trans (List.map_id entries)
    rw [mapEntry_eq, ih entry hentry, id_eq]

theorem WellFormed.mapFiles (h : tree.WellFormed) :
  (tree.mapFiles f).WellFormed
  := by
  induction h generalizing f with
  | file content => exact .file _
  | special reading => exact .special _
  | @directory entries distinct names inner ih =>
    rw [mapFiles_directory]
    constructor
    · simpa only [List.map_map, Function.comp_def, mapEntry_eq] using distinct
    · simpa only [List.forall_mem_map, mapEntry_eq] using names
    · simp only [List.forall_mem_map, mapEntry_eq]
      exact fun entry hentry => ih entry hentry

/-! ### Locations -/

theorem lookup_map_mapEntry (entries : List (FileName × FileTree)) :
  (entries.map (mapEntry f)).lookup name =
    (entries.lookup name).map fun tree => tree.mapFiles fun location => f (name :: location)
  := by
  induction entries with
  | nil => rfl
  | cons entry entries ih =>
    obtain ⟨other, tree⟩ := entry
    rw [List.map_cons, mapEntry, List.lookup_cons, List.lookup_cons]
    by_cases hname : name = other
    · simp [hname]
    · rw [beq_false_of_ne hname]
      exact ih

theorem get?_mapFiles (tree : FileTree) (location : List FileName) :
  (tree.mapFiles f).get? location =
    (tree.get? location).map fun inner => inner.mapFiles fun later => f (location ++ later)
  := by
  induction location generalizing tree f with
  | nil => simp [get?]
  | cons name location ih =>
    cases tree with
    | file content | special reading => rfl
    | directory entries =>
      rw [mapFiles_directory, get?, lookup_map_mapEntry, get?]
      cases entries.lookup name with
      | none => rfl
      | some inner => exact ih inner

theorem get?_append (tree : FileTree) (location later : List FileName) :
  tree.get? (location ++ later) = (tree.get? location).bind fun inner => inner.get? later
  := by
  induction location generalizing tree with
  | nil => simp [get?]
  | cons name location ih =>
    cases tree with
    | file content | special reading => rfl
    | directory entries =>
      rw [List.cons_append, get?, get?, Option.bind_assoc]
      congr 1
      funext inner
      exact ih inner

/-- What a name leads to is an entry. -/
theorem mem_of_lookup (h : entries.lookup name = some tree) :
  (name, tree) ∈ entries
  := by
  obtain ⟨before, after, rfl, -⟩ := List.lookup_eq_some_iff.mp h
  simp

/-- Distinct names lead to every entry. -/
theorem lookup_of_mem (hdistinct : (entries.map Prod.fst).Nodup) (h : (name, tree) ∈ entries) :
  entries.lookup name = some tree
  := by
  obtain ⟨before, after, rfl⟩ := List.append_of_mem h
  rw [List.lookup_eq_some_iff]
  refine ⟨before, after, rfl, fun entry hentry => ?_⟩
  rw [List.map_append, List.map_cons, List.nodup_append] at hdistinct
  have hne := hdistinct.2.2 entry.1 (List.mem_map_of_mem hentry) name List.mem_cons_self
  simpa using hne.symm

/-- Only what `f` gives for the files that are there matters. -/
theorem mapFiles_congr (hwell : tree.WellFormed)
    (h : ∀ location content, tree.get? location = some (file content) →
      f location content = g location content) :
  tree.mapFiles f = tree.mapFiles g
  := by
  induction hwell generalizing f g with
  | file content => exact congrArg file (h [] content rfl)
  | special reading => rfl
  | @directory entries distinct names inner ih =>
    rw [mapFiles_directory, mapFiles_directory]
    congr 1
    apply List.map_congr_left
    intro entry hentry
    rw [mapEntry_eq, mapEntry_eq]
    congr 1
    apply ih entry hentry
    intro location content hget
    apply h
    rw [get?, lookup_of_mem distinct hentry, Option.bind_some, hget]

/-- Writing to a file gives it another content and leaves everything else alone. -/
theorem insert_eq_mapFiles {old : ByteArray} (new : ByteArray) (hwell : tree.WellFormed)
    (hget : tree.get? location = some (file old)) :
  tree.insert location (file new) =
    tree.mapFiles fun other content => if other = location then new else content
  := by
  induction location generalizing tree with
  | nil =>
    obtain rfl : tree = file old := by simpa [get?] using hget
    rfl
  | cons name location ih =>
    cases hwell with
    | file content | special reading => simp [get?] at hget
    | @directory entries distinct names inner =>
      rw [get?] at hget
      obtain ⟨tree, hlookup, hget⟩ := Option.bind_eq_some_iff.mp hget
      rw [insert, if_pos (by rw [hlookup, Option.isSome_some]), mapFiles_directory]
      congr 1
      apply List.map_congr_left
      rintro ⟨other, tree'⟩ hentry
      simp only [mapEntry]
      congr 1
      by_cases hname : other = name
      · subst hname
        obtain rfl : tree' = tree :=
          Option.some.inj ((lookup_of_mem distinct hentry).symm.trans hlookup)
        rw [if_pos rfl, ih (inner _ hentry) hget]
        congr! 4 with later content
        simp
      · rw [if_neg hname]
        symm
        apply (congrArg tree'.mapFiles _).trans (mapFiles_id tree')
        funext later content
        simp [hname]

end FileTree

/-! ### Paths -/

/-- The lookup in which every file has the content that `f` gives. -/
def Lookup.mapFiles (f : List FileName → ByteArray → ByteArray) : Lookup → Lookup
  | .found location tree => .found location (tree.mapFiles fun later => f (location ++ later))
  | lookup => lookup

namespace FileTree

/-- The location that a component leads to from a directory, if the component is short enough. -/
def turn? (location : List FileName) (component : FileName) : Option (List FileName) :=
  if Path.isHere component then some location
  else if Path.isAbove component then some location.dropLast
  else if Path.maxNameLength < component.length then none
  else some (location ++ [component])

/-- A component is followed from a directory, and then the ones behind it. -/
theorem follow_cons (root : FileTree) (location : List FileName) (component : FileName)
    (later : List FileName) :
  root.follow location (component :: later) =
    match root.get? location with
    | none => .missing
    | some (directory _) =>
      match turn? location component with
      | none => .tooLong
      | some next => root.follow next later
    | some _ => .notDirectory
  := by
  rw [follow]
  cases root.get? location with
  | none => rfl
  | some tree =>
    cases tree with
    | file content | special reading => rfl
    | directory entries =>
      dsimp only
      rw [turn?]
      split_ifs with hhere habove hlong
      · rfl
      · rfl
      · rfl
      · rfl

theorem follow_mapFiles (root : FileTree) (location components : List FileName) :
  (root.mapFiles f).follow location components = (root.follow location components).mapFiles f
  := by
  induction components generalizing location with
  | nil =>
    rw [follow, follow, get?_mapFiles]
    cases root.get? location <;> rfl
  | cons component later ih =>
    rw [follow_cons, follow_cons, get?_mapFiles]
    cases root.get? location with
    | none => rfl
    | some tree =>
      cases tree with
      | file content | special reading => rfl
      | directory entries =>
        rw [Option.map_some, mapFiles_directory]
        cases turn? location component with
        | none => rfl
        | some next => exact ih next

theorem find_mapFiles (root : FileTree) (here : List FileName) (path : Path) :
  (root.mapFiles f).find here path = (root.find here path).mapFiles f
  := by
  rw [find, find]
  split
  · rfl
  · split
    · rfl
    · exact follow_mapFiles root _ _

/-- What components lead to is at the location. -/
theorem get?_of_follow {found : List FileName}
    (h : root.follow location components = .found found tree) :
  root.get? found = some tree
  := by
  induction components generalizing location with
  | nil =>
    rw [follow] at h
    split at h
    · next inner hget =>
      obtain ⟨rfl, rfl⟩ := Lookup.found.inj h
      exact hget
    · cases h
  | cons component later ih =>
    rw [follow_cons] at h
    split at h
    · cases h
    · split at h
      · cases h
      · exact ih h
    · cases h

theorem get?_of_find (h : root.find here path = .found location tree) :
  root.get? location = some tree
  := by
  rw [find] at h
  split at h
  · cases h
  · split at h
    · cases h
    · exact get?_of_follow h

/-- A path can be followed part by part. -/
theorem follow_append (root : FileTree) (location components later : List FileName) :
  root.follow location (components ++ later) =
    match root.follow location components with
    | .found found _ => root.follow found later
    | lookup => lookup
  := by
  induction components generalizing location with
  | nil =>
    rw [List.nil_append, follow.eq_1]
    cases hget : root.get? location with
    | some tree => rfl
    | none => cases later <;> simp [follow, hget]
  | cons component components ih =>
    rw [List.cons_append, follow_cons, follow_cons]
    cases root.get? location with
    | none => rfl
    | some tree =>
      cases tree with
      | file content | special reading => rfl
      | directory entries =>
        cases turn? location component with
        | none => rfl
        | some next => exact ih next

/-- The location of the file that a path leads to. -/
def location? (root : FileTree) (here : List FileName) (path : Path) : Option (List FileName) :=
  match root.find here path with
  | .found location (file _) => some location
  | _ => none

@[simp]
theorem location?_mapFiles (root : FileTree) (here : List FileName) (path : Path) :
  (root.mapFiles f).location? here path = root.location? here path
  := by
  rw [location?, location?, find_mapFiles]
  cases root.find here path with
  | missing | notDirectory | tooLong => rfl
  | found location tree =>
    cases tree with
    | file content | special reading => rfl
    | directory entries =>
      rw [Lookup.mapFiles, mapFiles_directory]

theorem location?_eq_some_iff :
  root.location? here path = some location ↔
    ∃ content, root.find here path = .found location (file content)
  := by
  rw [location?]
  split
  · next other content h => simp [h]
  · next h =>
    simp only [reduceCtorEq, false_iff, not_exists]
    exact fun content hfind => h _ _ hfind

theorem entrySources_eq_map (path : Path) (entries : List (FileName × FileTree)) :
  entrySources path entries = entries.map (entrySource path)
  := by
  induction entries with
  | nil => rfl
  | cons entry entries ih => rw [entrySources, ih, List.map_cons]

theorem entrySource_eq (path : Path) (entry : FileName × FileTree) :
  entrySource path entry =
    (entry.1, if isSkipped entry.1 then [] else entry.2.sources (path.entry entry.1))
  := by
  rw [entrySource.eq_def]

theorem sources_mapFiles (path : Path) (tree : FileTree) :
  (tree.mapFiles f).sources path = tree.sources path
  := by
  induction tree using induction generalizing path f with
  | file content | special reading => rfl
  | directory entries ih =>
    rw [mapFiles_directory, sources, sources, entrySources_eq_map, entrySources_eq_map,
      List.map_map]
    congr 3
    apply List.map_congr_left
    intro entry hentry
    rw [Function.comp_apply, mapEntry_eq, entrySource_eq, entrySource_eq, ih entry hentry]

end FileTree

end UtilityClasses
