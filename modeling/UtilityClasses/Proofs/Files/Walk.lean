import UtilityClasses.Proofs.Files.Sources
import UtilityClasses.Proofs.Text.Decoding

/-!
# The walk through a directory

The walk visits what is no directory, or has a path that is too long for it to be seen that it is
one, if its path has a known extension and it is reached without passing a name that is a text and
passed over. Each place is visited once, and they come in the order in which one meets them going
down into every directory, from one name to the next, where names are ordered by their bytes.

Where names that start with a dot are texts, paths are short enough, and there are only files and
directories, these are the sources below the directory.
-/

namespace UtilityClasses

variable {root tree : FileTree} {here location location' : List FileName} {path : Path}
  {name : FileName} {entries : List (FileName × FileTree)}

/-! ### Names of sources -/

/-- A name that is a text. -/
def FileName.IsText (name : FileName) : Prop :=
  ∃ text, name = Text.bytes text

/-- The extension of a name is what stands behind its last dot, if something stands in front of
that dot. -/
theorem Path.extensionOfName_eq_some_iff {ext : List UInt8} :
  extensionOfName name = some ext ↔ ∃ stem, stem ≠ [] ∧ name = stem ++ dot :: ext ∧ dot ∉ ext
  := by
  constructor
  · intro h
    rw [extensionOfName] at h
    split at h
    · next hlength =>
      rw [Option.some.injEq] at h
      have hsplit := List.takeWhile_append_dropWhile (p := (· != dot)) (l := name.reverse)
      have hlater : name.reverse.dropWhile (· != dot) ≠ [] := by
        intro hnil
        have hwhole := congrArg List.length hsplit
        simp only [hnil, List.append_nil, List.length_reverse] at hwhole
        omega
      have hhead := List.head_dropWhile_not (· != dot) hlater
      obtain ⟨first, stem, hstem⟩ := List.exists_cons_of_ne_nil hlater
      obtain rfl : first = dot := by simpa [hstem] using hhead
      have hname : name = stem.reverse ++ dot :: ext := by
        have hreverse := congrArg List.reverse hsplit
        rw [hstem, List.reverse_reverse, List.reverse_append, h] at hreverse
        simpa using hreverse.symm
      refine ⟨stem.reverse, ?_, hname, ?_⟩
      · intro hnil
        have hwhole := congrArg List.length hname
        simp only [hnil, ← h, List.nil_append, List.length_cons, List.length_reverse] at hwhole
        omega
      · rw [← h, List.mem_reverse]
        exact fun hmem => by simpa using List.all_eq_true.mp List.all_takeWhile _ hmem
    · cases h
  · rintro ⟨stem, hne, rfl, hext⟩
    have hending : (stem ++ dot :: ext).reverse.takeWhile (· != dot) = ext.reverse := by
      rw [List.reverse_append, List.reverse_cons, List.append_assoc,
        List.takeWhile_append_of_pos]
      · simp
      · intro byte hbyte
        rw [bne_iff_ne]
        rintro rfl
        exact hext (List.mem_reverse.mp hbyte)
    have hpos := List.length_pos_iff.mpr hne
    rw [extensionOfName, hending, if_pos]
    · rw [List.reverse_reverse]
    · simp only [List.length_reverse, List.length_append, List.length_cons]
      omega

theorem Dialect.isSome_ofExtension?_iff {ext : String} :
  (ofExtension? ext).isSome ↔ ext ∈ extensions
  := by
  rw [ofExtension?.eq_def]
  split
  all_goals simp_all [extensions]

theorem Dialect.dot_notMem_of_mem_extensions :
  ∀ ext ∈ extensions, Path.dot ∉ Text.bytes ext
  := by decide +kernel

/-- A name with a known extension. -/
def Path.IsSourceName (name : FileName) : Prop :=
  ∃ stem ext, stem ≠ [] ∧ name = stem ++ dot :: Text.bytes ext ∧ ext ∈ Dialect.extensions

/-- The path of an entry that is not passed over has the extension of its name. -/
theorem Path.extension?_entry (hname : IsName name) (hskip : FileTree.isSkipped name = false)
    (hne : path.bytes ≠ []) :
  (path.entry name).extension? = extensionOfName name
  := by
  obtain ⟨hdot, habove⟩ := FileTree.of_isSkipped hskip
  obtain ⟨components, -, -, -, hcomponents⟩ := components_entry hname hne
  have hhere : isHere name = false := by
    simp [isHere, hname.ne_nil, hdot]
  simp [extension?, hcomponents, hhere, habove]

/-- The path of an entry that is not passed over tells a dialect exactly if its name does. -/
theorem Dialect.isSome_ofPath?_entry (hname : Path.IsName name)
    (hskip : FileTree.isSkipped name = false) (hne : path.bytes ≠ []) :
  (ofPath? (path.entry name)).isSome ↔ Path.IsSourceName name
  := by
  rw [ofPath?, Path.extension?_entry hname hskip hne, Path.IsSourceName]
  constructor
  · intro h
    obtain ⟨dialect, hdialect⟩ := Option.isSome_iff_exists.mp h
    obtain ⟨written, hname, hdialect⟩ := Option.bind_eq_some_iff.mp hdialect
    obtain ⟨ext, hext, hknown⟩ := Option.bind_eq_some_iff.mp hdialect
    obtain ⟨stem, hstem, hname, -⟩ := Path.extensionOfName_eq_some_iff.mp hname
    obtain rfl := Text.ofBytes?_eq_some_iff.mp hext
    exact ⟨stem, ext, hstem, hname, isSome_ofExtension?_iff.mp (Option.isSome_of_eq_some hknown)⟩
  · rintro ⟨stem, ext, hstem, hname, hknown⟩
    have hdot := dot_notMem_of_mem_extensions ext hknown
    rw [Path.extensionOfName_eq_some_iff.mpr ⟨stem, hstem, hname, hdot⟩]
    simpa using isSome_ofExtension?_iff.mpr hknown

/-- A name that is passed over: it starts with a dot, or it is that of a directory which holds what
other programs have put there. -/
def Path.IsExcluded (name : FileName) : Prop :=
  name.head? = some dot ∨ name = Text.bytes "node_modules" ∨ name = Text.bytes "target"

instance (name : FileName) : Decidable (Path.IsExcluded name) :=
  inferInstanceAs (Decidable (_ ∨ _ ∨ _))

theorem Text.bytes_inj {first second : String} :
  bytes first = bytes second ↔ first = second
  := by
  constructor
  · intro h
    have hread := ofBytes?_bytes first
    rwa [h, ofBytes?_bytes, Option.some_inj, eq_comm] at hread
  · exact congrArg bytes

/-- Only names that are texts are passed over. -/
theorem FileTree.isSkipped_eq_true_iff :
  isSkipped name = true ↔ FileName.IsText name ∧ Path.IsExcluded name
  := by
  rw [isSkipped, FileName.IsText, Path.IsExcluded]
  split
  · next text htext =>
    obtain rfl := Text.ofBytes?_eq_some_iff.mp htext
    have hdot := @Text.head?_bytes_eq_some_iff text '.' (by decide)
    have htext : ∃ other, Text.bytes text = Text.bytes other := ⟨text, rfl⟩
    simp only [Bool.or_eq_true, decide_eq_true_eq, beq_iff_eq, Text.bytes_inj, ← hdot]
    tauto
  · next hnone =>
    simp only [Bool.false_eq_true, false_iff, not_and]
    rintro ⟨text, rfl⟩
    simp at hnone

/-! ### Locations below a directory -/

/-- The path of what is at a location below the directory at `path`. -/
def Path.below (path : Path) (location : List FileName) : Path :=
  location.foldl entry path

@[simp]
theorem Path.below_cons (path : Path) (name : FileName) (location : List FileName) :
  path.below (name :: location) = (path.entry name).below location
  := rfl

theorem Path.below_append (path : Path) (directory later : List FileName) :
  path.below (directory ++ later) = (path.below directory).below later
  := List.foldl_append

theorem Path.below_ne_nil (hne : path.bytes ≠ []) (location : List FileName) :
  (path.below location).bytes ≠ []
  := by
  induction location generalizing path with
  | nil => exact hne
  | cons name location ih => exact ih (entry_ne_nil hne name)

/-- What is below a path that is too long has a path that is too long. -/
theorem Path.fits_of_fits_below (hfits : (path.below location).fits = true) :
  path.fits = true
  := by
  induction location generalizing path with
  | nil => exact hfits
  | cons name location ih => exact fits_of_fits_entry (ih hfits)

/-- One location comes before another: the two part in a directory, and the name that leads on to
the first has the smaller bytes. -/
def FileTree.Precedes (location location' : List FileName) : Prop :=
  ∃ directory first later second later',
    location = directory ++ first :: later ∧ location' = directory ++ second :: later' ∧
      first < second

namespace FileTree

/-- Locations behind different names come in the order of the names. -/
theorem Precedes.of_lt {first second : FileName} (h : first < second)
    (later later' : List FileName) :
  Precedes (first :: later) (second :: later')
  := ⟨[], first, later, second, later', rfl, rfl, h⟩

/-- Locations behind the same name come in the order they have there. -/
theorem Precedes.cons (h : Precedes location location') (name : FileName) :
  Precedes (name :: location) (name :: location')
  := by
  obtain ⟨directory, first, later, second, later', rfl, rfl, hlt⟩ := h
  exact ⟨name :: directory, first, later, second, later', rfl, rfl, hlt⟩

/-- No location comes before itself. -/
theorem Precedes.ne (h : Precedes location location') :
  location ≠ location'
  := by
  obtain ⟨directory, first, later, second, later', rfl, rfl, hlt⟩ := h
  intro heq
  obtain rfl := (List.cons.inj (List.append_cancel_left heq)).1
  exact List.lt_irrefl _ hlt

/-- The names on the way to something that is there are names that entries can have. -/
theorem WellFormed.isName_of_get? (h : tree.WellFormed) {inner : FileTree}
    (hget : tree.get? location = some inner) :
  ∀ name ∈ location, Path.IsName name
  := by
  induction location generalizing tree with
  | nil => exact List.forall_mem_nil _
  | cons name location ih =>
    cases h with
    | file content | special reading => simp [get?] at hget
    | directory distinct names inner =>
      rw [get?] at hget
      obtain ⟨entry, hlookup, hget⟩ := Option.bind_eq_some_iff.mp hget
      have hentry := mem_of_lookup hlookup
      exact List.forall_mem_cons.mpr ⟨names _ hentry, ih (inner _ hentry) hget⟩

/-! ### The walk -/

/-- There is something at a location that is no directory, or is not seen to be one, the directories
on the way to it are seen to be directories, no name on the way is passed over, and its path tells
its dialect. -/
structure IsVisited (path : Path) (tree : FileTree) (location : List FileName) : Prop where
  leaf : ∃ inner, tree.get? location = some inner ∧
    (inner.IsLeaf ∨ (path.below location).fits = false)
  reached : ∀ directory later, location = directory ++ later → later ≠ [] →
    (path.below directory).fits = true
  kept : ∀ name ∈ location, isSkipped name = false
  dialect : (Dialect.ofPath? (path.below location)).isSome

/-- The walk through a tree visits these locations, in this order. -/
structure Walks (path : Path) (tree : FileTree) (locations : List (List FileName)) : Prop where
  paths : tree.sources path = locations.map path.below
  mem (location : List FileName) : location ∈ locations ↔ tree.IsVisited path location
  ordered : locations.Pairwise Precedes

/-- The walk through entries visits these locations, in this order. -/
structure WalksEntries (path : Path) (entries : List (FileName × FileTree))
    (locations : List (List FileName)) : Prop where
  paths : (entries.flatMap fun entry => (entrySource path entry).2) = locations.map path.below
  mem (location : List FileName) : location ∈ locations ↔
    ∃ entry ∈ entries, ∃ later, location = entry.1 :: later ∧ isSkipped entry.1 = false ∧
      entry.2.IsVisited (path.entry entry.1) later
  ordered : locations.Pairwise Precedes

/-- What is no directory, or is not seen to be one, is itself visited if its path tells its
dialect. -/
theorem isVisited_iff_of_isLeaf (h : tree.IsLeaf ∨ path.fits = false) :
  tree.IsVisited path location ↔ location = [] ∧ (Dialect.ofPath? path).isSome
  := by
  constructor
  · rintro ⟨⟨inner, hget, -⟩, hreached, -, hdialect⟩
    cases location with
    | nil => exact ⟨rfl, hdialect⟩
    | cons name later =>
      obtain hleaf | hfits := h
      · cases tree with
        | file content | special reading => simp [get?] at hget
        | directory entries => exact hleaf.elim
      · have hpath := hreached [] (name :: later) rfl (List.cons_ne_nil _ _)
        rw [Path.below, List.foldl_nil, hfits] at hpath
        cases hpath
  · rintro ⟨rfl, hdialect⟩
    refine ⟨⟨tree, rfl, h⟩, ?_, List.forall_mem_nil _, hdialect⟩
    intro directory later hnil hne
    exact absurd (List.append_eq_nil_iff.mp hnil.symm).2 hne

theorem exists_walks_of_isLeaf (h : tree.IsLeaf ∨ path.fits = false) :
  ∃ locations, Walks path tree locations
  := by
  have hsources : tree.sources path = named path := by
    cases tree with
    | file content | special reading => rw [sources]
    | directory entries => exact sources_of_not_fits (h.resolve_left id) _
  by_cases hdialect : (Dialect.ofPath? path).isSome
  · use [[]]
    refine ⟨?_, ?_, List.pairwise_singleton _ _⟩
    · rw [hsources, named, if_pos hdialect]
      rfl
    · intro location
      rw [List.mem_singleton, isVisited_iff_of_isLeaf h, and_iff_left hdialect]
  · use []
    refine ⟨?_, ?_, List.Pairwise.nil⟩
    · rw [hsources, named, if_neg hdialect]
      rfl
    · intro location
      simp [isVisited_iff_of_isLeaf h, hdialect]

/-- The locations that the walk visits behind an entry. -/
theorem exists_walksEntry (path : Path) (entry : FileName × FileTree)
    (h : ∀ path, ∃ locations, Walks path entry.2 locations) :
  ∃ locations : List (List FileName), WalksEntries path [entry] (locations.map (entry.1 :: ·))
  := by
  cases hskip : isSkipped entry.1 with
  | true =>
    use []
    refine ⟨?_, ?_, List.Pairwise.nil⟩
    · simp [entrySource_eq, hskip]
    · simp [hskip]
  | false =>
    obtain ⟨locations, hpaths, hmem, hordered⟩ := h (path.entry entry.1)
    refine ⟨locations, ?_, ?_, ?_⟩
    · simp [entrySource_eq, hskip, hpaths, Function.comp_def]
    · intro location
      simp only [List.mem_map, List.mem_singleton, exists_eq_left, hmem, hskip, true_and]
      constructor
      · rintro ⟨later, hlater, rfl⟩
        exact ⟨later, rfl, hlater⟩
      · rintro ⟨later, rfl, hlater⟩
        exact ⟨later, hlater, rfl⟩
    · rw [List.pairwise_map]
      exact hordered.imp fun h => h.cons entry.1

/-- The walk goes from one entry to the next in the order of their names. -/
theorem exists_walksEntries (path : Path)
    (hordered : entries.Pairwise fun a b => a.1 < b.1)
    (h : ∀ entry ∈ entries, ∀ path, ∃ locations, Walks path entry.2 locations) :
  ∃ locations, WalksEntries path entries locations
  := by
  induction entries with
  | nil => exact ⟨[], rfl, by simp, List.Pairwise.nil⟩
  | cons entry entries ih =>
    rw [List.forall_mem_cons] at h
    obtain ⟨hfirst, hordered⟩ := List.pairwise_cons.mp hordered
    obtain ⟨locations, hwalks⟩ := exists_walksEntry path entry h.1
    obtain ⟨others, hothers⟩ := ih hordered h.2
    refine ⟨locations.map (entry.1 :: ·) ++ others, ?_, ?_, ?_⟩
    · rw [List.map_append, ← hwalks.paths, ← hothers.paths]
      simp
    · intro location
      rw [List.mem_append, hwalks.mem, hothers.mem]
      simp only [List.mem_cons, List.not_mem_nil, or_false, exists_eq_left, or_and_right, exists_or]
    · rw [List.pairwise_append]
      refine ⟨hwalks.ordered, hothers.ordered, ?_⟩
      intro location hlocation location' hlocation'
      obtain ⟨later, -, rfl⟩ := List.mem_map.mp hlocation
      obtain ⟨entry', hentry', later', rfl, -, -⟩ := (hothers.mem location').mp hlocation'
      exact .of_lt (hfirst entry' hentry') later later'

/-- Entries with distinct names, in the order of their names. -/
theorem pairwise_mergeSort_entries (hdistinct : (entries.map Prod.fst).Nodup) :
  (entries.mergeSort fun a b => a.1 ≤ b.1).Pairwise fun a b => a.1 < b.1
  := by
  have hperm := List.mergeSort_perm entries fun a b => decide (a.1 ≤ b.1)
  have hsorted := @List.pairwise_mergeSort _ (fun a b : FileName × FileTree => decide (a.1 ≤ b.1))
    (fun a b c hab hbc => decide_eq_true
      (List.le_trans (of_decide_eq_true hab) (of_decide_eq_true hbc)))
    (fun a b => by simpa using List.le_total a.1 b.1) entries
  have hne := List.pairwise_map.mp ((hperm.map Prod.fst).nodup_iff.mpr hdistinct)
  apply (hsorted.and hne).imp
  rintro a b ⟨hle, hne⟩
  rw [← Decidable.not_not (p := a.1 < b.1), List.not_lt]
  exact fun hge => hne (List.le_antisymm (of_decide_eq_true hle) hge)

/-- The walk through a directory goes through its entries in the order of their names. -/
theorem sources_directory_eq (hfits : path.fits = true) (entries : List (FileName × FileTree)) :
  (directory entries).sources path =
    (entries.mergeSort fun a b => a.1 ≤ b.1).flatMap fun entry => (entrySource path entry).2
  := by
  rw [sources, if_pos hfits, entrySources_eq_map,
    ← List.map_mergeSort (r := fun a b => decide (a.1 ≤ b.1)), List.flatMap_map]
  intro a _ b _
  simp only [entrySource_eq]

/-- What is visited below a directory is visited below one of its entries. -/
theorem isVisited_directory_iff (hdistinct : (entries.map Prod.fst).Nodup)
    (hfits : path.fits = true) :
  (directory entries).IsVisited path location ↔
    ∃ entry ∈ entries, ∃ later, location = entry.1 :: later ∧ isSkipped entry.1 = false ∧
      entry.2.IsVisited (path.entry entry.1) later
  := by
  constructor
  · rintro ⟨⟨inner, hget, hinner⟩, hreached, hkept, hdialect⟩
    cases location with
    | nil =>
      obtain rfl : directory entries = inner := by simpa [get?] using hget
      rw [Path.below, List.foldl_nil, hfits] at hinner
      exact (hinner.elim id (by simp)).elim
    | cons name later =>
      rw [get?] at hget
      obtain ⟨entry, hlookup, hget⟩ := Option.bind_eq_some_iff.mp hget
      obtain ⟨hname, hkept⟩ := List.forall_mem_cons.mp hkept
      refine ⟨_, mem_of_lookup hlookup, later, rfl, hname, ⟨inner, hget, hinner⟩, ?_, hkept,
        hdialect⟩
      rintro above later rfl hne
      exact hreached (name :: above) later rfl hne
  · rintro ⟨⟨name, entry⟩, hentry, later, rfl, hname, ⟨inner, hget, hinner⟩, hreached, hkept,
      hdialect⟩
    refine ⟨⟨inner, ?_, hinner⟩, ?_, List.forall_mem_cons.mpr ⟨hname, hkept⟩, hdialect⟩
    · rw [get?, lookup_of_mem hdistinct hentry, Option.bind_some, hget]
    · intro above later' heq hne
      cases above with
      | nil => exact hfits
      | cons first above =>
        obtain ⟨rfl, rfl⟩ := List.cons.inj heq
        exact hreached above later' rfl hne

theorem WellFormed.exists_walks (h : tree.WellFormed) (path : Path) :
  ∃ locations, Walks path tree locations
  := by
  induction h generalizing path with
  | file content | special reading => exact exists_walks_of_isLeaf (.inl trivial)
  | @directory entries distinct names inner ih =>
    cases hfits : path.fits with
    | false => exact exists_walks_of_isLeaf (.inr hfits)
    | true =>
      have hperm := List.mergeSort_perm entries fun a b => decide (a.1 ≤ b.1)
      obtain ⟨locations, hwalks⟩ := exists_walksEntries path (pairwise_mergeSort_entries distinct)
        fun entry hentry => ih entry (hperm.mem_iff.mp hentry)
      refine ⟨locations, ?_, ?_, hwalks.ordered⟩
      · rw [sources_directory_eq hfits, hwalks.paths]
      · intro location
        simp only [hwalks.mem, hperm.mem_iff, isVisited_directory_iff distinct hfits]

/-! ### Sources -/

/-- A source below a directory: a file that has a name with a known extension, and neither its name
nor that of a directory on the way is one that is to be passed over. -/
structure IsSource (tree : FileTree) (location : List FileName) : Prop where
  file : ∃ content, tree.get? location = some (file content)
  kept : ∀ name ∈ location, ¬ Path.IsExcluded name
  named : ∃ name ∈ location.getLast?, Path.IsSourceName name

/-- A location below the directory at `path` with nothing unusual about it: its path is short enough
to be followed, names on the way that start with a dot are texts, and there is a file or a directory
if there is anything. -/
structure IsPlain (path : Path) (tree : FileTree) (location : List FileName) : Prop where
  fits : (path.below location).fits = true
  hidden : ∀ name ∈ location, name.head? = some Path.dot → FileName.IsText name
  regular : ∀ reading, tree.get? location ≠ some (special reading)

theorem isSkipped_eq_false_iff (htext : name.head? = some Path.dot → FileName.IsText name) :
  isSkipped name = false ↔ ¬ Path.IsExcluded name
  := by
  have hread : Path.IsExcluded name → FileName.IsText name := by
    rintro (hdot | rfl | rfl)
    · exact htext hdot
    · exact ⟨_, rfl⟩
    · exact ⟨_, rfl⟩
  rw [← Bool.not_eq_true, isSkipped_eq_true_iff]
  exact not_congr ⟨And.right, fun h => ⟨hread h, h⟩⟩

/-- What the walk visits are the sources, wherever there is nothing unusual. -/
theorem isVisited_iff_isSource (h : (directory entries).WellFormed) (hne : path.bytes ≠ [])
    (hplain : (directory entries).IsPlain path location) :
  (directory entries).IsVisited path location ↔ (directory entries).IsSource location
  := by
  have hkept : (∀ name ∈ location, isSkipped name = false) ↔
      ∀ name ∈ location, ¬ Path.IsExcluded name :=
    forall₂_congr fun name hname => isSkipped_eq_false_iff (hplain.hidden name hname)
  have hnamed (hskip : ∀ name ∈ location, isSkipped name = false)
      (hfile : ∃ content, (directory entries).get? location = some (file content)) :
      (Dialect.ofPath? (path.below location)).isSome ↔
        ∃ name ∈ location.getLast?, Path.IsSourceName name := by
    obtain ⟨content, hget⟩ := hfile
    obtain rfl | ⟨directories, name, rfl⟩ := location.eq_nil_or_concat
    · simp [get?] at hget
    · rw [List.concat_eq_append] at hget hskip ⊢
      have hname := h.isName_of_get? hget name (by simp)
      rw [Path.below_append]
      exact (Dialect.isSome_ofPath?_entry hname (hskip name (by simp))
        (Path.below_ne_nil hne directories)).trans (by simp)
  constructor
  · rintro ⟨⟨inner, hget, hinner⟩, -, hskip, hdialect⟩
    have hfile : ∃ content, (directory entries).get? location = some (file content) := by
      cases inner with
      | file content => exact ⟨content, hget⟩
      | special reading => exact absurd hget (hplain.regular reading)
      | directory inner => exact absurd hplain.fits (by simpa [IsLeaf] using hinner)
    exact ⟨hfile, hkept.mp hskip, (hnamed hskip hfile).mp hdialect⟩
  · rintro ⟨hfile, hexcluded, hname⟩
    obtain ⟨content, hget⟩ := hfile
    refine ⟨⟨_, hget, .inl trivial⟩, ?_, hkept.mpr hexcluded,
      (hnamed (hkept.mpr hexcluded) ⟨content, hget⟩).mpr hname⟩
    rintro directory later rfl -
    apply Path.fits_of_fits_below
    rw [← Path.below_append]
    exact hplain.fits

/-- The path of what is below a directory leads there, if it is short enough and no name on the way
is passed over. -/
theorem find_below (hroot : root.WellFormed) (hfind : root.find here path = .found location tree)
    {later : List FileName} {inner : FileTree} (hget : tree.get? later = some inner)
    (hkept : ∀ name ∈ later, isSkipped name = false) (hfits : (path.below later).fits = true) :
  root.find here (path.below later) = .found (location ++ later) inner
  := by
  induction later generalizing path location tree with
  | nil =>
    obtain rfl : tree = inner := by simpa [get?] using hget
    rwa [List.append_nil]
  | cons name later ih =>
    cases tree with
    | file content | special reading => simp [get?] at hget
    | directory entries =>
      rw [get?] at hget
      obtain ⟨entry, hlookup, hget⟩ := Option.bind_eq_some_iff.mp hget
      obtain ⟨hname, hkept⟩ := List.forall_mem_cons.mp hkept
      have hentry := find_entry hroot hfind (mem_of_lookup hlookup) hname
        (Path.fits_of_fits_below hfits)
      rw [List.append_cons]
      exact ih hentry hget hkept hfits

/-- The walk through a directory visits these places once and nothing else, in the order of their
locations, and the paths that it gives lead there if they are short enough. Wherever there is
nothing unusual, it visits the sources below the directory and nothing else. -/
theorem sources_exact (hwell : (directory entries).WellFormed) (hne : path.bytes ≠ []) :
  ∃ visited : List (List FileName),
    (directory entries).sources path = visited.map path.below ∧
    visited.Nodup ∧
    visited.Pairwise Precedes ∧
    (∀ later, later ∈ visited ↔ (directory entries).IsVisited path later) ∧
    (∀ later, (directory entries).IsPlain path later →
      (later ∈ visited ↔ (directory entries).IsSource later)) ∧
    ∀ (root : FileTree) (here location : List FileName), root.WellFormed →
      root.find here path = .found location (directory entries) →
      ∀ later ∈ visited, (path.below later).fits = true →
        ∃ leaf, root.find here (path.below later) = .found (location ++ later) leaf ∧ leaf.IsLeaf
  := by
  obtain ⟨visited, hpaths, hmem, hordered⟩ := hwell.exists_walks path
  refine ⟨visited, hpaths, hordered.imp Precedes.ne, hordered, hmem, ?_, ?_⟩
  · intro later hplain
    rw [hmem, isVisited_iff_isSource hwell hne hplain]
  · intro root here location hroot hfind later hlater hfits
    obtain ⟨⟨inner, hget, hinner⟩, -, hkept, -⟩ := (hmem later).mp hlater
    exact ⟨inner, find_below hroot hfind hget hkept hfits, hinner.resolve_right (by simp [hfits])⟩

/-- A directory in which a directory is called like a source, with names that are passed over at
several depths, names with several dots and a name that is no text. -/
def samplePages : FileTree :=
  directory [(Text.bytes "z.html", file ByteArray.empty),
    (Text.bytes "pages.tsx", directory [(Text.bytes "a.test.jsx", file ByteArray.empty),
      (Text.bytes ".html", file ByteArray.empty),
      (Text.bytes "target", directory [(Text.bytes "b.vue", file ByteArray.empty)])]),
    (0xFF :: Text.bytes ".js", file ByteArray.empty), (Text.bytes "html", file ByteArray.empty)]

theorem samplePages_wellFormed :
  samplePages.WellFormed
  := by decide +kernel

/-- The sources of the sample are met in the order of their locations, also one with a name that is
no text, and what is hidden and what other programs have put there is not met. -/
theorem sources_exact_samplePages :
  samplePages.WellFormed ∧ ∃ visited : List (List FileName),
    samplePages.sources "site" = visited.map (Path.ofText "site").below ∧
    visited.Nodup ∧
    visited.Pairwise Precedes ∧
    [Text.bytes "pages.tsx", Text.bytes "a.test.jsx"] ∈ visited ∧
    [0xFF :: Text.bytes ".js"] ∈ visited ∧
    [Text.bytes "pages.tsx", Text.bytes ".html"] ∉ visited ∧
    [Text.bytes "pages.tsx", Text.bytes "target", Text.bytes "b.vue"] ∉ visited
  := by
  obtain ⟨visited, hpaths, hnodup, hordered, hvisited, hsource, -⟩ :=
    @sources_exact (.ofText "site") _ samplePages_wellFormed (by decide +kernel)
  have hkept {location : List FileName} (h : location ∈ visited) :
      ∀ name ∈ location, isSkipped name = false := ((hvisited location).mp h).kept
  have hidden {location : List FileName} (h : ∀ name ∈ location, name.head? ≠ some Path.dot) :
      ∀ name ∈ location, name.head? = some Path.dot → FileName.IsText name :=
    fun name hname hdot => absurd hdot (h name hname)
  refine ⟨samplePages_wellFormed, visited, hpaths, hnodup, hordered, ?_, ?_, ?_, ?_⟩
  · refine (hsource _ ⟨by decide +kernel, ?_, ?_⟩).mpr ⟨⟨_, rfl⟩, by decide +kernel, _, rfl, ?_⟩
    · exact hidden (by decide +kernel)
    · rintro reading ⟨⟩
    · exact ⟨Text.bytes "a.test", "jsx", by decide +kernel, by decide +kernel, by decide +kernel⟩
  · refine (hsource _ ⟨by decide +kernel, ?_, ?_⟩).mpr ⟨⟨_, rfl⟩, by decide +kernel, _, rfl, ?_⟩
    · exact hidden (by decide +kernel)
    · rintro reading ⟨⟩
    · exact ⟨[0xFF], "js", by decide +kernel, by decide +kernel, by decide +kernel⟩
  · exact fun h => absurd (hkept h) (by decide +kernel)
  · exact fun h => absurd (hkept h) (by decide +kernel)

/-- A directory with a hidden directory and a hidden file whose names are no texts, and a pipe. -/
def sampleHidden : FileTree :=
  directory [([Path.dot, 0xFF], directory [(Text.bytes "b.html", file ByteArray.empty)]),
    (Path.dot :: 0xFF :: Text.bytes ".html", file ByteArray.empty),
    (Text.bytes "x.html", special (.ok ByteArray.empty))]

/-- Hidden files with a known extension are visited if a name on the way is no text, and so is what
is no file. -/
theorem sources_sampleHidden :
  sampleHidden.WellFormed ∧
    sampleHidden.sources "d" =
      [⟨Text.bytes "d/." ++ 0xFF :: Text.bytes "/b.html"⟩,
        ⟨Text.bytes "d/." ++ 0xFF :: Text.bytes ".html"⟩, .ofText "d/x.html"] ∧
    ¬ sampleHidden.IsSource [[Path.dot, 0xFF], Text.bytes "b.html"] ∧
    ¬ sampleHidden.IsSource [Path.dot :: 0xFF :: Text.bytes ".html"] ∧
    ¬ sampleHidden.IsSource [Text.bytes "x.html"]
  := by
  have hinner : (directory [(Text.bytes "b.html", file ByteArray.empty)]).sources
      ((Path.ofText "d").entry [Path.dot, 0xFF]) =
        [⟨Text.bytes "d/." ++ 0xFF :: Text.bytes "/b.html"⟩] := by
    rw [sources_of_pairwise (by decide +kernel) (by decide +kernel)]
    decide +kernel
  refine ⟨by decide +kernel, ?_, ?_, ?_, ?_⟩
  · rw [sampleHidden, sources_of_pairwise (by decide +kernel) (by decide +kernel),
      List.flatMap_cons, hinner]
    decide +kernel
  · exact fun h => h.kept [Path.dot, 0xFF] (by simp) (.inl rfl)
  · exact fun h => h.kept _ List.mem_cons_self (.inl rfl)
  · rintro ⟨⟨content, hget⟩, -⟩
    cases hget

/-- A directory with a directory that is called like a source, and one with a source in it. -/
def sampleInner : FileTree :=
  directory [(Text.bytes "pages.html", directory []),
    (Text.bytes "subpages12", directory [(Text.bytes "a.html", file ByteArray.empty)])]

/-- A directory is visited if it is called like a source and its path is too long, and a source is
not visited if the path of its directory is. -/
theorem exists_visited_sampleInner (hne : path.bytes ≠ []) (hfits : path.fits = true)
    (hpages : (path.entry (Text.bytes "pages.html")).fits = false)
    (hinner : (path.entry (Text.bytes "subpages12")).fits = false) :
  ∃ visited : List (List FileName), sampleInner.sources path = visited.map path.below ∧
    [Text.bytes "pages.html"] ∈ visited ∧ [Text.bytes "subpages12", Text.bytes "a.html"] ∉ visited
  := by
  have hwell : sampleInner.WellFormed := by decide +kernel
  have hsource : Path.IsSourceName (Text.bytes "pages.html") :=
    ⟨Text.bytes "pages", "html", by decide +kernel, by decide +kernel, by decide +kernel⟩
  obtain ⟨visited, hpaths, hmem, -⟩ := hwell.exists_walks path
  refine ⟨visited, hpaths, ?_, ?_⟩
  · rw [hmem]
    refine ⟨⟨directory [], rfl, .inr hpages⟩, ?_, by decide +kernel, ?_⟩
    · intro above later heq hlater
      cases above with
      | nil => exact hfits
      | cons first above => simp_all
    · exact (Dialect.isSome_ofPath?_entry (by decide +kernel) (by decide +kernel) hne).mpr hsource
  · intro hvisited
    have hreached : (path.entry (Text.bytes "subpages12")).fits = true :=
      ((hmem _).mp hvisited).reached [Text.bytes "subpages12"] _ rfl (by simp)
    rw [hinner] at hreached
    cases hreached

/-- The path of a directory to which no name can be added. -/
def samplePath : Path :=
  ⟨(List.replicate 2043 [Path.dot, Path.separator]).flatten ++ Text.bytes "d"⟩

/-- Where paths are too long, the walk visits a directory, and it does not visit a source. -/
theorem sources_samplePath :
  ∃ visited : List (List FileName), sampleInner.WellFormed ∧ samplePath.fits = true ∧
    sampleInner.sources samplePath = visited.map samplePath.below ∧
    [Text.bytes "pages.html"] ∈ visited ∧ ¬ sampleInner.IsSource [Text.bytes "pages.html"] ∧
    [Text.bytes "subpages12", Text.bytes "a.html"] ∉ visited ∧
    sampleInner.IsSource [Text.bytes "subpages12", Text.bytes "a.html"]
  := by
  have hfits : samplePath.fits = true := by decide +kernel
  obtain ⟨visited, hpaths, hpages, hinner⟩ :=
    @exists_visited_sampleInner samplePath (by decide +kernel) hfits (by decide +kernel)
      (by decide +kernel)
  refine ⟨visited, by decide +kernel, hfits, hpaths, hpages, ?_, hinner, ⟨_, rfl⟩,
    by decide +kernel, _, rfl, Text.bytes "a", "html", by decide +kernel, by decide +kernel,
    by decide +kernel⟩
  rintro ⟨⟨content, hget⟩, -⟩
  cases hget

end FileTree

end UtilityClasses
