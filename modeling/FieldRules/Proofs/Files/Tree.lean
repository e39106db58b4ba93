import FieldRules.Files
import FieldRules.Proofs.Reading.Keeps
import Mathlib.Data.List.TakeWhile

namespace FieldRules.Files.Path

/-! A path is followed name by name, and a name added at its end is the name of what it
then leads to. -/

/-- A text that can stand as a name in a directory. -/
structure IsName (name : String) : Prop where
  nonempty : name ≠ ""
  notHere : name ≠ "."
  notUp : name ≠ ".."
  undivided : '/' ∉ name.toList
  noNul : '\x00' ∉ name.toList
  short : name.utf8ByteSize ≤ Disk.longestName

theorem isName_iff (name : String) : IsName name ↔
    name ≠ "" ∧ name ≠ "." ∧ name ≠ ".." ∧ '/' ∉ name.toList ∧ '\x00' ∉ name.toList ∧
      name.utf8ByteSize ≤ Disk.longestName := by
  constructor
  · rintro ⟨nonempty, notHere, notUp, undivided, noNul, short⟩
    exact ⟨nonempty, notHere, notUp, undivided, noNul, short⟩
  · rintro ⟨nonempty, notHere, notUp, undivided, noNul, short⟩
    exact ⟨nonempty, notHere, notUp, undivided, noNul, short⟩

instance (name : String) : Decidable (IsName name) := decidable_of_iff _ (isName_iff name).symm

def within (directory : String) (names : List String) : String := names.foldl join directory

variable {directory name stem : String}

theorem within_concat (directory : String) (names : List String) (name : String) :
    within directory (names ++ [name]) = join (within directory names) name := by
  simp [within]

theorem suffix_of_endsWith {path suffix : String} (ends : path.endsWith suffix) :
    suffix.toList <:+ path.toList := by
  have ending : suffix.toList <:+ path.toSlice.copy.toList :=
    String.Slice.endsWith_string_iff.mp ends
  rwa [String.copy_toSlice] at ending

theorem join_cases (present : directory ≠ "") (name : String) :
    (∃ before, directory = before ++ "/" ∧ join directory name = directory ++ name) ∨
      join directory name = directory ++ "/" ++ name := by
  by_cases slash : directory.endsWith "/"
  · left
    obtain ⟨before, spelled⟩ := suffix_of_endsWith slash
    refine ⟨String.ofList before, ?_, by simp [join, present, slash]⟩
    rw [← String.toList_inj, ← spelled]
    simp
  · right
    simp [join, present, slash]

theorem parts_divided (first second : String) :
    parts (first ++ "/" ++ second) = parts first ++ parts second := by
  simp [parts, List.splitOn_append_cons_self]

theorem parts_of_undivided (undivided : '/' ∉ name.toList) : parts name = [name] := by
  simp [parts, List.splitOn_eq_singleton undivided]

/-- A slash at the end of a path counts as an empty name, and a name that is added takes
its place. -/
theorem parts_join (present : directory ≠ "") (isName : IsName name) :
    parts (join directory name) = parts directory ++ [name] ∨
      ∃ before, parts directory = before ++ [""] ∧
        parts (join directory name) = before ++ [name] := by
  have alone : parts name = [name] := parts_of_undivided isName.undivided
  rcases join_cases present name with ⟨before, slash, joined⟩ | joined
  · right
    refine ⟨parts before, ?_, ?_⟩
    · have divided := parts_divided before ""
      rw [String.append_empty, ← slash] at divided
      simpa [parts, List.splitOn_nil] using divided
    · rw [joined, slash, parts_divided, alone]
  · left
    rw [joined, parts_divided, alone]

theorem fileName?_join (present : directory ≠ "") (isName : IsName name) :
    fileName? (join directory name) = some name := by
  rcases parts_join present isName with spelled | ⟨before, -, spelled⟩
  · simp [fileName?, spelled, List.filter_append, isName.nonempty, isName.notHere, isName.notUp]
  · simp [fileName?, spelled, List.filter_append, isName.nonempty, isName.notHere, isName.notUp]

theorem join_ne_empty (present : directory ≠ "") (name : String) : join directory name ≠ "" := by
  rcases join_cases present name with ⟨_, -, joined⟩ | joined
  · simp [joined, present]
  · simp [joined, present]

theorem within_ne_empty (present : directory ≠ "") (names : List String) :
    within directory names ≠ "" := by
  induction names generalizing directory with
  | nil => exact present
  | cons name rest ih => exact ih (join_ne_empty present name)

theorem isAbsolute_join (present : directory ≠ "") (name : String) :
    isAbsolute (join directory name) = isAbsolute directory := by
  have starts : ∀ rest, isAbsolute (directory ++ rest) = isAbsolute directory := by
    intro rest
    rw [Bool.eq_iff_iff, isAbsolute, isAbsolute, String.startsWith_string_iff,
      String.startsWith_string_iff, String.toList_append]
    refine ⟨fun starts => ?_, fun starts => starts.trans (List.prefix_append _ _)⟩
    have short : "/".toList.length ≤ directory.toList.length :=
      List.length_pos_iff.mpr (by simpa using present)
    exact List.prefix_of_prefix_length_le starts (List.prefix_append _ _) short
  rcases join_cases present name with ⟨_, -, joined⟩ | joined
  · rw [joined, starts]
  · rw [joined, String.append_assoc, starts]

theorem noNul_join (present : directory ≠ "") (noNul : '\x00' ∉ directory.toList)
    (isName : IsName name) : '\x00' ∉ (join directory name).toList := by
  rcases join_cases present name with ⟨_, -, joined⟩ | joined
  · simp [joined, noNul, isName.noNul]
  · simp [joined, noNul, isName.noNul]

theorem utf8ByteSize_le_join (directory name : String) :
    directory.utf8ByteSize ≤ (join directory name).utf8ByteSize := by
  by_cases present : directory = ""
  · simp [present]
  · rcases join_cases present name with ⟨_, -, joined⟩ | joined
    · rw [joined, String.utf8ByteSize_append]
      omega
    · rw [joined, String.utf8ByteSize_append, String.utf8ByteSize_append]
      omega

theorem utf8ByteSize_le_within (directory : String) (names : List String) :
    directory.utf8ByteSize ≤ (within directory names).utf8ByteSize := by
  induction names generalizing directory with
  | nil => exact Nat.le_refl _
  | cons name rest ih => exact Nat.le_trans (utf8ByteSize_le_join directory name) (ih _)

/-! The extension of a name is what follows its last point. -/

theorem splitName_of_noPoint (noPoint : '.' ∉ name.toList) : splitName name = (name, none) := by
  have whole : name.toList.reverse.takeWhile (· != '.') = name.toList.reverse := by
    rw [List.takeWhile_eq_self_iff]
    intro letter member
    have differ : letter ≠ '.' := fun equal => noPoint (equal ▸ List.mem_reverse.mp member)
    simpa using differ
  simp [splitName, whole]

theorem splitName_of_lastPoint {suffix : List Char} (noPoint : '.' ∉ suffix) (stem : List Char) :
    splitName (String.ofList (stem ++ '.' :: suffix)) =
      if stem = [] then (String.ofList ('.' :: suffix), none)
      else (String.ofList stem, some (String.ofList suffix)) := by
  have last : (stem ++ '.' :: suffix).reverse.takeWhile (· != '.') = suffix.reverse := by
    have passed : ∀ letter ∈ suffix.reverse, (letter != '.') = true := by
      intro letter member
      have differ : letter ≠ '.' := fun equal => noPoint (equal ▸ List.mem_reverse.mp member)
      simpa using differ
    simp [List.takeWhile_append_of_pos passed]
  have before : (stem ++ '.' :: suffix).length - suffix.length - 1 = stem.length := by
    simp only [List.length_append, List.length_cons]
    omega
  simp only [splitName, String.toList_ofList, last, List.reverse_reverse, before,
    List.take_left]
  by_cases empty : stem = []
  · simp [empty]
  · simp [empty]
    omega

/-- A name that is nothing but the point and the extension has no extension. -/
theorem splitName_extension_iff {suffix : String} (noPoint : '.' ∉ suffix.toList) :
    (splitName name).2 = some suffix ↔ ∃ stem, stem ≠ "" ∧ name = stem ++ "." ++ suffix := by
  constructor
  · intro found
    by_cases point : '.' ∈ name.toList
    · obtain ⟨suffixBack, stemBack, spelled, noPointBack⟩ :=
        List.eq_append_cons_of_mem (List.mem_reverse.mpr point)
      have named : name = String.ofList (stemBack.reverse ++ '.' :: suffixBack.reverse) := by
        rw [← String.toList_inj, String.toList_ofList, ← List.reverse_inj, spelled]
        simp
      rw [named, splitName_of_lastPoint (by simpa using noPointBack)] at found
      split at found
      · cases found
      · next nonempty =>
          cases found
          refine ⟨String.ofList stemBack.reverse, by simpa using nonempty, ?_⟩
          rw [named, ← String.toList_inj]
          simp
    · simp [splitName_of_noPoint point] at found
  · rintro ⟨stem, nonempty, rfl⟩
    have named : stem ++ "." ++ suffix = String.ofList (stem.toList ++ '.' :: suffix.toList) := by
      rw [← String.toList_inj]
      simp
    rw [named, splitName_of_lastPoint noPoint]
    simp [nonempty]

theorem extension?_join (present : directory ≠ "") (isName : IsName name) :
    extension? (join directory name) = (splitName name).2 := by
  simp [extension?, fileName?_join present isName]

end FieldRules.Files.Path

namespace FieldRules.Files

/-! Walking through a directory gives every file once, in the order of the lists of names
that lead to the files, and each file is where its path says. -/

namespace Tree

/-- A tree as a file system can hold it. -/
inductive WellFormed : Tree → Prop
  | file (bytes : ByteArray) : WellFormed (.file bytes)
  | directory {entries : List (String × Tree)} (distinct : Entries.Distinct entries)
      (named : ∀ entry ∈ entries, Path.IsName entry.1)
      (inner : ∀ entry ∈ entries, WellFormed entry.2) : WellFormed (.directory entries)

def under (name : String) (file : List String × ByteArray) : List String × ByteArray :=
  (name :: file.1, file.2)

mutual

/-- The files of a tree with the names that lead to them, in walking order. -/
def files : Tree → List (List String × ByteArray)
  | .file bytes => [([], bytes)]
  | .directory entries => (Entries.sort (filesBelow entries)).flatMap Prod.snd

def filesBelow : List (String × Tree) → List (String × List (List String × ByteArray))
  | [] => []
  | (name, tree) :: rest => (name, tree.files.map (under name)) :: filesBelow rest

end

variable {tree : Tree} {entries : List (String × Tree)} {names : List String}
  {bytes : ByteArray}

theorem filesBelow_eq (entries : List (String × Tree)) :
    filesBelow entries =
      Entries.mapNamed (fun name tree => tree.files.map (under name)) entries := by
  induction entries with
  | nil => rfl
  | cons entry rest ih =>
      rw [filesBelow, ih]
      rfl

theorem files_directory (entries : List (String × Tree)) :
    (directory entries).files =
      (Entries.sort entries).flatMap fun entry => entry.2.files.map (under entry.1) := by
  rw [files, filesBelow_eq, ← Entries.mapNamed_sort, Entries.mapNamed, List.flatMap_map]

theorem filesOfEntries_eq (path : String) (entries : List (String × Tree)) :
    filesOfEntries path entries =
      Entries.mapNamed (fun name tree => filesAt (Path.join path name) tree) entries := by
  induction entries with
  | nil => rfl
  | cons entry rest ih =>
      rw [filesOfEntries, ih]
      rfl

theorem filesAt_directory (path : String) (entries : List (String × Tree)) :
    filesAt path (.directory entries) =
      (Entries.sort entries).flatMap fun entry => filesAt (Path.join path entry.1) entry.2 := by
  rw [filesAt, filesOfEntries_eq, ← Entries.mapNamed_sort, Entries.mapNamed, List.flatMap_map]

/-- The names that lead to a file do not depend on where the walk starts. -/
theorem filesAt_eq (wellFormed : tree.WellFormed) (path : String) :
    filesAt path tree = tree.files.map fun file => (Path.within path file.1, file.2) := by
  induction wellFormed generalizing path with
  | file bytes => simp [filesAt, files, Path.within]
  | @directory entries distinct named inner ih =>
      rw [filesAt_directory, files_directory, List.map_flatMap]
      apply List.flatMap_congr
      intro entry member
      rw [ih entry (Entries.mem_of_mem_sort member), List.map_map]
      rfl

theorem mem_files_iff (wellFormed : tree.WellFormed) :
    (names, bytes) ∈ tree.files ↔ tree.get? names = some (.file bytes) := by
  induction wellFormed generalizing names with
  | file content =>
      cases names with
      | nil => simp [files, get?, eq_comm]
      | cons name rest => simp [files, get?]
  | @directory entries distinct named inner ih =>
      have mem_sort : ∀ entry, entry ∈ Entries.sort entries ↔ entry ∈ entries :=
        fun entry => distinct.sort_perm.mem_iff
      rw [files_directory]
      cases names with
      | nil => simp [get?, under]
      | cons name rest =>
          calc (name :: rest, bytes) ∈ (Entries.sort entries).flatMap _
            _ ↔ ∃ inner, (name, inner) ∈ entries ∧ (rest, bytes) ∈ inner.files := by
                simp [mem_sort, under]
            _ ↔ ∃ inner, (name, inner) ∈ entries ∧ inner.get? rest = some (.file bytes) := by
                apply exists_congr
                intro inner
                exact and_congr_right fun member => ih (name, inner) member
            _ ↔ (directory entries).get? (name :: rest) = some (.file bytes) := by
                simp only [get?, Option.bind_eq_some_iff, distinct.get?_eq_some_iff]

/-- Everything below one entry comes before everything below a later one, and what is below
the same entry is ordered by the rest of the names. -/
theorem files_ordered (wellFormed : tree.WellFormed) :
    tree.files.Pairwise fun first second => first.1 < second.1 := by
  induction wellFormed with
  | file bytes => exact List.pairwise_singleton _ _
  | @directory entries distinct named inner ih =>
      rw [files_directory, List.pairwise_flatMap]
      constructor
      · intro entry member
        rw [List.pairwise_map]
        apply (ih entry (Entries.mem_of_mem_sort member)).imp
        intro first second before
        exact List.cons_lt_cons_iff.mpr (.inr ⟨rfl, before⟩)
      · apply (List.pairwise_map.mp (Entries.ordered_sort entries)).imp
        intro first second before file inFirst other inSecond
        obtain ⟨file, -, rfl⟩ := List.mem_map.mp inFirst
        obtain ⟨other, -, rfl⟩ := List.mem_map.mp inSecond
        exact List.cons_lt_cons_iff.mpr (.inl before)

theorem get?_append (tree : Tree) (first second : List String) :
    tree.get? (first ++ second) = (tree.get? first).bind (·.get? second) := by
  induction first generalizing tree with
  | nil => rfl
  | cons name rest ih =>
      cases tree with
      | file bytes => rfl
      | directory entries =>
          cases found : Entries.get? entries name with
          | none => simp [get?, found]
          | some inner => simp [get?, found, ih]

theorem WellFormed.isName (wellFormed : tree.WellFormed) {inner : Tree}
    (leads : tree.get? names = some inner) {name : String} (member : name ∈ names) :
    Path.IsName name := by
  induction wellFormed generalizing names with
  | file bytes =>
      cases names with
      | nil => exact absurd member List.not_mem_nil
      | cons => cases leads
  | @directory entries distinct named inner ih =>
      cases names with
      | nil => exact absurd member List.not_mem_nil
      | cons first rest =>
          obtain ⟨next, entry, leads⟩ := Option.bind_eq_some_iff.mp leads
          have inEntries := Entries.mem_of_get? entry
          rcases List.mem_cons.mp member with rfl | inRest
          · exact named _ inEntries
          · exact ih _ inEntries leads inRest

theorem WellFormed.get? (wellFormed : tree.WellFormed) {inner : Tree}
    (leads : tree.get? names = some inner) : inner.WellFormed := by
  induction wellFormed generalizing names with
  | file bytes =>
      cases names with
      | nil =>
          cases leads
          exact .file bytes
      | cons => cases leads
  | @directory entries distinct named inside ih =>
      cases names with
      | nil =>
          cases leads
          exact .directory distinct named inside
      | cons first rest =>
          obtain ⟨next, entry, leads⟩ := Option.bind_eq_some_iff.mp leads
          exact ih _ (Entries.mem_of_get? entry) leads

end Tree

namespace Disk

variable {disk : Disk} {path name : String} {place names : List String}
  {entries : List (String × Tree)} {tree inner : Tree}

theorem tree_eq_ok_iff : disk.tree path = .ok tree ↔
    ∃ place, disk.locate path = .ok place ∧ disk.root.get? place = some tree := by
  rw [Disk.tree, bind_eq_ok_iff]
  apply exists_congr
  intro place
  cases disk.root.get? place with
  | none => simp
  | some tree => simp

theorem locate_eq_ok_iff : disk.locate path = .ok place ↔
    path ≠ "" ∧ '\x00' ∉ path.toList ∧ canFollow path ∧
      (Path.parts path).foldlM disk.step (disk.start path) = .ok place := by
  unfold locate
  split
  · next empty => simp [empty]
  · next nonempty =>
      split
      · next nul =>
          have inside : '\x00' ∈ path.toList := by simpa using nul
          simp [inside]
      · next noNul =>
          have outside : '\x00' ∉ path.toList := by simpa using noNul
          split
          · next long =>
              have cut : canFollow path = false := by simpa using long
              simp [cut]
          · next short =>
              have follows : canFollow path = true := by simpa using short
              simp [nonempty, outside, follows]

theorem step_entry (found : disk.root.get? place = some (.directory entries))
    (isName : Path.IsName name) (entry : Entries.get? entries name = some inner) :
    disk.step place name = .ok (place ++ [name]) := by
  simp [step, found, isName.nonempty, isName.notHere, isName.notUp,
    Nat.not_lt.mpr isName.short, Entries.contains, entry]

/-- An empty name, as after a slash at the end, does not lead on. -/
theorem eq_of_step_empty {before : List String} (stepped : disk.step before "" = .ok place) :
    before = place := by
  unfold step at stepped
  split at stepped
  · cases stepped
  · cases stepped
  · simpa using stepped

theorem locate_join (located : disk.locate path = .ok place)
    (found : disk.root.get? place = some (.directory entries)) (isName : Path.IsName name)
    (entry : Entries.get? entries name = some inner) (short : canFollow (Path.join path name)) :
    disk.locate (Path.join path name) = .ok (place ++ [name]) := by
  obtain ⟨present, noNul, -, followed⟩ := locate_eq_ok_iff.mp located
  have entered := step_entry found isName entry
  have sameStart : disk.start (Path.join path name) = disk.start path := by
    rw [start, start, Path.isAbsolute_join present]
  refine locate_eq_ok_iff.mpr ⟨Path.join_ne_empty present name,
    Path.noNul_join present noNul isName, short, ?_⟩
  rw [sameStart]
  rcases Path.parts_join present isName with spelled | ⟨before, slash, spelled⟩
  · rw [spelled, List.foldlM_append, followed]
    simp [entered]
  · rw [slash, List.foldlM_append, bind_eq_ok_iff] at followed
    obtain ⟨reached, followed, stepped⟩ := followed
    obtain rfl : reached = place := eq_of_step_empty (by simpa using stepped)
    rw [spelled, List.foldlM_append, followed]
    simp [entered]

theorem tree_join (found : disk.tree path = .ok (.directory entries))
    (isName : Path.IsName name) (entry : Entries.get? entries name = some inner)
    (short : canFollow (Path.join path name)) :
    disk.tree (Path.join path name) = .ok inner := by
  obtain ⟨place, located, found⟩ := tree_eq_ok_iff.mp found
  refine tree_eq_ok_iff.mpr ⟨_, locate_join located found isName entry short, ?_⟩
  simp [Tree.get?_append, found, Tree.get?, entry]

/-- Whoever can follow the whole path can follow each start of it. -/
theorem tree_within (wellFormed : tree.WellFormed) (found : disk.tree path = .ok tree)
    (leads : tree.get? names = some inner) (short : canFollow (Path.within path names)) :
    disk.tree (Path.within path names) = .ok inner := by
  induction names generalizing path tree with
  | nil =>
      cases leads
      exact found
  | cons name rest ih =>
      cases wellFormed with
      | file bytes => cases leads
      | @directory entries distinct named inner =>
          obtain ⟨next, entry, leads⟩ := Option.bind_eq_some_iff.mp leads
          have member : (name, next) ∈ entries := Entries.mem_of_get? entry
          have shortJoin : canFollow (Path.join path name) := by
            have grows := Path.utf8ByteSize_le_within (Path.join path name) rest
            exact decide_eq_true (Nat.le_trans grows (of_decide_eq_true short))
          have foundNext := tree_join found (named _ member) entry shortJoin
          exact ih (inner _ member) foundNext leads short

theorem readBytes_of_tree {bytes : ByteArray} (found : disk.tree path = .ok (.file bytes)) :
    disk.readBytes path = .ok bytes := by
  rw [readBytes, found]
  rfl

theorem textOf_toUTF8 (text : String) : textOf text.toUTF8 = .ok text := by
  have decoded : String.fromUTF8? text.toUTF8 = some text := by
    rw [String.fromUTF8?, String.toUTF8_eq_toByteArray, dif_pos text.isValidUTF8]
    rfl
  rw [textOf, decoded]

theorem readText_of_tree {text : String} (found : disk.tree path = .ok (.file text.toUTF8)) :
    disk.isFile path ∧ disk.readText path = .ok text := by
  refine ⟨by rw [isFile, found], ?_⟩
  rw [readText, readBytes_of_tree found]
  exact textOf_toUTF8 text

end Disk

end FieldRules.Files
