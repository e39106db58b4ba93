import FieldRules.Proofs.Files.Tree

namespace FieldRules

namespace Files

/-! A file that is written is found again where it was written, and no directory goes away. -/

namespace Tree

variable {tree : Tree} {place names : List String} {entries : List (String × Tree)}

theorem get?_put_self (tree : Tree) (place : List String) (new : Tree) :
    (tree.put place new).get? place = some new := by
  induction place generalizing tree with
  | nil =>
      cases tree with
      | file bytes => rfl
      | directory entries => rfl
  | cons name rest ih =>
      cases tree with
      | file bytes => simp [put, get?, Entries.get?, ih]
      | directory entries => simp [put, get?, Entries.get?_putSorted, ih]

theorem get?_file_ne_directory {bytes : ByteArray} (names : List String) :
    (file bytes).get? names ≠ some (.directory entries) := by
  cases names with
  | nil => exact nofun
  | cons name rest => exact nofun

/-- Where a file is put, the directories of the tree keep their names. -/
theorem get?_put_directory (notDirectory : ∀ inner, tree.get? place ≠ some (.directory inner))
    (new : Tree) (found : tree.get? names = some (.directory entries)) :
    ∃ kept, (tree.put place new).get? names = some (.directory kept) ∧
      ∀ name, Entries.contains entries name → Entries.contains kept name := by
  induction place generalizing tree names with
  | nil =>
      cases tree with
      | file bytes => exact absurd found (get?_file_ne_directory names)
      | directory inner => exact absurd rfl (notDirectory inner)
  | cons name rest ih =>
      cases tree with
      | file bytes => exact absurd found (get?_file_ne_directory names)
      | directory outer =>
          cases names with
          | nil =>
              cases found
              refine ⟨_, rfl, fun other contained => ?_⟩
              rw [Entries.contains, Entries.get?_putSorted]
              split
              · rfl
              · exact contained
          | cons first more =>
              obtain ⟨inner, entry, leads⟩ := Option.bind_eq_some_iff.mp found
              simp only [put, get?, Entries.get?_putSorted]
              by_cases same : first = name
              · subst same
                rw [if_pos rfl, entry, Option.getD_some]
                refine ih (fun below isDirectory => notDirectory below ?_) leads
                simp [get?, entry, isDirectory]
              · rw [if_neg same, entry]
                exact ⟨entries, leads, fun _ contained => contained⟩

end Tree

namespace Path

/-- The last name of a path, where it ends the way that the path does. -/
theorem parts_of_endsWith {path suffix : String} (undivided : '/' ∉ suffix.toList)
    (ends : path.endsWith suffix) :
    ∃ before stem, parts path = before ++ [stem ++ suffix] ∧ '/' ∉ (stem ++ suffix).toList ∧
      (stem ++ suffix).toList <:+ path.toList := by
  obtain ⟨front, spelled⟩ := suffix_of_endsWith ends
  by_cases divided : '/' ∈ front
  · obtain ⟨stemBack, beforeBack, back, noSlash⟩ :=
      List.eq_append_cons_of_mem (List.mem_reverse.mpr divided)
    have named : path = String.ofList beforeBack.reverse ++ "/" ++
        (String.ofList stemBack.reverse ++ suffix) := by
      have split := congrArg List.reverse back
      rw [List.reverse_reverse] at split
      rw [← String.toList_inj, ← spelled, split]
      simp
    have stemUndivided : '/' ∉ (String.ofList stemBack.reverse ++ suffix).toList := by
      simp [noSlash, undivided]
    refine ⟨parts (String.ofList beforeBack.reverse), String.ofList stemBack.reverse, ?_,
      stemUndivided, ?_⟩
    · rw [named, parts_divided, parts_of_undivided stemUndivided]
    · exact ⟨beforeBack.reverse ++ ['/'], by rw [named]; simp⟩
  · have named : path = String.ofList front ++ suffix := by
      rw [← String.toList_inj, ← spelled]
      simp
    have wholeUndivided : '/' ∉ path.toList := by
      rw [← spelled]
      simp [divided, undivided]
    refine ⟨[], String.ofList front, ?_, named ▸ wholeUndivided, named ▸ List.suffix_refl _⟩
    rw [parts_of_undivided wholeUndivided, ← named]
    rfl

/-- A path whose last name is one that can be given to a file. -/
structure EndsIn (path : String) (before : List String) (name : String) : Prop where
  spelled : parts path = before ++ [name]
  nonempty : name ≠ ""
  notHere : name ≠ "."
  notUp : name ≠ ".."

variable {path name : String} {before : List String}

theorem EndsIn.fileName? (ends : EndsIn path before name) : fileName? path = some name := by
  simp [Path.fileName?, ends.spelled, List.filter_append, ends.nonempty, ends.notHere,
    ends.notUp]

theorem EndsIn.present (ends : EndsIn path before name) : path ≠ "" := by
  rintro rfl
  have last := congrArg List.getLast? ends.spelled
  rw [List.getLast?_concat, parts_of_undivided (by simp)] at last
  exact ends.nonempty (Option.some.inj last).symm

end Path

namespace Disk

variable {disk saved : Disk} {path text name : String} {place reached names before : List String}
  {entries : List (String × Tree)} {new : Tree}

def holding (disk : Disk) (place : List String) (tree : Tree) : Disk :=
  { disk with root := disk.root.put place tree }

theorem step_holding (notDirectory : ∀ inner, disk.root.get? names ≠ some (.directory inner))
    (new : Tree) (stepped : disk.step place name = .ok reached) :
    (disk.holding names new).step place name = .ok reached := by
  cases found : disk.root.get? place with
  | none => simp [step, found] at stepped
  | some tree =>
      cases tree with
      | file bytes => simp [step, found] at stepped
      | directory entries =>
          obtain ⟨kept, stays, contains⟩ := Tree.get?_put_directory notDirectory new found
          simp only [step, holding, found, stays] at stepped ⊢
          by_cases contained : Entries.contains entries name
          · simpa only [contained, contains name contained] using stepped
          · simp only [contained] at stepped
            split at stepped
            · next isHere => rwa [if_pos isHere]
            · next notHere =>
                split at stepped
                · next isUp => rwa [if_neg notHere, if_pos isUp]
                · split at stepped
                  · cases stepped
                  · cases stepped

theorem foldlM_step_holding
    (notDirectory : ∀ inner, disk.root.get? names ≠ some (.directory inner)) (new : Tree)
    {steps : List String} (followed : steps.foldlM disk.step place = .ok reached) :
    steps.foldlM (disk.holding names new).step place = .ok reached := by
  induction steps generalizing place with
  | nil => exact followed
  | cons name steps ih =>
      rw [List.foldlM_cons, bind_eq_ok_iff] at followed ⊢
      obtain ⟨next, stepped, followed⟩ := followed
      exact ⟨next, step_holding notDirectory new stepped, ih followed⟩

theorem step_directory (nonempty : name ≠ "") (notHere : name ≠ ".") (notUp : name ≠ "..")
    (entered : disk.root.get? place = some (.directory entries)) :
    disk.step place name =
      if longestName < name.utf8ByteSize then .error .nameTooLong
      else if Entries.contains entries name then .ok (place ++ [name])
      else .error .notFound := by
  simp [step, entered, nonempty, notHere, notUp]

/-- What a path leads to is what the directory before its last name has under that name. -/
theorem tree_of_parent (ends : Path.EndsIn path before name) (noNul : '\x00' ∉ path.toList)
    (follows : canFollow path) (walked : before.foldlM disk.step (disk.start path) = .ok place)
    (entered : disk.root.get? place = some (.directory entries)) :
    disk.tree path =
      if longestName < name.utf8ByteSize then .error .nameTooLong
      else match Entries.get? entries name with
        | some inner => .ok inner
        | none => .error .notFound := by
  have located : disk.locate path = disk.step place name := by
    rw [locate, if_neg ends.present, if_neg (by simpa using noNul), if_neg (by simp [follows]),
      ends.spelled, List.foldlM_append, walked]
    simp
  have leads : disk.root.get? (place ++ [name]) = Entries.get? entries name := by
    simp [Tree.get?_append, entered, Tree.get?]
  rw [tree, located, step_directory ends.nonempty ends.notHere ends.notUp entered]
  split
  · rfl
  · cases entry : Entries.get? entries name with
    | none => simp [Entries.contains, entry]
    | some inner => simp [Entries.contains, entry, leads]

/-- The place for a file at the end of a path, in a directory that is there. -/
structure OpenPlace (disk : Disk) (path : String) (before place : List String) (name : String) :
    Prop where
  ends : Path.EndsIn path before name
  short : name.utf8ByteSize ≤ longestName
  noNul : '\x00' ∉ path.toList
  follows : canFollow path
  walked : before.foldlM disk.step (disk.start path) = .ok place
  entered : ∃ entries, disk.root.get? place = some (.directory entries)
  notDirectory : ∀ inner, disk.root.get? (place ++ [name]) ≠ some (.directory inner)

theorem OpenPlace.tree_holding (isOpen : OpenPlace disk path before place name) (new : Tree) :
    (disk.holding (place ++ [name]) new).tree path = .ok new := by
  obtain ⟨entries, entered⟩ := isOpen.entered
  obtain ⟨kept, stays, -⟩ := Tree.get?_put_directory isOpen.notDirectory new entered
  have entry : Entries.get? kept name = some new := by
    have holds := Tree.get?_put_self disk.root (place ++ [name]) new
    rw [Tree.get?_append, stays] at holds
    simpa [Tree.get?] using holds
  rw [tree_of_parent isOpen.ends isOpen.noNul isOpen.follows
    (foldlM_step_holding isOpen.notDirectory new isOpen.walked) stays,
    if_neg (Nat.not_lt.mpr isOpen.short), entry]

theorem openPlace_of_tree (ends : Path.EndsIn path before name) (noNul : '\x00' ∉ path.toList)
    (follows : canFollow path) (walked : before.foldlM disk.step (disk.start path) = .ok place)
    (entered : disk.root.get? place = some (.directory entries))
    (fits : disk.tree path ≠ .error .nameTooLong)
    (noDirectory : ∀ inner, disk.tree path ≠ .ok (.directory inner)) :
    OpenPlace disk path before place name := by
  have leads := tree_of_parent ends noNul follows walked entered
  have short : name.utf8ByteSize ≤ longestName := by
    by_contra long
    exact fits (leads.trans (if_pos (Nat.not_le.mp long)))
  refine ⟨ends, short, noNul, follows, walked, ⟨entries, entered⟩, fun inner isDirectory => ?_⟩
  have entry : Entries.get? entries name = some (.directory inner) := by
    simpa [Tree.get?_append, entered, Tree.get?] using isDirectory
  refine noDirectory inner (leads.trans ?_)
  rw [if_neg (Nat.not_lt.mpr short), entry]

theorem directory_of_step (stepped : disk.step place name = .ok reached) :
    ∃ entries, disk.root.get? place = some (.directory entries) := by
  cases found : disk.root.get? place with
  | none => simp [step, found] at stepped
  | some tree =>
      cases tree with
      | file bytes => simp [step, found] at stepped
      | directory entries => exact ⟨entries, rfl⟩

theorem notFound_of_tree (present : path ≠ "") (missing : disk.tree path = .error .notFound) :
    '\x00' ∉ path.toList ∧ canFollow path := by
  rw [tree, locate, if_neg present] at missing
  split at missing
  · cases missing
  · next noNul =>
      split at missing
      · cases missing
      · next follows => exact ⟨by simpa using noNul, by simpa using follows⟩

/-- A text is written to a file that is there, or to a new one in a directory that is there. -/
theorem openPlace_of_writeText (ends : Path.EndsIn path before name)
    (wrote : disk.writeText path text = .ok saved) :
    ∃ place, OpenPlace disk path before place name ∧
      saved = disk.holding (place ++ [name]) (.file text.toUTF8) := by
  rw [writeText] at wrote
  split at wrote
  · cases wrote
  · next bytes found =>
      obtain ⟨reached, located, -⟩ := tree_eq_ok_iff.mp found
      obtain ⟨-, noNul, follows, followed⟩ := locate_eq_ok_iff.mp located
      rw [ends.spelled, List.foldlM_append, bind_eq_ok_iff] at followed
      obtain ⟨place, walked, stepped⟩ := followed
      have stepped : disk.step place name = .ok reached := by simpa using stepped
      obtain ⟨entries, entered⟩ := directory_of_step stepped
      have isOpen := openPlace_of_tree ends noNul follows walked entered
        (by simp [found]) (by simp [found])
      rw [step_directory ends.nonempty ends.notHere ends.notUp entered,
        if_neg (Nat.not_lt.mpr isOpen.short)] at stepped
      split at stepped
      · cases stepped
        rw [located] at wrote
        cases wrote
        exact ⟨place, isOpen, rfl⟩
      · cases stepped
  · next missing =>
      rw [if_neg ends.present] at wrote
      have names : (Path.parts path).reverse.dropWhile (· == "") = name :: before.reverse := by
        simp [ends.spelled, ends.nonempty]
      simp only [names, List.tail_cons, List.reverse_reverse, List.headD_cons] at wrote
      obtain ⟨place, walked, wrote⟩ := bind_eq_ok_iff.mp wrote
      obtain ⟨here, stayed, wrote⟩ := bind_eq_ok_iff.mp wrote
      obtain ⟨entries, entered⟩ := directory_of_step stayed
      obtain rfl : place = here := by simpa [step, entered] using stayed
      obtain ⟨noNul, follows⟩ := notFound_of_tree ends.present missing
      split at wrote
      · cases wrote
      · cases wrote
        exact ⟨place, openPlace_of_tree ends noNul follows walked entered (by simp [missing])
          (by simp [missing]), rfl⟩
  · cases wrote

theorem readText_of_writeText (ends : Path.EndsIn path before name)
    (wrote : disk.writeText path text = .ok saved) :
    saved.isFile path ∧ saved.readText path = .ok text := by
  obtain ⟨place, isOpen, rfl⟩ := openPlace_of_writeText ends wrote
  exact readText_of_tree (isOpen.tree_holding (.file text.toUTF8))

/-- A name by itself is looked for in the working directory. -/
theorem tree_name (isName : Path.IsName name) (entries : List (String × Tree)) :
    (⟨.directory entries, []⟩ : Disk).tree name =
      match Entries.get? entries name with
      | some inner => .ok inner
      | none => .error .notFound := by
  have ends : Path.EndsIn name [] name :=
    ⟨Path.parts_of_undivided isName.undivided, isName.nonempty, isName.notHere, isName.notUp⟩
  have follows : canFollow name := by
    have short := isName.short
    exact decide_eq_true (short.trans (by decide))
  have walked : [].foldlM (⟨.directory entries, []⟩ : Disk).step
      ((⟨.directory entries, []⟩ : Disk).start name) = .ok [] := by
    simp [start]
  rw [tree_of_parent ends isName.noNul follows walked rfl, if_neg (Nat.not_lt.mpr isName.short)]

theorem writeText_name (isName : Path.IsName name) {entries : List (String × Tree)}
    (isNew : Entries.get? entries name = none) (text : String) :
    writeText ⟨.directory entries, []⟩ name text =
      .ok ⟨.directory (Entries.putSorted entries name (.file text.toUTF8)), []⟩ := by
  have missing := tree_name isName entries
  rw [isNew] at missing
  have names : (Path.parts name).reverse.dropWhile (· == "") = [name] := by
    simp [Path.parts_of_undivided isName.undivided, isName.nonempty]
  have undivided : name.endsWith "/" = false := by
    rw [Bool.eq_false_iff]
    exact fun ends => isName.undivided ((Path.suffix_of_endsWith ends).subset (by simp))
  rw [writeText, missing]
  simp [isName.nonempty, names, undivided, start, step, Tree.get?, Tree.put]

end Disk

end Files

end FieldRules
