import FieldRules.Entries
import Mathlib.Data.List.Nodup
import Mathlib.Data.List.Permutation

namespace FieldRules.Entries

/-! Entries that are put in one after the other: the first time a name comes decides
its place, the last time decides its value. -/

/-- The value that a name has where it comes last. -/
def last? (pairs : List (String × α)) (name : String) : Option α :=
  get? pairs.reverse name

theorem get?_append (first second : Entries α) (name : String) :
    get? (first ++ second) name = (get? first name).or (get? second name) := by
  induction first with
  | nil => simp
  | cons entry rest ih =>
      obtain ⟨key, value⟩ := entry
      by_cases equal : name = key
      · simp [equal]
      · simp [equal, ih]

theorem get?_eq_none_iff {entries : Entries α} {name : String} :
    entries.get? name = none ↔ name ∉ entries.names := by
  induction entries with
  | nil => simp
  | cons entry rest ih =>
      obtain ⟨key, value⟩ := entry
      by_cases equal : name = key
      · simp [equal]
      · simp [equal, ih]

theorem mem_of_get? {entries : Entries α} {name : String} {value : α}
    (found : entries.get? name = some value) : (name, value) ∈ entries := by
  induction entries with
  | nil => simp at found
  | cons entry rest ih =>
      obtain ⟨key, old⟩ := entry
      by_cases equal : name = key
      · subst equal
        rw [get?_cons_self, Option.some.injEq] at found
        exact found ▸ List.mem_cons_self
      · rw [get?_cons_of_ne equal] at found
        exact List.mem_cons_of_mem _ (ih found)

theorem Distinct.tail {entry : String × α} {rest : Entries α}
    (distinct : Distinct (entry :: rest)) : Distinct rest :=
  (List.nodup_cons.mp distinct).2

theorem Distinct.get?_of_mem {entries : Entries α} (distinct : entries.Distinct)
    {name : String} {value : α} (member : (name, value) ∈ entries) :
    entries.get? name = some value := by
  induction entries with
  | nil => simp at member
  | cons entry rest ih =>
      obtain ⟨key, old⟩ := entry
      rcases List.mem_cons.mp member with equal | inRest
      · cases equal
        simp [get?]
      · have absent : key ∉ names rest := (List.nodup_cons.mp distinct).1
        have present : name ∈ names rest := List.mem_map_of_mem inRest
        have differ : name ≠ key := fun equal => absent (equal ▸ present)
        rw [get?_cons_of_ne differ, ih distinct.tail inRest]

theorem Distinct.get?_eq_some_iff {entries : Entries α} (distinct : entries.Distinct)
    {name : String} {value : α} :
    entries.get? name = some value ↔ (name, value) ∈ entries :=
  ⟨mem_of_get?, distinct.get?_of_mem⟩

/-- Entries with the same names in the same order and the same values are the same. -/
theorem Distinct.ext {first second : Entries α} (distinct : first.Distinct)
    (sameNames : first.names = second.names)
    (sameValues : ∀ name, first.get? name = second.get? name) : first = second := by
  induction first generalizing second with
  | nil =>
      cases second with
      | nil => rfl
      | cons entry rest => simp at sameNames
  | cons entry rest ih =>
      cases second with
      | nil => simp at sameNames
      | cons entryB restB =>
          obtain ⟨key, value⟩ := entry
          obtain ⟨keyB, valueB⟩ := entryB
          obtain ⟨rfl, restNames⟩ : key = keyB ∧ names rest = names restB := by
            simpa using sameNames
          have absent : key ∉ names rest := (List.nodup_cons.mp distinct).1
          have equalValues : value = valueB := by
            simpa using sameValues key
          have equalRests : rest = restB := by
            apply ih distinct.tail restNames
            intro name
            by_cases equal : name = key
            · rw [equal, get?_eq_none_iff.mpr absent,
                get?_eq_none_iff.mpr (restNames ▸ absent)]
            · simpa [equal] using sameValues name
          rw [equalValues, equalRests]

@[simp] theorem names_mapValues (f : α → β) (entries : Entries α) :
    (entries.mapValues f).names = entries.names := by
  simp [mapValues, names]

@[simp] theorem get?_mapValues (f : α → β) (entries : Entries α) (name : String) :
    (entries.mapValues f).get? name = (entries.get? name).map f := by
  induction entries with
  | nil => rfl
  | cons entry rest ih =>
      obtain ⟨key, value⟩ := entry
      by_cases equal : name = key
      · simp [equal]
      · simp [equal, ih]

theorem mapValues_id (entries : Entries α) : entries.mapValues id = entries :=
  List.map_id entries

theorem mapValues_put (f : α → β) (entries : Entries α) (name : String) (value : α) :
    (entries.put name value).mapValues f = (entries.mapValues f).put name (f value) := by
  induction entries with
  | nil => rfl
  | cons entry rest ih =>
      obtain ⟨key, old⟩ := entry
      by_cases equal : name = key
      · simp [equal]
      · simp [equal, ih]

/-! Putting in a list of pairs. -/

theorem putAll_cons (entries : Entries α) (pair : String × α) (rest : List (String × α)) :
    entries.putAll (pair :: rest) = (entries.put pair.1 pair.2).putAll rest := rfl

theorem putAll_append (entries : Entries α) (first second : List (String × α)) :
    entries.putAll (first ++ second) = (entries.putAll first).putAll second :=
  List.foldl_append

theorem mapValues_putAll (f : α → β) (entries : Entries α) (pairs : List (String × α)) :
    (entries.putAll pairs).mapValues f = (entries.mapValues f).putAll (mapValues f pairs) := by
  induction pairs generalizing entries with
  | nil => rfl
  | cons pair rest ih =>
      rw [putAll_cons, ih, mapValues_put]
      rfl

theorem mapValues_ofList (f : α → β) (pairs : List (String × α)) :
    (ofList pairs).mapValues f = ofList (mapValues f pairs) := mapValues_putAll f [] pairs

theorem get?_putAll (entries : Entries α) (pairs : List (String × α)) (name : String) :
    (entries.putAll pairs).get? name = (last? pairs name).or (entries.get? name) := by
  induction pairs generalizing entries with
  | nil => rfl
  | cons pair rest ih =>
      obtain ⟨key, value⟩ := pair
      rw [putAll_cons, ih, last?, last?, List.reverse_cons, get?_append, get?_put,
        Option.or_assoc]
      by_cases equal : name = key
      · simp [equal]
      · simp [equal]

theorem get?_ofList (pairs : List (String × α)) (name : String) :
    (ofList pairs).get? name = last? pairs name := by
  simp [ofList, get?_putAll]

theorem names_putAll (entries : Entries α) (pairs : List (String × α)) :
    (entries.putAll pairs).names =
      entries.names ++ ((names pairs).removeAll entries.names).eraseDups := by
  induction pairs generalizing entries with
  | nil => simp [putAll, names, List.removeAll]
  | cons pair rest ih =>
      obtain ⟨key, value⟩ := pair
      rw [putAll_cons, ih, names_put]
      change _ = entries.names ++ ((key :: names rest).removeAll entries.names).eraseDups
      by_cases known : key ∈ entries.names
      · simp [List.cons_removeAll, known]
      · have others : (names rest).removeAll (entries.names ++ [key]) =
            ((names rest).removeAll entries.names).filter (fun name => !name == key) := by
          simp [List.removeAll, List.filter_filter, BEq.beq, Bool.and_comm]
        simp [others, List.cons_removeAll, List.eraseDups_cons, known]

/-- Names stand in the order in which they first came. -/
theorem names_ofList (pairs : List (String × α)) :
    (ofList pairs).names = (names pairs).eraseDups := by
  rw [ofList, names_putAll]
  simp [names, List.removeAll]

theorem Distinct.putAll {entries : Entries α} (distinct : entries.Distinct)
    (pairs : List (String × α)) : (entries.putAll pairs).Distinct := by
  induction pairs generalizing entries with
  | nil => exact distinct
  | cons pair rest ih => exact ih (distinct.put pair.1 pair.2)

theorem distinct_nil : Distinct ([] : Entries α) := List.nodup_nil

theorem distinct_ofList (pairs : List (String × α)) : (ofList pairs).Distinct :=
  distinct_nil.putAll pairs

@[simp] theorem last?_append_singleton (pairs : List (String × α)) (pair : String × α)
    (name : String) :
    last? (pairs ++ [pair]) name = if name = pair.1 then some pair.2 else last? pairs name := by
  simp [last?, get?]

theorem last?_eq_none_iff {pairs : List (String × α)} {name : String} :
    last? pairs name = none ↔ name ∉ names pairs := by
  simp [last?, get?_eq_none_iff, names]

theorem mem_of_last? {pairs : List (String × α)} {name : String} {value : α}
    (found : last? pairs name = some value) : (name, value) ∈ pairs :=
  List.mem_reverse.mp (mem_of_get? found)

/-- A pair that is not the last of its name is not kept. -/
theorem mem_ofList_iff {pairs : List (String × α)} {name : String} {value : α} :
    (name, value) ∈ ofList pairs ↔ last? pairs name = some value := by
  rw [← (distinct_ofList pairs).get?_eq_some_iff, get?_ofList]

theorem Distinct.last?_eq {entries : Entries α} (distinct : entries.Distinct)
    (name : String) : last? entries name = entries.get? name := by
  have reversed : Distinct entries.reverse := by
    simpa [Distinct, names] using distinct
  ext value
  simp [last?, reversed.get?_eq_some_iff, distinct.get?_eq_some_iff]

theorem eraseDups_of_nodup {names : List String} (distinct : names.Nodup) :
    names.eraseDups = names := by
  induction names with
  | nil => rfl
  | cons name rest ih =>
      obtain ⟨absent, restDistinct⟩ := List.nodup_cons.mp distinct
      have kept : rest.filter (fun other => !other == name) = rest := by
        rw [List.filter_eq_self]
        intro other member
        have differ : other ≠ name := fun equal => absent (equal ▸ member)
        simpa using differ
      rw [List.eraseDups_cons, kept, ih restDistinct]

theorem Distinct.ofList_eq {entries : Entries α} (distinct : entries.Distinct) :
    ofList entries = entries := by
  have sameNames : (ofList entries).names = entries.names := by
    rw [names_ofList, eraseDups_of_nodup distinct]
  exact (distinct_ofList entries).ext sameNames fun name => by
    rw [get?_ofList, distinct.last?_eq]

/-! Sorting changes nothing but the order, if no name is repeated. -/

theorem get?_putSorted (entries : Entries α) (name other : String) (value : α) :
    (entries.putSorted name value).get? other =
      if other = name then some value else entries.get? other := by
  induction entries with
  | nil => rfl
  | cons entry rest ih =>
      obtain ⟨held, old⟩ := entry
      rw [putSorted]
      split
      · next same =>
          subst same
          by_cases isName : other = name
          · simp [isName]
          · simp [isName]
      · split
        · rfl
        · next differs _ =>
            by_cases isHeld : other = held
            · subst isHeld
              simp [Ne.symm differs]
            · simp [isHeld, ih]

theorem putSorted_perm {entries : Entries α} {name : String} (absent : name ∉ entries.names)
    (value : α) : (entries.putSorted name value).Perm ((name, value) :: entries) := by
  induction entries with
  | nil => exact List.Perm.refl _
  | cons entry rest ih =>
      obtain ⟨key, old⟩ := entry
      have differ : name ≠ key := fun equal => absent (by simp [names, equal])
      have restAbsent : name ∉ names rest := fun present =>
        absent (List.mem_cons_of_mem _ present)
      by_cases before : name < key
      · simp [putSorted, differ, before]
      · simp only [putSorted, differ, before, if_false]
        exact ((ih restAbsent).cons _).trans (List.Perm.swap _ _ _)

private theorem foldl_putSorted_perm {entries : Entries α} {pairs : List (String × α)}
    (distinct : Distinct (entries ++ pairs)) :
    (pairs.foldl (fun entries entry => putSorted entries entry.1 entry.2) entries).Perm
      (entries ++ pairs) := by
  induction pairs generalizing entries with
  | nil => simp
  | cons pair rest ih =>
      have moved : (pair :: (entries ++ rest)).Perm (entries ++ pair :: rest) :=
        List.perm_middle.symm
      have movedDistinct : Distinct (pair :: (entries ++ rest)) :=
        (moved.map Prod.fst).nodup_iff.mpr distinct
      have absent : pair.1 ∉ entries.names := by
        intro present
        apply (List.nodup_cons.mp movedDistinct).1
        rw [List.map_append]
        exact List.mem_append_left _ present
      have put := (putSorted_perm absent pair.2).append_right rest
      have putDistinct : Distinct (putSorted entries pair.1 pair.2 ++ rest) :=
        (put.map Prod.fst).nodup_iff.mpr movedDistinct
      exact (ih putDistinct).trans (put.trans moved)

theorem Distinct.sort_perm {entries : Entries α} (distinct : entries.Distinct) :
    (sort entries).Perm entries :=
  foldl_putSorted_perm distinct

/-! Sorting looks at the names alone. -/

/-- Changes each value, which may look at its name. -/
def mapNamed (f : String → α → β) (entries : Entries α) : Entries β :=
  entries.map fun entry => (entry.1, f entry.1 entry.2)

theorem mapNamed_putSorted (f : String → α → β) (entries : Entries α) (name : String)
    (value : α) : (entries.putSorted name value).mapNamed f =
      (entries.mapNamed f).putSorted name (f name value) := by
  induction entries with
  | nil => rfl
  | cons entry rest ih =>
      obtain ⟨key, old⟩ := entry
      simp only [mapNamed] at ih
      by_cases equal : name = key
      · simp [mapNamed, putSorted, equal]
      · by_cases before : name < key
        · simp [mapNamed, putSorted, equal, before]
        · simp [mapNamed, putSorted, equal, before, ih]

private theorem mapNamed_foldl_putSorted (f : String → α → β) (entries : Entries α)
    (pairs : List (String × α)) :
    mapNamed f (pairs.foldl (fun entries entry => putSorted entries entry.1 entry.2) entries) =
      (mapNamed f pairs).foldl (fun entries entry => putSorted entries entry.1 entry.2)
        (mapNamed f entries) := by
  induction pairs generalizing entries with
  | nil => rfl
  | cons pair rest ih =>
      rw [List.foldl_cons, ih, mapNamed_putSorted]
      rfl

theorem mapNamed_sort (f : String → α → β) (pairs : List (String × α)) :
    (sort pairs).mapNamed f = sort (mapNamed f pairs) :=
  mapNamed_foldl_putSorted f [] pairs

theorem mapValues_sort (f : α → β) (pairs : List (String × α)) :
    (sort pairs).mapValues f = sort (mapValues f pairs) := mapNamed_sort (fun _ => f) pairs

/-! Sorting again changes nothing. -/

/-- The names ascend by code point, so none is repeated. -/
def Ordered (entries : Entries α) : Prop := entries.names.Pairwise (· < ·)

theorem mem_putSorted {entries : Entries α} {name : String} {value : α} {entry : String × α}
    (member : entry ∈ entries.putSorted name value) :
    entry = (name, value) ∨ entry ∈ entries := by
  induction entries with
  | nil => exact Or.inl (List.mem_singleton.mp member)
  | cons first rest ih =>
      obtain ⟨key, old⟩ := first
      unfold putSorted at member
      split at member
      · rcases List.mem_cons.mp member with here | inRest
        · exact Or.inl here
        · exact Or.inr (List.mem_cons_of_mem _ inRest)
      · split at member
        · exact List.mem_cons.mp member
        · rcases List.mem_cons.mp member with rfl | inRest
          · exact Or.inr List.mem_cons_self
          · exact (ih inRest).imp_right (List.mem_cons_of_mem _)

theorem Ordered.putSorted {entries : Entries α} (ordered : entries.Ordered) (name : String)
    (value : α) : (entries.putSorted name value).Ordered := by
  induction entries with
  | nil => exact List.pairwise_singleton _ _
  | cons first rest ih =>
      obtain ⟨key, old⟩ := first
      obtain ⟨least, restOrdered⟩ := List.pairwise_cons.mp ordered
      unfold Entries.putSorted
      split
      · next equal =>
          subst equal
          exact List.pairwise_cons.mpr ⟨least, restOrdered⟩
      · next differ =>
          split
          · next before =>
              refine List.pairwise_cons.mpr ⟨?_, ordered⟩
              intro other member
              rcases List.mem_cons.mp member with rfl | inRest
              · exact before
              · exact String.lt_trans before (least other inRest)
          · next notBefore =>
              refine List.pairwise_cons.mpr ⟨?_, ih restOrdered⟩
              intro other member
              obtain ⟨entry, inPut, rfl⟩ := List.mem_map.mp member
              rcases mem_putSorted inPut with rfl | inRest
              · exact Std.lt_of_le_of_ne (String.not_lt.mp notBefore) (Ne.symm differ)
              · exact least entry.1 (List.mem_map_of_mem inRest)

private theorem foldl_putSorted_ordered {entries : Entries α} (ordered : entries.Ordered)
    (pairs : List (String × α)) :
    Ordered (pairs.foldl (fun entries entry => putSorted entries entry.1 entry.2) entries) := by
  induction pairs generalizing entries with
  | nil => exact ordered
  | cons pair rest ih => exact ih (ordered.putSorted pair.1 pair.2)

theorem ordered_sort (pairs : List (String × α)) : (sort pairs).Ordered :=
  foldl_putSorted_ordered (show Ordered ([] : Entries α) from List.Pairwise.nil) pairs

private theorem mem_foldl_putSorted {entries : Entries α} {pairs : List (String × α)}
    {entry : String × α}
    (member : entry ∈ pairs.foldl (fun entries entry => putSorted entries entry.1 entry.2)
      entries) : entry ∈ entries ∨ entry ∈ pairs := by
  induction pairs generalizing entries with
  | nil => exact Or.inl member
  | cons pair rest ih =>
      rcases ih member with inPut | inRest
      · rcases mem_putSorted inPut with rfl | before
        · exact Or.inr List.mem_cons_self
        · exact Or.inl before
      · exact Or.inr (List.mem_cons_of_mem _ inRest)

theorem mem_of_mem_sort {pairs : List (String × α)} {entry : String × α}
    (member : entry ∈ sort pairs) : entry ∈ pairs :=
  (mem_foldl_putSorted member).resolve_left List.not_mem_nil

theorem putSorted_of_last {entries : Entries α} {name : String}
    (last : ∀ other ∈ entries.names, other < name) (value : α) :
    entries.putSorted name value = entries ++ [(name, value)] := by
  induction entries with
  | nil => rfl
  | cons first rest ih =>
      obtain ⟨key, old⟩ := first
      have before : key < name := last key List.mem_cons_self
      have differ : name ≠ key := fun equal => String.lt_irrefl key (equal ▸ before)
      have notAfter : ¬ name < key := String.lt_asymm before
      rw [Entries.putSorted, if_neg differ, if_neg notAfter,
        ih fun other member => last other (List.mem_cons_of_mem _ member)]
      rfl

private theorem foldl_putSorted_of_ordered {entries more : Entries α}
    (ordered : Ordered (entries ++ more)) :
    more.foldl (fun entries entry => putSorted entries entry.1 entry.2) entries =
      entries ++ more := by
  induction more generalizing entries with
  | nil => exact (List.append_nil entries).symm
  | cons pair rest ih =>
      have last : ∀ other ∈ entries.names, other < pair.1 := by
        have apart : (entries.names ++ pair.1 :: names rest).Pairwise (· < ·) := by
          simpa only [Ordered, names, List.map_append, List.map_cons] using ordered
        intro other member
        exact (List.pairwise_append.mp apart).2.2 other member pair.1 List.mem_cons_self
      have moved : entries ++ pair :: rest = (entries ++ [pair]) ++ rest := by
        rw [List.append_assoc, List.singleton_append]
      rw [List.foldl_cons, putSorted_of_last last, moved]
      exact ih (moved ▸ ordered)

theorem Ordered.sort_eq {entries : Entries α} (ordered : entries.Ordered) :
    sort entries = entries :=
  foldl_putSorted_of_ordered (show Ordered ([] ++ entries) from ordered)

end FieldRules.Entries
