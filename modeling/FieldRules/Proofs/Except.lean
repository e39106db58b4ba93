import Mathlib.Data.List.Forall2

namespace FieldRules

/-! Computations that may fail, one after the other and along a list. -/

universe u v w x

variable {ε : Type u} {δ : Type v} {α β : Type w} {ι : Type x}

@[simp] theorem ok_bind (value : α) (next : α → Except ε β) :
    (Except.ok value >>= next) = next value := rfl

@[simp] theorem error_bind (cause : ε) (next : α → Except ε β) :
    (Except.error cause >>= next) = .error cause := rfl

@[simp] theorem pure_eq_ok (value : α) : (pure value : Except ε α) = .ok value := rfl

@[simp] theorem bind_ok (first : Except ε α) : (first >>= fun value => .ok value) = first :=
  bind_pure first

@[simp] theorem throw_eq_error (cause : ε) : (throw cause : Except ε α) = .error cause := rfl

@[simp] theorem map_ok (f : α → ι) (value : α) :
    (Except.ok value : Except ε α).map f = .ok (f value) := rfl

@[simp] theorem map_error (f : α → ι) (cause : ε) :
    (Except.error cause : Except ε α).map f = .error cause := rfl

@[simp] theorem functorMap_ok (f : α → β) (value : α) :
    (f <$> Except.ok value : Except ε β) = .ok (f value) := rfl

@[simp] theorem functorMap_error (f : α → β) (cause : ε) :
    (f <$> Except.error cause : Except ε β) = .error cause := rfl

@[simp] theorem mapError_ok (f : ε → δ) (value : α) :
    (Except.ok value : Except ε α).mapError f = .ok value := rfl

@[simp] theorem mapError_error (f : ε → δ) (cause : ε) :
    (Except.error cause : Except ε α).mapError f = .error (f cause) := rfl

theorem bind_eq_ok_iff {first : Except ε α} {next : α → Except ε β} {result : β} :
    (first >>= next) = .ok result ↔ ∃ value, first = .ok value ∧ next value = .ok result := by
  cases first with
  | error cause => simp
  | ok value => simp

theorem bind_pure_eq_ok_iff {first : Except ε α} {f : α → β} {result : β} :
    (do return f (← first)) = Except.ok result ↔ ∃ value, first = .ok value ∧ f value = result := by
  cases first with
  | error cause => simp
  | ok value => simp

theorem map_eq_ok_iff {f : α → ι} {first : Except ε α} {result : ι} :
    first.map f = .ok result ↔ ∃ value, first = .ok value ∧ f value = result := by
  cases first with
  | error cause => simp
  | ok value => simp

theorem mapError_eq_ok_iff {f : ε → δ} {first : Except ε α} {result : α} :
    first.mapError f = .ok result ↔ first = .ok result := by
  cases first with
  | error cause => simp
  | ok value => simp

theorem mapM_congr {first second : ι → Except ε β} {items : List ι}
    (same : ∀ item ∈ items, first item = second item) : items.mapM first = items.mapM second := by
  induction items with
  | nil => rfl
  | cons item rest ih =>
      obtain ⟨here, there⟩ := List.forall_mem_cons.mp same
      rw [List.mapM_cons, List.mapM_cons, here, ih there]

theorem mapM_eq_ok_iff {run : ι → Except ε β} {items : List ι} {results : List β} :
    items.mapM run = .ok results ↔
      List.Forall₂ (fun item result => run item = .ok result) items results := by
  induction items generalizing results with
  | nil => simp [eq_comm]
  | cons item rest ih =>
      simp only [List.mapM_cons, bind_eq_ok_iff, ih, List.forall₂_cons_left_iff]
      constructor
      · rintro ⟨first, here, others, there, taken⟩
        cases taken
        exact ⟨first, others, here, there, rfl⟩
      · rintro ⟨first, others, here, there, rfl⟩
        exact ⟨first, here, others, there, rfl⟩

theorem exists_mapM_ok_iff {run : ι → Except ε β} {items : List ι} :
    (∃ results, items.mapM run = .ok results) ↔
      ∀ item ∈ items, ∃ result, run item = .ok result := by
  induction items with
  | nil => simp
  | cons item rest ih =>
      rw [List.forall_mem_cons, ← ih, List.mapM_cons]
      cases run item with
      | error cause => simp
      | ok result =>
          cases rest.mapM run with
          | error cause => simp
          | ok results => simp

theorem exists_of_mem_mapM {read : ι → Except ε β} {items : List ι} {results : List β}
    (taken : items.mapM read = .ok results) {result : β} (member : result ∈ results) :
    ∃ item ∈ items, read item = .ok result := by
  obtain ⟨place, inBounds, rfl⟩ := List.mem_iff_getElem.mp member
  have each := List.forall₂_iff_get.mp (mapM_eq_ok_iff.mp taken)
  exact ⟨_, List.getElem_mem (each.1 ▸ inBounds), each.2 place _ inBounds⟩

/-- The cause of the first failure in a list, where everything before it succeeds. -/
def FirstFails (run : ι → Except ε β) (items : List ι) (cause : ε) : Prop :=
  ∃ before item after, items = before ++ item :: after ∧
    (∀ earlier ∈ before, ∃ result, run earlier = .ok result) ∧ run item = .error cause

theorem firstFails_cons_iff {run : ι → Except ε β} {item : ι} {rest : List ι} {cause : ε} :
    FirstFails run (item :: rest) cause ↔
      run item = .error cause ∨ (∃ result, run item = .ok result) ∧ FirstFails run rest cause := by
  constructor
  · rintro ⟨before, failing, after, split, succeeded, failed⟩
    rcases List.cons_eq_append_iff.mp split with ⟨rfl, first⟩ | ⟨others, rfl, later⟩
    · obtain ⟨rfl, rfl⟩ := List.cons.inj first
      exact .inl failed
    · obtain ⟨here, othersSucceeded⟩ := List.forall_mem_cons.mp succeeded
      exact .inr ⟨here, others, failing, after, later, othersSucceeded, failed⟩
  · rintro (failed | ⟨here, before, failing, after, rfl, succeeded, failed⟩)
    · exact ⟨[], item, rest, rfl, List.forall_mem_nil _, failed⟩
    · exact ⟨item :: before, failing, after, rfl, List.forall_mem_cons.mpr ⟨here, succeeded⟩,
        failed⟩

theorem mapM_eq_error_iff {run : ι → Except ε β} {items : List ι} {cause : ε} :
    items.mapM run = .error cause ↔ FirstFails run items cause := by
  induction items with
  | nil => simp [FirstFails]
  | cons item rest ih =>
      rw [firstFails_cons_iff, List.mapM_cons, ← ih]
      cases run item with
      | error reason => simp
      | ok result =>
          cases rest.mapM run with
          | error reason => simp
          | ok results => simp

end FieldRules
