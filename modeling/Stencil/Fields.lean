/-! A finite map from names, kept as a list sorted by name with each name once. The order
of names is that of their code points, which is also the order of their UTF-8 bytes. -/

namespace Stencil

abbrev Fields (α : Type) := List (String × α)

namespace Fields

variable {α : Type}

/-- A name that is already bound is bound anew. -/
def insert (fields : Fields α) (name : String) (value : α) : Fields α :=
  match fields with
  | [] => [(name, value)]
  | (other, kept) :: rest =>
    if name < other then (name, value) :: (other, kept) :: rest
    else if name = other then (name, value) :: rest
    else (other, kept) :: insert rest name value

def find? (fields : Fields α) (name : String) : Option α :=
  match fields with
  | [] => none
  | (other, value) :: rest => if name = other then some value else find? rest name

def erase (fields : Fields α) (name : String) : Fields α :=
  List.filter (fun (other, _) => other != name) fields

/-- Later entries win over earlier ones. -/
def insertAll (fields : Fields α) (entries : List (String × α)) : Fields α :=
  entries.foldl (fun fields (name, value) => insert fields name value) fields

def ofEntries (entries : List (String × α)) : Fields α := insertAll [] entries

def names (fields : Fields α) : List String := List.map Prod.fst fields

def contains (fields : Fields α) (name : String) : Bool := (find? fields name).isSome

theorem insert_cons (name other : String) (value kept : α) (rest : Fields α) :
    insert ((other, kept) :: rest) name value = if name < other then (name, value) :: (other, kept) :: rest
      else if name = other then (name, value) :: rest else (other, kept) :: insert rest name value := rfl

theorem find?_cons (name other : String) (value : α) (rest : Fields α) :
    find? ((other, value) :: rest) name = if name = other then some value else find? rest name := rfl

theorem find?_insert (fields : Fields α) (name other : String) (value : α) :
    find? (insert fields name value) other = if other = name then some value else find? fields other := by
  induction fields with
  | nil => rfl
  | cons entry rest ih =>
    obtain ⟨key, kept⟩ := entry
    rw [insert_cons]
    by_cases below : name < key
    · simp [below, find?_cons]
    · by_cases same : name = key
      · subst same
        by_cases hit : other = name <;> simp [find?_cons, hit]
      · by_cases hit : other = key
        · subst hit
          simp [below, same, find?_cons, Ne.symm same]
        · simp [below, same, find?_cons, hit, ih]

theorem mem_insert {fields : Fields α} {name : String} {value : α} {entry : String × α}
    (mem : entry ∈ fields.insert name value) : entry = (name, value) ∨ entry ∈ fields := by
  induction fields with
  | nil => exact .inl (List.mem_singleton.1 mem)
  | cons first rest ih =>
    rw [insert_cons] at mem
    split at mem
    · exact List.mem_cons.1 mem
    split at mem
    · exact (List.mem_cons.1 mem).imp_right (List.mem_cons_of_mem _)
    · rcases List.mem_cons.1 mem with rfl | later
      · exact .inr List.mem_cons_self
      · exact (ih later).imp_right (List.mem_cons_of_mem _)

theorem find?_erase (fields : Fields α) {name other : String} (different : other ≠ name) :
    (fields.erase name).find? other = fields.find? other := by
  induction fields with
  | nil => rfl
  | cons entry rest ih =>
    obtain ⟨key, kept⟩ := entry
    unfold erase at ih ⊢
    by_cases erased : key = name
    · subst erased
      simp [find?_cons, ih, different]
    · simp [find?_cons, ih, erased]

theorem contains_insert (fields : Fields α) (name other : String) (value : α) :
    (fields.insert name value).contains other = (decide (other = name) || fields.contains other) := by
  unfold contains
  rw [find?_insert]
  by_cases same : other = name <;> simp [same]

theorem mem_names_of_find? {fields : Fields α} {name : String} {value : α} (found : fields.find? name = some value) :
    name ∈ fields.names := by
  induction fields with
  | nil => cases found
  | cons entry rest ih =>
    rw [find?_cons] at found
    split at found
    next same => exact List.mem_cons.2 (.inl same)
    next => exact List.mem_cons_of_mem _ (ih found)

/-- The order in which different names are bound leaves no trace. -/
theorem insert_comm (fields : Fields α) {first second : String} (different : first ≠ second) (value other : α) :
    (fields.insert first value).insert second other = (fields.insert second other).insert first value := by
  induction fields with
  | nil =>
    simp only [insert]
    grind
  | cons entry rest ih =>
    obtain ⟨key, kept⟩ := entry
    simp only [insert_cons]
    grind [insert_cons]

end Fields

/-- A set of names, sorted, each name once. -/
abbrev Names := List String

namespace Names

def insert (names : Names) (name : String) : Names :=
  match names with
  | [] => [name]
  | other :: rest =>
    if name < other then name :: other :: rest
    else if name = other then other :: rest
    else other :: insert rest name

def ofList (names : List String) : Names := names.foldl insert []

theorem mem_insert {names : Names} {name other : String} :
    other ∈ insert names name ↔ other = name ∨ other ∈ names := by
  induction names with
  | nil => simp [insert]
  | cons head rest ih =>
    unfold insert
    split
    · simp
    · split
      next same => subst same; simp
      · simp only [List.mem_cons, ih]
        constructor <;> (intro given; rcases given with given | given | given <;> simp [given])

end Names
end Stencil
