import Stencil.Files.Tree
import Stencil.Proofs.TemplatePaths

/-! Files by the names that lead to them. The files of a tree are listed once each, and a path that spells the names
of a file behind the path of a folder is followed to that very file. -/

namespace Stencil
open Text

theorem Fields.find?_of_mem {α : Type} {fields : Fields α} (distinct : fields.names.Nodup) {name : String} {value : α}
    (mem : (name, value) ∈ fields) : fields.find? name = some value := by
  induction fields with
  | nil => cases mem
  | cons field fields ih =>
    obtain ⟨other, kept⟩ := field
    obtain ⟨fresh, distinct⟩ := List.nodup_cons.1 distinct
    rw [find?]
    rcases List.mem_cons.1 mem with same | later
    · cases same
      exact if_pos rfl
    · have different : name ≠ other := by
        rintro rfl
        exact fresh (List.mem_map.2 ⟨_, later, rfl⟩)
      rw [if_neg different, ih distinct later]

namespace FileTree

/-- What an entry of a folder can be called. The names of one or two dots, and all with a slash, mean something else on
a path. -/
structure IsEntryName (name : String) : Prop where
  filled : name ≠ ""
  other : name ≠ "."
  noDots : name ≠ ".."
  noSlash : '/' ∉ name.toList
  short : name.utf8ByteSize ≤ greatestName

/-- The names lead to a file with this content. -/
inductive Holds : FileTree → List String → ByteArray → Prop where
  | file {content : ByteArray} : Holds (.file content) [] content
  | folder {entries : List (String × FileTree)} {name : String} {tree : FileTree} {path : List String}
      {content : ByteArray} (mem : (name, tree) ∈ entries) (holds : Holds tree path content) :
      Holds (.folder entries) (name :: path) content

/-- A tree of folders and texts in which each entry has a name of its own. -/
inductive Readable : FileTree → Prop where
  | file {content : ByteArray} {text : String} (read : String.fromUTF8? content = some text) : Readable (.file content)
  | folder {entries : List (String × FileTree)} (distinct : (Fields.names entries).Nodup)
      (named : ∀ name tree, (name, tree) ∈ entries → IsEntryName name)
      (each : ∀ name tree, (name, tree) ∈ entries → Readable tree) : Readable (.folder entries)

theorem readable_text (text : String) : Readable (.file text.toUTF8) := by
  refine @Readable.file _ text ?_
  rw [String.toUTF8_eq_toByteArray, String.fromUTF8?, dif_pos text.isValidUTF8]
  rfl

variable {tree : FileTree} {entries : List (String × FileTree)} {path : List String} {content : ByteArray}

theorem mem_filesIn : path ∈ filesIn entries ↔
    ∃ name tree rest, path = name :: rest ∧ (name, tree) ∈ entries ∧ isHidden name = false ∧ rest ∈ tree.files := by
  induction entries with
  | nil => simp [filesIn]
  | cons entry entries ih =>
    obtain ⟨name, tree⟩ := entry
    rw [filesIn]
    split
    next hidden =>
      rw [ih]
      constructor
      · rintro ⟨other, inner, rest, rfl, mem, visible, inside⟩
        exact ⟨other, inner, rest, rfl, List.mem_cons_of_mem _ mem, visible, inside⟩
      · rintro ⟨other, inner, rest, rfl, mem, visible, inside⟩
        rcases List.mem_cons.1 mem with same | later
        · cases same
          cases visible.symm.trans hidden
        · exact ⟨other, inner, rest, rfl, later, visible, inside⟩
    next visible =>
      rw [List.mem_append, List.mem_map, ih]
      constructor
      · rintro (⟨rest, inside, rfl⟩ | ⟨other, inner, rest, rfl, mem, shown, inside⟩)
        · exact ⟨name, tree, rest, rfl, List.mem_cons_self, Bool.eq_false_of_not_eq_true visible, inside⟩
        · exact ⟨other, inner, rest, rfl, List.mem_cons_of_mem _ mem, shown, inside⟩
      · rintro ⟨other, inner, rest, rfl, mem, shown, inside⟩
        rcases List.mem_cons.1 mem with same | later
        · cases same
          exact .inl ⟨rest, inside, rfl⟩
        · exact .inr ⟨other, inner, rest, rfl, later, shown, inside⟩

theorem files_folder (entries : List (String × FileTree)) : (FileTree.folder entries).files = filesIn entries := by
  rw [files]

/-- Listed is every file but the hidden ones and what is in hidden folders. -/
theorem mem_files : path ∈ tree.files ↔ (∃ content, tree.Holds path content) ∧ ∀ name ∈ path, isHidden name = false := by
  induction path generalizing tree with
  | nil =>
    cases tree with
    | file content => simpa [files] using ⟨content, .file⟩
    | folder entries =>
      rw [files_folder, mem_filesIn]
      constructor
      · rintro ⟨_, _, _, impossible, _⟩
        cases impossible
      · rintro ⟨⟨_, impossible⟩, _⟩
        cases impossible
  | cons name rest ih =>
    cases tree with
    | file content =>
      constructor
      · intro mem
        simp [files] at mem
      · rintro ⟨⟨_, impossible⟩, _⟩
        cases impossible
    | folder entries =>
      rw [files_folder, mem_filesIn, List.forall_mem_cons]
      constructor
      · rintro ⟨_, inner, _, same, mem, visible, inside⟩
        obtain ⟨rfl, rfl⟩ := List.cons.inj same
        obtain ⟨⟨content, holds⟩, others⟩ := ih.1 inside
        exact ⟨⟨content, .folder mem holds⟩, visible, others⟩
      · rintro ⟨⟨content, holds⟩, visible, others⟩
        cases holds with
        | folder mem holds => exact ⟨_, _, _, rfl, mem, visible, ih.2 ⟨⟨content, holds⟩, others⟩⟩

theorem nodup_filesIn (distinct : (Fields.names entries).Nodup)
    (each : ∀ name tree, (name, tree) ∈ entries → tree.files.Nodup) : (filesIn entries).Nodup := by
  induction entries with
  | nil => exact List.nodup_nil
  | cons entry entries ih =>
    obtain ⟨name, tree⟩ := entry
    obtain ⟨fresh, distinct⟩ := List.nodup_cons.1 distinct
    have others := ih distinct fun other inner mem => each other inner (List.mem_cons_of_mem _ mem)
    rw [filesIn]
    split
    · exact others
    · have here := (each name tree List.mem_cons_self).map (List.cons_injective (a := name))
      refine List.nodup_append.2 ⟨here, others, ?_⟩
      rintro _ first path later rfl
      obtain ⟨_, _, rfl⟩ := List.mem_map.1 first
      obtain ⟨_, inner, _, same, mem, _⟩ := mem_filesIn.1 later
      obtain ⟨rfl, _⟩ := List.cons.inj same
      exact fresh (List.mem_map.2 ⟨_, mem, rfl⟩)

theorem Readable.nodup_files (readable : tree.Readable) : tree.files.Nodup := by
  induction readable with
  | file => exact List.nodup_singleton _
  | folder distinct _ _ ih =>
    rw [files_folder]
    exact nodup_filesIn distinct ih

theorem Readable.text (readable : tree.Readable) (holds : tree.Holds path content) :
    ∃ text, String.fromUTF8? content = some text := by
  induction holds with
  | file => cases readable with | file read => exact ⟨_, read⟩
  | folder mem _ ih => cases readable with | folder _ _ each => exact ih (each _ _ mem)

theorem Readable.entryNames (readable : tree.Readable) (holds : tree.Holds path content) :
    ∀ name ∈ path, IsEntryName name := by
  induction holds with
  | file => exact List.forall_mem_nil _
  | folder mem _ ih =>
    cases readable with
    | folder _ named each => exact List.forall_mem_cons.2 ⟨named _ _ mem, ih (each _ _ mem)⟩

/-! Following a path. -/

theorem step_entry {name : String} (isName : IsEntryName name) (distinct : (Fields.names entries).Nodup)
    (mem : (name, tree) ∈ entries) (around : List FileTree) :
    step (.folder entries, around) name = .ok (tree, .folder entries :: around) := by
  have kept : (name.isEmpty || decide (name = ".")) = false := by simp [isName.filled, isName.other]
  unfold step
  dsimp only
  rw [kept, if_neg Bool.false_ne_true, if_neg isName.noDots, if_neg (Nat.not_lt.2 isName.short),
    Fields.find?_of_mem distinct mem]

theorem Holds.followed (holds : tree.Holds path content) (readable : tree.Readable) (around : List FileTree) :
    ∃ outside, path.foldlM step (tree, around) = .ok (.file content, outside) := by
  induction holds generalizing around with
  | file => exact ⟨around, rfl⟩
  | folder mem _ ih =>
    cases readable with
    | folder distinct named each =>
      rw [List.foldlM_cons, step_entry (named _ _ mem) distinct mem around]
      exact ih (each _ _ mem) _

/-- The steps of a path as it is followed. -/
def steps (path : List Char) : List String := (splitAll '/' path).map String.ofList

theorem steps_slash (folder body : List Char) : steps (folder ++ '/' :: body) = steps folder ++ steps body := by
  rw [steps, splitAll_append_cons, List.map_append]
  rfl

/-- Slashes behind a folder lead nowhere. -/
theorem foldlM_opened {folder : List Char} (filled : folder ≠ []) {start : FileTree × List FileTree}
    {around : List FileTree} (reached : (steps folder).foldlM step start = .ok (.folder entries, around))
    (body : List Char) : (steps (Path.opened folder ++ body)).foldlM step start =
      (steps body).foldlM step (.folder entries, around) := by
  by_cases closed : folder.getLast? = some '/'
  · have front := List.dropLast_append_getLast? '/' closed
    rw [Path.opened, if_pos (.inr closed), ← front, List.append_assoc, List.singleton_append, steps_slash,
      List.foldlM_append]
    rw [← front, steps_slash, List.foldlM_append] at reached
    cases halfway : (steps folder.dropLast).foldlM step start with
    | error => rw [halfway] at reached; cases reached
    | ok place =>
      obtain ⟨there, outside⟩ := place
      rw [halfway] at reached
      cases there with
      | file => cases reached
      | folder => cases reached; rfl
  · rw [Path.opened, if_neg (not_or.2 ⟨filled, closed⟩), List.append_assoc, List.singleton_append, steps_slash,
      List.foldlM_append, reached]
    rfl

/-- Where the first step of a path is taken. -/
def origin (working : FileTree) (around : List FileTree) (path : List Char) : FileTree × List FileTree :=
  if path.head? = some '/' then (around.getLast?.getD working, []) else (working, around)

theorem find_eq_ok {working : FileTree} {around : List FileTree} {path : String} :
    find working around path = .ok tree ↔ path.toList ≠ [] ∧
      ∃ outside, (steps path.toList).foldlM step (origin working around path.toList) = .ok (tree, outside) := by
  unfold find
  by_cases empty : path = ""
  · simp [empty]
  · rw [if_neg (by simpa using empty)]
    change ((steps path.toList).foldlM step (origin working around path.toList)).map Prod.fst = _ ↔ _
    rcases (steps path.toList).foldlM step (origin working around path.toList) with _ | ⟨there, outside⟩ <;>
      simp [Except.map, empty]

variable {working : FileTree} {around : List FileTree} {root : String}

/-- A file is found by its names behind the path of the folder that it is in. -/
theorem find_file (found : find working around root = .ok (.folder entries)) (readable : Readable (.folder entries))
    (holds : Holds (.folder entries) path content) :
    find working around (String.ofList (Path.opened root.toList ++ ['/'].intercalate (path.map String.toList))) =
      .ok (.file content) := by
  obtain ⟨filled, outside, reached⟩ := find_eq_ok.1 found
  have entryNames := readable.entryNames holds
  have some : path.map String.toList ≠ [] := by
    cases holds
    exact List.cons_ne_nil _ _
  have names : steps (['/'].intercalate (path.map String.toList)) = path := by
    rw [steps, splitAll_intercalate some, List.map_map]
    · simp [Function.comp_def]
    · exact List.forall_mem_map.2 fun name mem => (entryNames name mem).noSlash
  have more : Path.opened root.toList ≠ [] := by
    unfold Path.opened
    split <;> simp [filled]
  have start : (Path.opened root.toList ++ ['/'].intercalate (path.map String.toList)).head? = root.toList.head? := by
    rw [List.head?_append_of_ne_nil _ more, Path.opened]
    split
    · rfl
    · exact List.head?_append_of_ne_nil _ filled
  obtain ⟨further, arrived⟩ := holds.followed readable outside
  rw [find_eq_ok, String.toList_ofList]
  refine ⟨List.append_ne_nil_of_left_ne_nil more _, further, ?_⟩
  rw [origin, start, ← origin, foldlM_opened filled reached, names, arrived]

theorem read_file {text : String} (found : find working around root = .ok (.folder entries))
    (readable : Readable (.folder entries)) (holds : Holds (.folder entries) path content)
    (read : String.fromUTF8? content = some text) : (seenFrom working around).read
      (String.ofList (Path.opened root.toList ++ ['/'].intercalate (path.map String.toList))) = .ok text := by
  simp only [seenFrom, find_file found readable holds, Except.bind, FileTree.text, read]

end FileTree
end Stencil
