import Mathlib
import Stencil.Proofs.FileTreePaths

/-! The templates of a folder, listed and read. A template is listed under the names that lead to it, with dots between
them, and read where the segments of that name lead. The two agree as long as there is no dot in the names themselves. -/

namespace Stencil
open Text

namespace Path
variable {segment : List Char} {segments : List (List Char)}

theorem opened_opened (folder : List Char) : opened (opened folder) = opened folder := by
  rcases opened_open folder with empty | ⟨front, ends⟩
  · rw [empty]
    rfl
  · rw [ends]
    exact if_pos (.inr (by simp))

theorem names_join (noDot : '.' ∉ segment) (noSlash : '/' ∉ segment) (folder : List Char) :
    names (join folder segment) = names folder ++ [segment].filter isKept := by
  rw [join_segment noSlash, names_opened, splitAll_of_free noSlash]
  · exact fun top => noSlash (List.mem_of_mem_head? top)
  · rw [splitAll_of_free noSlash]
    intro dot
    exact noDot (by simp [Option.some.inj dot])

/-- Empty segments leave no trace in the names on a path. -/
theorem names_foldl_join (plain : ∀ segment ∈ segments, '.' ∉ segment ∧ '/' ∉ segment) (root : List Char) :
    names (segments.foldl join root) = names root ++ segments.filter isKept := by
  induction segments generalizing root with
  | nil => simp
  | cons segment segments ih =>
    obtain ⟨⟨noDot, noSlash⟩, others⟩ := List.forall_mem_cons.1 plain
    rw [List.foldl_cons, ih others, names_join noDot noSlash, List.append_assoc, ← List.filter_append,
      List.singleton_append]

theorem cutName?_slash (path : List Char) : cutName? (path ++ ['/']) = cutName? path := by
  simp only [cutName?, List.reverse_append, List.reverse_singleton, List.singleton_append, withoutEnd]

theorem withExtension_slash (bare : IsBare segment) (folder extension : List Char) :
    withExtension (opened folder ++ segment ++ ['/']) extension = opened folder ++ segment ++ suffix extension := by
  rw [← withExtension_segment bare, withExtension, withExtension, cutName?_slash, cutName?_segment bare]

/-- The segments that are not empty lead on; the last of them is the one that the extension is put to. -/
theorem foldl_join_ends (plain : ∀ segment ∈ segments, '.' ∉ segment ∧ '/' ∉ segment)
    (filled : ∃ segment ∈ segments, segment ≠ []) (root : List Char) : ∃ front folder last,
      (∀ segment ∈ front, '.' ∉ segment) ∧ IsBare last ∧ names folder = names root ++ front ∧
      (segments.foldl join root = opened folder ++ last ∨ segments.foldl join root = opened folder ++ last ++ ['/']) := by
  induction segments using List.reverseRecOn with
  | nil => simp at filled
  | append_singleton segments segment ih =>
    obtain ⟨before, here⟩ := List.forall_mem_append.1 plain
    obtain ⟨noDot, noSlash⟩ := List.forall_mem_singleton.1 here
    rw [List.foldl_append, List.foldl_cons, List.foldl_nil, join_segment noSlash]
    by_cases empty : segment = []
    · have more : ∃ segment ∈ segments, segment ≠ [] := by simpa [empty] using filled
      obtain ⟨front, folder, last, undotted, bare, spelled, ends⟩ := ih before more
      refine ⟨front, folder, last, undotted, bare, spelled, .inr ?_⟩
      rw [empty, List.append_nil]
      rcases ends with ends | ends
      · rw [ends, opened_segment bare]
      · rw [ends, ← opened_segment bare, opened_opened]
    · refine ⟨segments.filter isKept, segments.foldl join root, segment, ?_, ⟨empty, noDot, noSlash⟩,
        names_foldl_join before root, .inl rfl⟩
      exact fun segment mem => (before segment (List.mem_of_mem_filter mem)).1

theorem names_withExtension (plain : ∀ segment ∈ segments, '.' ∉ segment ∧ '/' ∉ segment)
    (filled : ∃ segment ∈ segments, segment ≠ []) (root : List Char) {extension : List Char}
    (noSlash : '/' ∉ extension) : ∃ front last, (∀ segment ∈ front, '.' ∉ segment) ∧ '.' ∉ last ∧
      names (withExtension (segments.foldl join root) extension) =
        names root ++ (front ++ [last ++ suffix extension]) := by
  obtain ⟨front, folder, last, undotted, bare, spelled, ends⟩ := foldl_join_ends plain filled root
  refine ⟨front, last, undotted, bare.no_dot, ?_⟩
  have ended : withExtension (segments.foldl join root) extension = opened folder ++ last ++ suffix extension := by
    rcases ends with ends | ends
    · rw [ends, withExtension_segment bare]
    · rw [ends, withExtension_slash bare]
  have split : splitAll '/' (suffix extension) = [suffix extension] := by
    apply splitAll_of_free
    unfold suffix
    split <;> simp [noSlash]
  have named := names_segments (List.forall_mem_nil _) bare split folder
  simp only [List.nil_append, List.intercalate_singleton, List.filter_nil] at named
  rw [ended, named, spelled, List.append_assoc]

/-- The names of entries are those on the path that they make up below a folder. -/
theorem names_entries {path : List String} (filled : path ≠ []) (entryNames : ∀ name ∈ path, FileTree.IsEntryName name)
    (root : List Char) : names (opened root ++ ['/'].intercalate (path.map String.toList)) =
      names root ++ path.map String.toList := by
  have pieces : splitAll '/' (['/'].intercalate (path.map String.toList)) = path.map String.toList :=
    splitAll_intercalate (by simpa using filled) (List.forall_mem_map.2 fun name mem => (entryNames name mem).noSlash)
  have kept : ∀ piece ∈ path.map String.toList, isKept piece = true := by
    refine List.forall_mem_map.2 fun name mem => ?_
    have isName := entryNames name mem
    have other : name.toList ≠ ['.'] := fun same => isName.other (String.toList_inj.1 same)
    simp [isKept, isName.filled, other]
  have head : ∀ piece ∈ (splitAll '/' (['/'].intercalate (path.map String.toList))).head?, isKept piece = true := by
    rw [pieces]
    exact fun piece mem => kept piece (List.mem_of_mem_head? mem)
  have below : (['/'].intercalate (path.map String.toList)).head? ≠ some '/' := by
    intro top
    obtain ⟨rest, same⟩ := List.head?_eq_some_iff.1 top
    rw [same] at head
    exact absurd (head [] rfl) (by decide)
  rw [names_opened below fun same => absurd (head _ same) (by decide), pieces, List.filter_eq_self.2 kept]

end Path

namespace TemplateFolder
open FileTree

/-- The names lead to a template: to a file with the extension that is not hidden, nor in a hidden folder. -/
structure IsTemplate (folder : TemplateFolder) (tree : FileTree) (path : List String) : Prop where
  held : ∃ content, tree.Holds path content
  visible : ∀ name ∈ path, isHidden name = false
  ending : ∃ front stem, path = front ++ [stem ++ "." ++ folder.extension] ∧ stem ≠ ""

/-- The one dot in the names is that of the extension. -/
def Undotted (folder : TemplateFolder) (path : List String) : Prop :=
  ∃ front stem, path = front ++ [stem ++ "." ++ folder.extension] ∧ stem ≠ "" ∧ folder.extension ≠ "" ∧
    '.' ∉ folder.extension.toList ∧ '.' ∉ stem.toList ∧ ∀ name ∈ front, '.' ∉ name.toList

variable {folder : TemplateFolder} {path : List String} {name : String}

theorem Undotted.listed (undotted : folder.Undotted path) : ∃ name, folder.name? path = some name := by
  obtain ⟨front, stem, rfl, filled, _, noDot, undotted, _⟩ := undotted
  refine ⟨_, folder.name?_eq_some.2 ⟨front, stem, rfl, filled, noDot, ?_, String.toList_ofList⟩⟩
  intro dots
  obtain ⟨c, rest, split⟩ := List.exists_cons_of_ne_nil (String.toList_eq_nil_iff.not.2 filled)
  have same := congrArg String.toList dots
  simp only [String.toList_append, split, List.cons_append] at same
  have head : c = '.' := (List.cons.inj same).1
  exact undotted (split ▸ head ▸ List.mem_cons_self)

/-- The path of an undotted template is that of its file. -/
theorem Undotted.path_eq (undotted : folder.Undotted path) (found : folder.name? path = some name)
    (entryNames : ∀ name ∈ path, IsEntryName name) :
    folder.path name = String.ofList (Path.opened folder.root.toList ++ ['/'].intercalate (path.map String.toList)) := by
  obtain ⟨front, stem, rfl, filled, extended, _, noDot, noDots⟩ := undotted
  obtain ⟨front', stem', same, _, _, _, spelled⟩ := folder.name?_eq_some.1 found
  obtain ⟨rfl, same⟩ := List.append_inj' same rfl
  obtain rfl : stem = stem' := by simpa [← String.toList_inj] using same
  have bare : ∀ segment ∈ front.map String.toList ++ [stem.toList], Path.IsBare segment := by
    rw [List.forall_mem_append, List.forall_mem_map, List.forall_mem_singleton]
    obtain ⟨front, last⟩ := List.forall_mem_append.1 entryNames
    constructor
    · intro name mem
      have isName := front name mem
      exact ⟨String.toList_eq_nil_iff.not.2 isName.filled, noDots name mem, isName.noSlash⟩
    · have noSlash := (List.forall_mem_singleton.1 last).noSlash
      simp only [String.toList_append, List.mem_append, not_or] at noSlash
      exact ⟨String.toList_eq_nil_iff.not.2 filled, noDot, noSlash.1.1⟩
  have suffix : Path.suffix folder.extension.toList = '.' :: folder.extension.toList :=
    if_neg (String.toList_eq_nil_iff.not.2 extended)
  rw [folder.path_segments (by simp) bare spelled, file, suffix, List.append_assoc, intercalate_append]
  simp

theorem exists_of_visible (filled : name ≠ "") (visible : isHidden name = false) : ∃ c ∈ name.toList, c ≠ '.' := by
  obtain ⟨c, rest, split⟩ := List.exists_cons_of_ne_nil (String.toList_eq_nil_iff.not.2 filled)
  refine ⟨c, split ▸ List.mem_cons_self, ?_⟩
  rintro rfl
  simp [isHidden, split] at visible

/-- A name does not consist of dots alone, since nothing on the way to it is hidden. -/
theorem exists_segment (found : folder.name? path = some name) (filled : ∀ name ∈ path, name ≠ "")
    (visible : ∀ name ∈ path, isHidden name = false) : ∃ segment ∈ splitAll '.' name.toList, segment ≠ [] := by
  obtain ⟨c, begins, other⟩ : ∃ c ∈ name.toList, c ≠ '.' := by
    cases path with
    | nil => cases found
    | cons first rest =>
      have shown := visible first List.mem_cons_self
      cases rest with
      | nil =>
        obtain ⟨rfl, some, _⟩ := folder.name?_singleton.1 found
        refine exists_of_visible some ?_
        rw [isHidden, String.append_assoc, String.toList_append,
          List.head?_append_of_ne_nil _ (String.toList_eq_nil_iff.not.2 some)] at shown
        exact shown
      | cons next rest =>
        obtain ⟨inner, _, rfl⟩ := Option.map_eq_some_iff.1 found
        obtain ⟨c, mem, other⟩ := exists_of_visible (filled first List.mem_cons_self) shown
        exact ⟨c, by simp [mem], other⟩
  have joined : ['.'].intercalate (splitAll '.' name.toList) = name.toList := by
    rw [splitAll_eq_splitOn]
    exact List.intercalate_splitOn '.'
  obtain ⟨segment, among, mem⟩ := (mem_intercalate (joined.symm ▸ begins)).resolve_left other
  exact ⟨segment, among, List.ne_nil_of_mem mem⟩

theorem name_noSlash (found : folder.name? path = some name) (noSlash : ∀ name ∈ path, '/' ∉ name.toList) :
    '/' ∉ name.toList ∧ '/' ∉ folder.extension.toList := by
  obtain ⟨front, stem, rfl, _, _, _, spelled⟩ := folder.name?_eq_some.1 found
  obtain ⟨noSlashes, last⟩ := List.forall_mem_append.1 noSlash
  have last := List.forall_mem_singleton.1 last
  simp only [String.toList_append, List.mem_append, not_or] at last
  refine ⟨fun slash => ?_, last.2⟩
  rcases mem_intercalate (spelled ▸ slash) with impossible | ⟨piece, among, mem⟩
  · cases impossible
  · rcases List.mem_append.1 among with before | here
    · obtain ⟨other, inside, rfl⟩ := List.mem_map.1 before
      exact noSlashes other inside mem
    · exact last.1.1 (List.mem_singleton.1 here ▸ mem)

/-- What is listed is found again at its own path if its names have no dots, and only then. -/
theorem path_eq_iff (found : folder.name? path = some name) (entryNames : ∀ name ∈ path, IsEntryName name)
    (visible : ∀ name ∈ path, isHidden name = false) :
    Path.names (folder.path name).toList = Path.names folder.root.toList ++ path.map String.toList ↔
      folder.Undotted path := by
  constructor
  · intro same
    obtain ⟨noSlash, unslashed⟩ := name_noSlash found fun name mem => (entryNames name mem).noSlash
    have plain : ∀ segment ∈ splitAll '.' name.toList, '.' ∉ segment ∧ '/' ∉ segment := fun segment mem =>
      ⟨(mem_splitAll mem).1, fun slash => noSlash ((mem_splitAll mem).2 slash)⟩
    have begins := exists_segment found (fun name mem => (entryNames name mem).filled) visible
    obtain ⟨front', last, noDots, undotted, named⟩ := Path.names_withExtension plain begins folder.root.toList unslashed
    obtain ⟨front, stem, rfl, filled, noDot, _, _⟩ := folder.name?_eq_some.1 found
    rw [path, String.toList_ofList, named, List.append_cancel_left_eq, List.map_append] at same
    obtain ⟨rfl, same⟩ := List.append_inj' same rfl
    have same : last ++ Path.suffix folder.extension.toList = stem.toList ++ '.' :: folder.extension.toList := by
      simpa using same
    have extended : folder.extension ≠ "" := by
      intro empty
      rw [empty] at same
      exact undotted (by simp [show last = stem.toList ++ ['.'] by simpa [Path.suffix] using same])
    rw [Path.suffix, if_neg (String.toList_eq_nil_iff.not.2 extended), List.append_cancel_right_eq] at same
    exact ⟨front, stem, rfl, filled, extended, noDot, same ▸ undotted, fun name mem =>
      noDots _ (List.mem_map_of_mem mem)⟩
  · intro undotted
    rw [undotted.path_eq found entryNames, String.toList_ofList, Path.names_entries _ entryNames]
    rintro rfl
    cases found

/-- What is given back for the names that lead to a template: the name that it is listed by, which leads to the same
place, and the text of the file that is there. -/
structure Returns (folder : TemplateFolder) (tree : FileTree) (path : List String) (pair : String × String) : Prop where
  listed : folder.name? path = some pair.1
  place : Path.names (folder.path pair.1).toList = Path.names folder.root.toList ++ path.map String.toList
  text : ∃ content, tree.Holds path content ∧ String.fromUTF8? content = some pair.2

/-- All templates of a tree are given back, each once and with its own text, in the order of their names. -/
structure Regained (folder : TemplateFolder) (tree : FileTree) (paths : List (List String))
    (pairs : List (String × String)) : Prop where
  once : paths.Nodup
  all {path : List String} : path ∈ paths ↔ folder.IsTemplate tree path
  each : List.Forall₂ (folder.Returns tree) paths pairs
  sorted : (pairs.map Prod.fst).Pairwise (· < ·)

variable {tree : FileTree} {files : Files} {names : List String} {paths : List (List String)}

/-- The files that have a name, in the order of the names. -/
theorem forall₂_listed (folder : TemplateFolder) (paths : List (List String)) :
    List.Forall₂ (fun name path => folder.name? path = some name) (paths.filterMap folder.name?)
      (paths.filter fun path => (folder.name? path).isSome) := by
  induction paths with
  | nil => exact .nil
  | cons path paths ih =>
    cases found : folder.name? path with
    | none =>
      rw [List.filterMap_cons_none found, List.filter_cons_of_neg (by simp [found])]
      exact ih
    | some name =>
      rw [List.filterMap_cons_some found, List.filter_cons_of_pos (by simp [found])]
      exact .cons found ih

/-- A template with its source. -/
def entry (folder : TemplateFolder) (files : Files) (name : String) : Except FolderError (String × String) :=
  match files.read (folder.path name) with
  | .ok source => .ok (name, source)
  | .error cause => .error (.unreadable name (folder.path name) cause)

theorem sources_eq (folder : TemplateFolder) (files : Files) :
    folder.sources files = folder.names files >>= fun names => names.mapM (folder.entry files) := rfl

theorem mapM_entry (listed : List.Forall₂ (fun name path => folder.name? path = some name) names paths)
    (each : ∀ path ∈ paths, ∀ name, folder.name? path = some name →
      ∃ text, files.read (folder.path name) = .ok text ∧ folder.Returns tree path (name, text)) :
    ∃ pairs, names.mapM (folder.entry files) = .ok pairs ∧ pairs.map Prod.fst = names ∧
      List.Forall₂ (folder.Returns tree) paths pairs := by
  induction listed with
  | nil => exact ⟨[], rfl, rfl, .nil⟩
  | @cons name path names paths found _ ih =>
    obtain ⟨here, others⟩ := List.forall_mem_cons.1 each
    obtain ⟨text, read, returns⟩ := here name found
    obtain ⟨pairs, rest, same, returned⟩ := ih others
    refine ⟨(name, text) :: pairs, ?_, by rw [List.map_cons, same], .cons returns returned⟩
    rw [List.mapM_cons, entry, read, rest]
    rfl

theorem exists_returned {pairs : List (String × String)} (each : List.Forall₂ (folder.Returns tree) paths pairs)
    (mem : path ∈ paths) : ∃ pair, folder.Returns tree path pair := by
  induction each with
  | nil => cases mem
  | cons here _ ih =>
    rcases List.mem_cons.1 mem with rfl | later
    · exact ⟨_, here⟩
    · exact ih later

theorem pairwise_lt_mergeSort (distinct : names.Nodup) :
    (names.mergeSort fun a b => decide (a ≤ b)).Pairwise (· < ·) := by
  have sorted : (names.mergeSort fun a b => decide (a ≤ b)).Pairwise (· ≤ ·) := by
    simpa using @List.pairwise_mergeSort String (fun a b => decide (a ≤ b))
      (fun a b c first second => by simpa using String.le_trans (by simpa using first) (by simpa using second))
      (fun a b => by simpa using String.le_total a b) names
  have different := (List.mergeSort_perm names fun a b => decide (a ≤ b)).nodup_iff.2 distinct
  exact (sorted.and different).imp fun ⟨le, ne⟩ => Std.lt_of_le_of_ne le ne

/-- No two templates have one name, if each of them is found again at its own path. -/
theorem nodup_filterMap_name? (once : paths.Nodup) (returns : ∀ path ∈ paths, ∀ name, folder.name? path = some name →
    ∃ text, folder.Returns tree path (name, text)) : (paths.filterMap folder.name?).Nodup := by
  refine List.pairwise_filterMap.2 (once.imp_of_mem ?_)
  rintro path path' mem mem' different name listed _ listed' rfl
  obtain ⟨_, here⟩ := returns path mem name listed
  obtain ⟨_, there⟩ := returns path' mem' name listed'
  have same := List.append_cancel_left (here.place.symm.trans there.place)
  exact different (List.map_injective_iff.2 (fun _ _ => String.toList_inj.1) same)

variable {working : FileTree} {around : List FileTree} {entries : List (String × FileTree)}

theorem isTemplate_of_listed (found : folder.name? path = some name) (mem : path ∈ filesIn entries) :
    folder.IsTemplate (.folder entries) path := by
  obtain ⟨held, visible⟩ := mem_files.1 (files_folder entries ▸ mem)
  obtain ⟨front, stem, split, filled, _⟩ := folder.name?_eq_some.1 found
  exact ⟨held, visible, front, stem, split, filled⟩

theorem Undotted.returns (undotted : folder.Undotted path)
    (found : find working around folder.root = .ok (.folder entries)) (readable : Readable (.folder entries))
    (isTemplate : folder.IsTemplate (.folder entries) path) (listed : folder.name? path = some name) :
    ∃ text, (seenFrom working around).read (folder.path name) = .ok text ∧
      folder.Returns (.folder entries) path (name, text) := by
  obtain ⟨content, holds⟩ := isTemplate.held
  obtain ⟨text, read⟩ := readable.text holds
  have entryNames := readable.entryNames holds
  refine ⟨text, ?_, listed, (path_eq_iff listed entryNames isTemplate.visible).2 undotted, content, holds, read⟩
  rw [undotted.path_eq listed entryNames]
  exact read_file found readable holds read

/-- Discovery and lookup are inverse where no name on the way to a template has a dot, but for that of its extension, and
only there. -/
theorem lookup_inverts_discovery (folder : TemplateFolder)
    (found : find working around folder.root = .ok (.folder entries)) (readable : Readable (.folder entries)) :
    (∃ paths pairs, folder.sources (seenFrom working around) = .ok pairs ∧
      folder.Regained (.folder entries) paths pairs) ↔
      ∀ path, folder.IsTemplate (.folder entries) path → folder.Undotted path := by
  constructor
  · rintro ⟨paths, pairs, _, regained⟩ path isTemplate
    obtain ⟨content, holds⟩ := isTemplate.held
    obtain ⟨pair, returns⟩ := exists_returned regained.each (regained.all.2 isTemplate)
    exact (path_eq_iff returns.listed (readable.entryNames holds) isTemplate.visible).1 returns.place
  · intro undotted
    have below : (seenFrom working around).below? folder.root = some (filesIn entries) := by simp [seenFrom, found]
    have once : (filesIn entries).Nodup := files_folder entries ▸ readable.nodup_files
    have returns : ∀ path ∈ filesIn entries, ∀ name, folder.name? path = some name →
        ∃ text, (seenFrom working around).read (folder.path name) = .ok text ∧
          folder.Returns (.folder entries) path (name, text) := fun path mem name listed =>
      have isTemplate := isTemplate_of_listed listed mem
      (undotted path isTemplate).returns found readable isTemplate listed
    have distinct := nodup_filterMap_name? once fun path mem name listed =>
      (returns path mem name listed).imp fun _ => And.right
    obtain ⟨paths, listed, perm⟩ := List.perm_comp_forall₂ (List.mergeSort_perm _ fun a b => decide (a ≤ b))
      (folder.forall₂_listed (filesIn entries))
    obtain ⟨pairs, loaded, same, returned⟩ := mapM_entry listed fun path mem =>
      returns path (List.mem_of_mem_filter (perm.subset mem))
    refine ⟨paths, pairs, ?_, perm.nodup_iff.2 (once.filter _), ?_, returned, ?_⟩
    · rw [sources_eq, TemplateFolder.names, below]
      exact loaded
    · intro path
      rw [perm.mem_iff, List.mem_filter, Option.isSome_iff_exists]
      constructor
      · rintro ⟨mem, name, found⟩
        exact isTemplate_of_listed found mem
      · intro isTemplate
        have mem := mem_files.2 ⟨isTemplate.held, isTemplate.visible⟩
        exact ⟨files_folder entries ▸ mem, (undotted path isTemplate).listed⟩
    · rw [same]
      exact pairwise_lt_mergeSort distinct

/-- Two templates, one of them in a folder, beside a text and what is hidden. -/
def site : List (String × FileTree) :=
  [("nav.tpl", .file "N".toUTF8), ("notes.txt", .file "".toUTF8), (".old", .folder [("a.b.tpl", .file "".toUTF8)]),
    ("pages", .folder [("home.tpl", .file "H".toUTF8)])]

theorem site_is_regained : find (.folder [("site", .folder site)]) [] "site" = .ok (.folder site) ∧
    Readable (.folder site) ∧ ∃ paths pairs,
      { root := "site" : TemplateFolder }.sources (seenFrom (.folder [("site", .folder site)]) []) = .ok pairs ∧
      { root := "site" : TemplateFolder }.Regained (.folder site) paths pairs := by
  have found : find (.folder [("site", .folder site)]) [] "site" = .ok (.folder site) := rfl
  have entryNames : ∀ name ∈ ["nav.tpl", "notes.txt", ".old", "pages", "a.b.tpl", "home.tpl"], IsEntryName name := by
    simp only [List.forall_mem_cons]
    refine ⟨?_, ?_, ?_, ?_, ?_, ?_, List.forall_mem_nil _⟩ <;>
      exact ⟨by decide, by decide, by decide, by decide, by decide⟩
  have readable : Readable (.folder site) := by
    simp only [List.forall_mem_cons] at entryNames
    obtain ⟨nav, notes, old, pages, dotted, home, _⟩ := entryNames
    have one {name : String} (isName : IsEntryName name) (text : String) :
        Readable (.folder [(name, .file text.toUTF8)]) := by
      refine .folder (List.nodup_singleton _) ?_ ?_ <;> intro other tree mem <;> cases List.mem_singleton.1 mem
      · exact isName
      · exact readable_text text
    refine .folder (by decide) ?_ ?_ <;> intro name tree mem <;>
      simp only [site, List.mem_cons, Prod.mk.injEq, List.not_mem_nil, or_false] at mem <;>
      obtain ⟨rfl, rfl⟩ | ⟨rfl, rfl⟩ | ⟨rfl, rfl⟩ | ⟨rfl, rfl⟩ := mem
    · exact nav
    · exact notes
    · exact old
    · exact pages
    · exact readable_text _
    · exact readable_text _
    · exact one dotted _
    · exact one home _
  refine ⟨found, readable, (lookup_inverts_discovery _ found readable).2 ?_⟩
  rintro path ⟨held, visible, front, stem, ending, _⟩
  have mem := mem_files.2 ⟨held, visible⟩
  have listed : (FileTree.folder site).files = [["nav.tpl"], ["notes.txt"], ["pages", "home.tpl"]] := by decide
  simp only [listed, List.mem_cons, List.not_mem_nil, or_false] at mem
  obtain rfl | rfl | rfl := mem
  · exact ⟨[], "nav", by decide⟩
  · have signs := congrArg (fun path => path.getLast?.map fun name => name.toList.getLast?) ending
    simp at signs
  · exact ⟨["pages"], "home", by decide⟩

/-- The name of a file with a dot in it leads to another place. That nothing is there is a reason to refuse the whole
folder. -/
theorem dotted_file_is_missed :
    { root := "d" : TemplateFolder }.sources (seenFrom (.folder [("d", .folder [("a.b.tpl", .file "X".toUTF8)])]) []) =
      .error (.unreadable "a.b" "d/a/b.tpl" .missing) := by
  decide +kernel

end TemplateFolder
end Stencil
