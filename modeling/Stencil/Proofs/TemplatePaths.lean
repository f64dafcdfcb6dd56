import Stencil.Files.Folder
import Stencil.Proofs.TemplateNames

/-! Where the templates of a folder lie. The segments of a name lead to its file, one below the other, and nothing
else leads anywhere: no name gets out of the folder, no two names have one file, and a file tells the name that leads
to it. -/

namespace Stencil

open Text

namespace Path

/-- A name without an extension that leads one step down: there is something in it, but no dot and no slash. -/
structure IsBare (segment : List Char) : Prop where
  filled : segment ≠ []
  no_dot : '.' ∉ segment
  no_slash : '/' ∉ segment

/-- A folder with the slash behind it that a name needs. -/
def opened (folder : List Char) : List Char :=
  if folder = [] ∨ folder.getLast? = some '/' then folder else folder ++ ['/']

/-- An extension with the dot in front of it; without an extension there is no dot. -/
def suffix (extension : List Char) : List Char := if extension = [] then [] else '.' :: extension

theorem opened_open (folder : List Char) : opened folder = [] ∨ ∃ front, opened folder = front ++ ['/'] := by
  unfold opened
  split
  next ends =>
    rcases ends with empty | last
    · exact .inl empty
    · exact .inr ⟨folder.dropLast, (List.dropLast_append_getLast? '/' last).symm⟩
  next => exact .inr ⟨folder, rfl⟩

variable {segment : List Char}

theorem join_segment (noSlash : '/' ∉ segment) (folder : List Char) : join folder segment = opened folder ++ segment := by
  have below : segment.head? ≠ some '/' := fun top => noSlash (List.mem_of_mem_head? top)
  rw [join, if_neg below, opened]
  simp only [Bool.or_eq_true, List.isEmpty_iff, decide_eq_true_eq]
  split
  · rfl
  · rw [List.append_assoc]
    rfl

theorem opened_segment (bare : IsBare segment) (front : List Char) :
    opened (front ++ segment) = front ++ segment ++ ['/'] := by
  have last : (front ++ segment).getLast? ≠ some '/' := by
    rw [List.getLast?_append_of_ne_nil front bare.filled]
    exact fun last => bare.no_slash (List.mem_of_getLast? last)
  have filled : front ++ segment ≠ [] := fun empty => bare.filled (List.append_eq_nil_iff.1 empty).2
  exact if_neg (not_or.2 ⟨filled, last⟩)

theorem foldl_join {segments : List (List Char)} (filled : segments ≠ [])
    (each : ∀ segment ∈ segments, IsBare segment)
    (root : List Char) : segments.foldl join root = opened root ++ ['/'].intercalate segments := by
  induction segments generalizing root with
  | nil => exact absurd rfl filled
  | cons segment rest ih =>
    obtain ⟨first, each⟩ := List.forall_mem_cons.1 each
    rw [List.foldl_cons, join_segment first.no_slash]
    cases rest with
    | nil => rw [List.foldl_nil, List.intercalate_singleton]
    | cons next rest =>
      rw [ih (List.cons_ne_nil _ _) each, opened_segment first, List.intercalate_cons_cons]
      simp only [List.append_assoc]

/-- The last name of a path can be told from the folder that it is in. -/
theorem cutName?_segment (bare : IsBare segment) (folder : List Char) :
    cutName? (opened folder ++ segment) = some (opened folder, segment) := by
  have noEnd : withoutEnd (segment.reverse ++ (opened folder).reverse) =
      segment.reverse ++ (opened folder).reverse := by
    cases reversed : segment.reverse with
    | nil => exact absurd (List.reverse_eq_nil_iff.1 reversed) bare.filled
    | cons c rest =>
      have mem : c ∈ segment := List.mem_reverse.1 (reversed ▸ List.mem_cons_self)
      have noSlash : c ≠ '/' := fun same => bare.no_slash (same ▸ mem)
      have noDot : c ≠ '.' := fun same => bare.no_dot (same ▸ mem)
      rw [List.cons_append]
      unfold withoutEnd
      split <;> simp_all
  have name : (segment.reverse ++ (opened folder).reverse).takeWhile (fun c => decide (c ≠ '/')) = segment.reverse := by
    have within : ∀ c ∈ segment.reverse, decide (c ≠ '/') = true := fun c mem => by
      rw [decide_eq_true_eq]
      rintro rfl
      exact bare.no_slash (List.mem_reverse.1 mem)
    rw [List.takeWhile_append_of_pos within]
    rcases opened_open folder with empty | ⟨front, ends⟩
    · rw [empty, List.reverse_nil, List.takeWhile_nil, List.append_nil]
    · rw [ends, List.reverse_append]
      simp
  simp only [cutName?, List.reverse_append, noEnd, name, List.reverse_reverse]
  have noDot : segment ≠ ['.'] := fun same => bare.no_dot (by simp [same])
  have noDots : segment ≠ ['.', '.'] := fun same => bare.no_dot (by simp [same])
  rw [if_neg (by simp [bare.filled, noDot, noDots]), ← List.length_reverse, List.drop_left, List.reverse_reverse]

theorem cutExtension_segment (bare : IsBare segment) : cutExtension segment = (segment, none) := by
  have uncut : cutLast? ['.'] segment = none := by
    rw [cutLast?, Option.map_eq_none_iff, List.reverse_singleton, cutFirst?_eq_none, List.singleton_infix_iff,
      List.mem_reverse]
    exact bare.no_dot
  rw [cutExtension, uncut]

/-- An extension is what stands behind the last dot, if something stands in front of it. -/
theorem cutExtension_eq_some {name stem extension : List Char} : cutExtension name = (stem, some extension) ↔
    name = stem ++ '.' :: extension ∧ stem ≠ [] ∧ '.' ∉ extension ∧ name ≠ ['.', '.'] := by
  constructor
  · intro cut
    unfold cutExtension at cut
    split at cut
    next before behind last =>
      split at cut
      · cases cut
      next kept =>
        obtain ⟨⟨rest, front⟩, found, same⟩ := Option.map_eq_some_iff.1 last
        obtain ⟨rfl, rfl⟩ := Prod.mk.inj same
        obtain ⟨rfl, rfl⟩ : front.reverse = stem ∧ rest.reverse = extension := by simpa using cut
        have split := congrArg List.reverse (cutFirst?_eq_append found)
        have undotted := not_infix_of_cutFirst? (by simp) found
        simp only [List.reverse_reverse, List.reverse_append, List.reverse_singleton] at split
        rw [List.reverse_singleton, List.singleton_infix_iff] at undotted
        simp only [Bool.or_eq_true, List.isEmpty_iff, decide_eq_true_eq, not_or] at kept
        exact ⟨split, kept.1, fun mem => undotted (List.mem_reverse.1 mem), kept.2⟩
    next => cases cut
  · rintro ⟨rfl, filled, undotted, noDots⟩
    have fresh : ∀ c ∈ extension.reverse, c ≠ '.' := fun c mem same => undotted (same ▸ List.mem_reverse.1 mem)
    have reversed : (stem ++ '.' :: extension).reverse = extension.reverse ++ '.' :: stem.reverse := by simp
    have last : cutLast? ['.'] (stem ++ '.' :: extension) = some (stem, extension) := by
      have here : cutFirst? ['.'] ('.' :: stem.reverse) = some ([], stem.reverse) := cutFirst?_here '.' [] _
      rw [cutLast?, List.reverse_singleton, reversed, cutFirst?_fresh fresh, here]
      simp
    rw [cutExtension, last]
    dsimp only
    rw [if_neg (by simp [filled, noDots])]

theorem withExtension_segment (bare : IsBare segment) (folder extension : List Char) :
    withExtension (opened folder ++ segment) extension = opened folder ++ segment ++ suffix extension := by
  rw [withExtension, cutName?_segment bare]
  dsimp only
  rw [cutExtension_segment bare, suffix]
  cases extension <;> simp

/-! The names on a path. -/

/-- Empty names and single dots mean nothing on a path. -/
def isKept (name : List Char) : Bool := name ≠ [] && name ≠ ['.']

/-- The names on a path. A slash in front is the name of the top, and a dot in front stays. -/
def names (path : List Char) : List (List Char) :=
  let kept := (splitAll '/' path).filter isKept
  if path.head? = some '/' then ['/'] :: kept
  else if (splitAll '/' path).head? = some ['.'] then ['.'] :: kept
  else kept

theorem names_slash (front behind : List Char) :
    names (front ++ '/' :: behind) = names (front ++ ['/']) ++ (splitAll '/' behind).filter isKept := by
  have head : (front ++ '/' :: behind).head? = (front ++ ['/']).head? := by cases front <;> rfl
  have first : (splitAll '/' front ++ splitAll '/' behind).head? = (splitAll '/' front ++ [[]]).head? := by
    cases same : splitAll '/' front with
    | nil => rw [splitAll_eq_splitOn] at same; exact absurd same (List.splitOn_ne_nil _ _)
    | cons piece pieces => rfl
  have empty : [([] : List Char)].filter isKept = [] := rfl
  simp only [names, splitAll_append_cons, splitAll, head, first, List.filter_append, empty, List.append_nil]
  split
  · rfl
  · split <;> rfl

theorem names_closed {folder : List Char} (filled : folder ≠ []) : names (folder ++ ['/']) = names folder := by
  have head : (folder ++ ['/']).head? = folder.head? := List.head?_append_of_ne_nil _ filled
  have first : (splitAll '/' folder ++ [[]]).head? = (splitAll '/' folder).head? := by
    rw [splitAll_eq_splitOn]
    exact List.head?_append_of_ne_nil _ (List.splitOn_ne_nil _ _)
  have empty : [([] : List Char)].filter isKept = [] := rfl
  simp only [names, splitAll_append_cons, splitAll, head, first, List.filter_append, empty, List.append_nil]

/-- A path below a folder has the names on the way to the folder in front. -/
theorem names_opened {body : List Char} (below : body.head? ≠ some '/') (named : (splitAll '/' body).head? ≠ some ['.'])
    (folder : List Char) : names (opened folder ++ body) = names folder ++ (splitAll '/' body).filter isKept := by
  by_cases empty : folder = []
  · subst empty
    change names body = [] ++ _
    rw [names, if_neg below, if_neg named, List.nil_append]
  by_cases closed : folder.getLast? = some '/'
  · rw [opened, if_pos (.inr closed), ← List.dropLast_append_getLast? '/' closed, List.append_assoc]
    exact names_slash _ body
  · rw [opened, if_neg (not_or.2 ⟨empty, closed⟩), List.append_assoc, ← names_closed empty]
    exact names_slash folder body

theorem splitAll_segments {front : List (List Char)} (each : ∀ segment ∈ front, IsBare segment)
    (bare : IsBare segment) (tail : List Char) :
    splitAll '/' (['/'].intercalate (front ++ [segment]) ++ tail) =
      front ++ (splitAll '/' tail).modifyHead (segment ++ ·) := by
  induction front with
  | nil =>
    rw [List.nil_append, List.intercalate_singleton]
    exact splitAll_append_of_free bare.no_slash tail
  | cons first front ih =>
    obtain ⟨firstBare, each⟩ := List.forall_mem_cons.1 each
    rw [List.cons_append, intercalate_cons_append, List.append_assoc, List.cons_append, splitAll_append_cons,
      splitAll_of_free firstBare.no_slash, ih each]
    rfl

theorem isKept_segment (bare : IsBare segment) (behind : List Char) : isKept (segment ++ behind) = true := by
  obtain ⟨c, rest, rfl⟩ := List.exists_cons_of_ne_nil bare.filled
  have other : c ≠ '.' := fun same => bare.no_dot (same ▸ List.mem_cons_self)
  simp [isKept, other]

/-- What is below a folder by segments is there under these names, whatever stands behind the last one. -/
theorem names_segments {front : List (List Char)} (each : ∀ segment ∈ front, IsBare segment)
    (bare : IsBare segment) {tail first : List Char} {more : List (List Char)}
    (split : splitAll '/' tail = first :: more) (folder : List Char) :
    names (opened folder ++ ['/'].intercalate (front ++ [segment]) ++ tail) =
      names folder ++ (front ++ (segment ++ first) :: more.filter isKept) := by
  have pieces : splitAll '/' (['/'].intercalate (front ++ [segment]) ++ tail) =
      front ++ (segment ++ first) :: more := by
    rw [splitAll_segments each bare, split]
    rfl
  have kept : ∀ piece ∈ front, isKept piece = true := fun piece mem => by
    simpa using isKept_segment (each piece mem) []
  have head : ∀ piece, (splitAll '/' (['/'].intercalate (front ++ [segment]) ++ tail)).head? = some piece →
      isKept piece = true := by
    rw [pieces]
    cases front with
    | nil => exact fun piece same => Option.some.inj same ▸ isKept_segment bare first
    | cons other front => exact fun piece same => Option.some.inj same ▸ kept other List.mem_cons_self
  have below : (['/'].intercalate (front ++ [segment]) ++ tail).head? ≠ some '/' := by
    intro top
    obtain ⟨rest, same⟩ := List.head?_eq_some_iff.1 top
    rw [same] at head
    exact absurd (head [] rfl) (by decide)
  have named : (splitAll '/' (['/'].intercalate (front ++ [segment]) ++ tail)).head? ≠ some ['.'] :=
    fun same => absurd (head _ same) (by decide)
  rw [List.append_assoc, names_opened below named, pieces, List.filter_append, List.filter_eq_self.2 kept,
    List.filter_cons_of_pos (isKept_segment bare first)]

end Path

theorem Template.IsSegment.bare {segment : List Char} (isSegment : Template.IsSegment segment) : Path.IsBare segment :=
  ⟨isSegment.filled, isSegment.no_dot, isSegment.no_slash⟩

namespace TemplateFolder
open Template

/-- The path of the file that the segments lead to: root/s1/.../sn and the extension. -/
def file (folder : TemplateFolder) (segments : List (List Char)) : String :=
  String.ofList (Path.opened folder.root.toList ++ ['/'].intercalate segments ++ Path.suffix folder.extension.toList)

/-- The template that lies at a path, if that is below the folder. -/
def nameOf? (folder : TemplateFolder) (path : String) : Option String :=
  let above := Path.names folder.root.toList
  let names := Path.names path.toList
  if above <+: names then folder.name? ((names.drop above.length).map String.ofList) else none

variable {segments segments' : List (List Char)} {name name' : String}

/-- The dots of a name are the steps on the path. -/
theorem path_segments (folder : TemplateFolder) (filled : segments ≠ []) (each : ∀ segment ∈ segments, Path.IsBare segment)
    (spelled : name.toList = ['.'].intercalate segments) : folder.path name = folder.file segments := by
  have split : splitAll '.' name.toList = segments :=
    spelled ▸ splitAll_intercalate filled fun segment mem => (each segment mem).no_dot
  have joined := Path.foldl_join filled each folder.root.toList
  obtain ⟨front, segment, rfl⟩ := (List.eq_nil_or_concat' segments).resolve_left filled
  have last : Path.IsBare segment := each segment (by simp)
  rw [List.foldl_append, List.foldl_cons, List.foldl_nil, Path.join_segment last.no_slash] at joined
  rw [path, split, file, ← joined, ← Path.withExtension_segment last]
  simp only [List.foldl_append, List.foldl_cons, List.foldl_nil, Path.join_segment last.no_slash]

theorem path_eq_file (folder : TemplateFolder) (named : Named segments name) :
    folder.path name = folder.file segments :=
  folder.path_segments named.filled (fun segment mem => (named.each segment mem).bare) named.spelled

theorem load?_named (folder : TemplateFolder) (named : Named segments name) (files : Files) :
    folder.load? files name = (files.read (folder.file segments)).toOption := by
  rw [load?, if_pos (isName_iff.2 ⟨segments, named⟩), folder.path_eq_file named]

theorem load?_unnamed (folder : TemplateFolder) (unnamed : ¬∃ segments, Named segments name) (files : Files) :
    folder.load? files name = none := if_neg fun isName => unnamed (isName_iff.1 isName)

theorem names_file (folder : TemplateFolder) {front : List (List Char)} {segment : List Char}
    (each : ∀ segment ∈ front, Path.IsBare segment) (bare : Path.IsBare segment) {first : List Char}
    {more : List (List Char)} (split : splitAll '/' (Path.suffix folder.extension.toList) = first :: more) :
    Path.names (folder.file (front ++ [segment])).toList =
      Path.names folder.root.toList ++ (front ++ (segment ++ first) :: more.filter Path.isKept) := by
  rw [file, String.toList_ofList]
  exact Path.names_segments each bare split _

theorem path_injective (folder : TemplateFolder) (named : Named segments name) (named' : Named segments' name')
    (same : Path.names (folder.path name).toList = Path.names (folder.path name').toList) : name = name' := by
  rw [folder.path_eq_file named, folder.path_eq_file named'] at same
  obtain ⟨front, segment, rfl, each, last⟩ := named.ends
  obtain ⟨front', segment', rfl, each', last'⟩ := named'.ends
  cases split : splitAll '/' (Path.suffix folder.extension.toList) with
  | nil => rw [splitAll_eq_splitOn] at split; exact absurd split (List.splitOn_ne_nil _ _)
  | cons first more =>
    have bares {front : List (List Char)} (each : ∀ segment ∈ front, IsSegment segment) :
        ∀ segment ∈ front, Path.IsBare segment := fun segment mem => (each segment mem).bare
    rw [folder.names_file (bares each) last.bare split, folder.names_file (bares each') last'.bare split,
      List.append_cancel_left_eq] at same
    have lengths := congrArg List.length same
    simp only [List.length_append, List.length_cons] at lengths
    obtain ⟨rfl, rest⟩ := List.append_inj same (by omega)
    obtain rfl := List.append_cancel_right (List.cons.inj rest).1
    exact named.unique named'

theorem name?_singleton (folder : TemplateFolder) {last : String} : folder.name? [last] = some name ↔
    last = name ++ "." ++ folder.extension ∧ name ≠ "" ∧ '.' ∉ folder.extension.toList ∧ last ≠ ".." := by
  have known : last = name ++ "." ++ folder.extension ∧ name ≠ "" ∧ '.' ∉ folder.extension.toList ∧ last ≠ ".." ↔
      Path.cutExtension last.toList = (name.toList, some folder.extension.toList) := by
    have dots : "..".toList = ['.', '.'] := rfl
    have written : last = name ++ "." ++ folder.extension ↔
        last.toList = name.toList ++ '.' :: folder.extension.toList := by
      rw [← String.toList_inj]
      simp
    rw [Path.cutExtension_eq_some, written, ← dots, Ne, Ne, Ne, Ne, String.toList_inj, String.toList_eq_nil_iff]
  rw [known, name?]
  cases cut : Path.cutExtension last.toList with
  | mk stem found =>
    cases found with
    | none => simp
    | some extension => simp [← String.toList_inj, and_comm]

/-- The template at a path goes by the names on it with dots between them, without the extension. -/
theorem name?_eq_some (folder : TemplateFolder) {path : List String} : folder.name? path = some name ↔
    ∃ front stem, path = front ++ [stem ++ "." ++ folder.extension] ∧ stem ≠ "" ∧ '.' ∉ folder.extension.toList ∧
      stem ++ "." ++ folder.extension ≠ ".." ∧
      name.toList = ['.'].intercalate (front.map String.toList ++ [stem.toList]) := by
  constructor
  · intro found
    induction path generalizing name with
    | nil => cases found
    | cons first rest ih =>
      cases rest with
      | nil =>
        obtain ⟨rfl, filled, undotted, noDots⟩ := folder.name?_singleton.1 found
        exact ⟨[], name, rfl, filled, undotted, noDots, by simp⟩
      | cons next rest =>
        obtain ⟨inner, inside, rfl⟩ := Option.map_eq_some_iff.1 found
        obtain ⟨front, stem, split, filled, undotted, noDots, spelled⟩ := ih inside
        refine ⟨first :: front, stem, by rw [split, List.cons_append], filled, undotted, noDots, ?_⟩
        rw [List.map_cons, List.cons_append, intercalate_cons_append, ← spelled]
        simp
  · rintro ⟨front, stem, rfl, filled, undotted, noDots, spelled⟩
    induction front generalizing name with
    | nil =>
      obtain rfl : name = stem := String.toList_inj.1 (by simpa using spelled)
      exact folder.name?_singleton.2 ⟨rfl, filled, undotted, noDots⟩
    | cons first front ih =>
      have inside := @ih (String.ofList (['.'].intercalate (front.map String.toList ++ [stem.toList]))) (by simp)
      obtain ⟨next, rest, more⟩ : ∃ next rest, front ++ [stem ++ "." ++ folder.extension] = next :: rest :=
        List.exists_cons_of_ne_nil (by simp)
      rw [more] at inside
      rw [List.map_cons, List.cons_append, intercalate_cons_append] at spelled
      rw [List.cons_append, more, name?, inside]
      · simp [← String.toList_inj, spelled]
      · simp

theorem nameOf?_path (folder : TemplateFolder) (filled : folder.extension ≠ "")
    (undotted : '.' ∉ folder.extension.toList) (noSlash : '/' ∉ folder.extension.toList)
    (named : Named segments name) : folder.nameOf? (folder.path name) = some name := by
  obtain ⟨front, segment, rfl, each, last⟩ := named.ends
  have dotted : Path.suffix folder.extension.toList = '.' :: folder.extension.toList :=
    if_neg fun empty => filled (String.toList_injective empty)
  have split : splitAll '/' (Path.suffix folder.extension.toList) = ['.' :: folder.extension.toList] := by
    rw [dotted, splitAll_of_free (by simpa using noSlash)]
  have names := folder.names_file (fun segment mem => (each segment mem).bare) last.bare split
  rw [nameOf?, folder.path_eq_file named, names, if_pos (List.prefix_append _ _), List.drop_left, List.filter_nil]
  refine folder.name?_eq_some.2 ⟨front.map String.ofList, String.ofList segment, ?_, ?_, undotted, ?_, ?_⟩
  · simp [← String.toList_inj]
  · exact fun empty => last.filled (by simpa [← String.toList_inj] using empty)
  · intro dots
    have head : '.' ∈ segment := by
      obtain ⟨c, rest, rfl⟩ := List.exists_cons_of_ne_nil last.filled
      have same := congrArg String.toList dots
      simp only [String.toList_append, String.toList_ofList, List.cons_append] at same
      exact (List.cons.inj same).1 ▸ List.mem_cons_self
    exact last.no_dot head
  · simp [named.spelled, Function.comp_def]

/-- A folder gives nothing but what is below it, each template from a place of its own. -/
structure StaysBelow (folder : TemplateFolder) : Prop where
  /-- A text that is no row of segments is not looked for, whatever files there are. -/
  refused {name : String} : (¬∃ segments, Named segments name) → ∀ files, folder.load? files name = none
  /-- A name leads to the file of its segments, and what is loaded is what is read there. -/
  found {segments : List (List Char)} {name : String} : Named segments name →
    folder.path name = folder.file segments ∧
      ∀ files, folder.load? files name = (files.read (folder.file segments)).toOption
  /-- No segment leads out of the folder that it is looked for in, or further than one step. -/
  inside {segments : List (List Char)} {name : String} : Named segments name → ∀ segment ∈ segments,
    segment ≠ [] ∧ segment ≠ ['.'] ∧ segment ≠ ['.', '.'] ∧ '/' ∉ segment ∧ '\\' ∉ segment
  /-- Two names lead to two places, and not only to two spellings of one place. -/
  apart {segments segments' : List (List Char)} {name name' : String} : Named segments name → Named segments' name' →
    Path.names (folder.path name).toList = Path.names (folder.path name').toList → name = name'
  /-- A file tells its template, if it has an extension to be cut off. No extension has a slash in it, since it ends the
  name of one file. -/
  told : folder.extension ≠ "" → '.' ∉ folder.extension.toList → '/' ∉ folder.extension.toList →
    ∀ {segments : List (List Char)} {name : String}, Named segments name → folder.nameOf? (folder.path name) = some name

theorem staysBelow (folder : TemplateFolder) : folder.StaysBelow where
  refused := folder.load?_unnamed
  found named := ⟨folder.path_eq_file named, folder.load?_named named⟩
  inside named segment mem :=
    have isSegment := named.each segment mem
    ⟨isSegment.filled, isSegment.ne_dot, isSegment.ne_dots, isSegment.no_slash, isSegment.no_backslash⟩
  apart := folder.path_injective
  told filled undotted noSlash _ _ named := folder.nameOf?_path filled undotted noSlash named

example : { root := "/srv/views", extension := "html" : TemplateFolder }.path "blog.post" =
    "/srv/views/blog/post.html" := by decide

end TemplateFolder
end Stencil
