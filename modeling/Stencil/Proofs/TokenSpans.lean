import Stencil.Proofs.TokenPieces

/-! Where the tokens stand. Each one takes up some characters of the source, they follow each
other in its order, and all that lies between them is comments. -/

namespace Stencil.Text

/-- Ends no later than the other one starts. -/
def Span.Before (first second : Span) : Prop := first.stop ≤ second.start

def Span.Within (inner outer : Span) : Prop := outer.start ≤ inner.start ∧ inner.stop ≤ outer.stop

/-- Around some whole characters of the text. -/
def Span.Fits (text : List Char) (span : Span) : Prop :=
  ∃ before written after, text = before ++ (written ++ after) ∧ written ≠ [] ∧
    span = ⟨byteLength before, byteLength before + byteLength written⟩

theorem Span.Fits.starts {text : List Char} {span : Span} (fits : span.Fits text) : Boundary text span.start := by
  obtain ⟨before, written, after, rfl, _, rfl⟩ := fits
  exact ⟨before, written ++ after, rfl, rfl⟩

theorem Span.Fits.stops {text : List Char} {span : Span} (fits : span.Fits text) : Boundary text span.stop := by
  obtain ⟨before, written, after, rfl, _, rfl⟩ := fits
  exact ⟨before ++ written, after, by simp, by simp⟩

theorem Span.Fits.nonempty {text : List Char} {span : Span} (fits : span.Fits text) : span.start < span.stop := by
  obtain ⟨before, written, after, _, some, rfl⟩ := fits
  have := byteLength_pos some
  dsimp only
  omega

end Stencil.Text

namespace Stencil.Template
open Text

/-- Nothing but whole comments. -/
def Comments (text : List Char) : Prop :=
  ∃ comments : List (List Char), (∀ comment ∈ comments, IsComment comment) ∧ text = comments.flatten

theorem Comments.nil : Comments [] := ⟨[], List.forall_mem_nil _, rfl⟩

theorem Comments.cons {comment text : List Char} (here : IsComment comment) (behind : Comments text) :
    Comments (comment ++ text) := by
  obtain ⟨comments, all, rfl⟩ := behind
  exact ⟨comment :: comments, List.forall_mem_cons.2 ⟨here, all⟩, rfl⟩

/-- A text from a position on, taken up by spans that follow each other. Each is around some
characters, and between and around them are comments. -/
inductive Tiled : Nat → List Char → List Span → Prop where
  | nil {position : Nat} {gap : List Char} (comments : Comments gap) : Tiled position gap []
  | cons {position : Nat} {gap written text : List Char} {spans : List Span} (comments : Comments gap)
      (some : written ≠ []) (behind : Tiled (position + byteLength gap + byteLength written) text spans) :
      Tiled position (gap ++ (written ++ text))
        (⟨position + byteLength gap, position + byteLength gap + byteLength written⟩ :: spans)

theorem Tiled.bounds {position : Nat} {text : List Char} {spans : List Span} (tiled : Tiled position text spans) :
    ∀ span ∈ spans, position ≤ span.start ∧ span.start < span.stop ∧ span.stop ≤ position + byteLength text := by
  induction tiled with
  | nil => exact List.forall_mem_nil _
  | cons comments some behind ih =>
    have := byteLength_pos some
    simp only [byteLength_append]
    refine List.forall_mem_cons.2 ⟨⟨?_, ?_, ?_⟩, fun span mem => ?_⟩
    · dsimp only
      omega
    · dsimp only
      omega
    · dsimp only
      omega
    · have := ih span mem
      omega

theorem Tiled.ordered {position : Nat} {text : List Char} {spans : List Span} (tiled : Tiled position text spans) :
    spans.Pairwise Span.Before := by
  induction tiled with
  | nil => exact .nil
  | cons comments some behind ih => exact .cons (fun span mem => (behind.bounds span mem).1) ih

theorem Tiled.fits {before text : List Char} {spans : List Span} (tiled : Tiled (byteLength before) text spans) :
    ∀ span ∈ spans, span.Fits (before ++ text) := by
  generalize place : byteLength before = position at tiled
  induction tiled generalizing before with
  | nil => exact List.forall_mem_nil _
  | @cons position gap written text spans comments some behind ih =>
    subst place
    refine List.forall_mem_cons.2 ⟨⟨before ++ gap, written, text, by simp, some, by simp⟩, fun span mem => ?_⟩
    have further := @ih (before ++ gap ++ written) (by simp [Nat.add_assoc]) span mem
    simpa using further

/-- What pieces take up. -/
def width (row : List (List Char × Piece)) : Nat := byteLength (row.flatMap Prod.fst)

@[simp] theorem width_append (first second : List (List Char × Piece)) :
    width (first ++ second) = width first + width second := by
  rw [width, List.flatMap_append, byteLength_append]
  rfl

@[simp] theorem width_nil : width [] = 0 := rfl

@[simp] theorem width_cons (piece : List Char × Piece) (row : List (List Char × Piece)) :
    width (piece :: row) = byteLength piece.1 + width row := byteLength_append ..

/-- The pieces of a token: literal ones for text, and a single one for any other. -/
inductive Spells : List (List Char × Piece) → Token → Prop where
  | text {literals : List (List Char × List Char)} (some : literals ≠ []) :
      Spells (literals.map fun (written, text) => (written, .literal text))
        (.text (String.ofList (literals.flatMap Prod.snd)))
  | mark {written : List Char} {token : Token} (mark : ∀ text, token ≠ .text text) :
      Spells [(written, .token token)] token

/-- Pieces from a position on and their tokens, with comments between and around them. -/
inductive Laid : Nat → List (List Char × Piece) → List Lexeme → Prop where
  | nil {position : Nat} {gap : List (List Char × Piece)} (comments : ∀ piece ∈ gap, piece.2 = .comment) :
      Laid position gap []
  | cons {position : Nat} {gap written row : List (List Char × Piece)} {lexemes : List Lexeme} {token : Token}
      (comments : ∀ piece ∈ gap, piece.2 = .comment) (spells : Spells written token)
      (behind : Laid (position + width gap + width written) row lexemes) :
      Laid position (gap ++ (written ++ row))
        (⟨token, ⟨position + width gap, position + width gap + width written⟩⟩ :: lexemes)

theorem comments_flatMap {gap : List (List Char × Piece)} (genuine : ∀ piece ∈ gap, Piece.Written piece.1 piece.2)
    (all : ∀ piece ∈ gap, piece.2 = .comment) : Comments (gap.flatMap Prod.fst) := by
  induction gap with
  | nil => exact .nil
  | cons first gap ih =>
    obtain ⟨written, piece⟩ := first
    obtain ⟨here, others⟩ := List.forall_mem_cons.1 genuine
    obtain ⟨rfl, comments⟩ := List.forall_mem_cons.1 all
    cases here with
    | comment comment => exact .cons comment (ih others comments)

theorem Spells.genuine {written : List (List Char × Piece)} {token : Token} (spells : Spells written token)
    (genuine : ∀ piece ∈ written, Piece.Written piece.1 piece.2) :
    written.flatMap Prod.fst ≠ [] ∧
      ∀ text, token = .text text → Unescaped (written.flatMap Prod.fst) text.toList := by
  cases spells with
  | @text literals some =>
    have each : ∀ literal ∈ literals, literal.1 ≠ [] ∧ Unescaped literal.1 literal.2 := by
      rintro ⟨written, text⟩ mem
      cases genuine (written, .literal text) (List.mem_map_of_mem mem) with
      | literal some unescaped =>
        refine ⟨?_, unescaped⟩
        rintro rfl
        cases unescaped
        exact some rfl
    refine ⟨?_, ?_⟩
    · obtain ⟨literal, mem⟩ := List.exists_mem_of_ne_nil literals some
      simp only [List.flatMap_map, ne_eq, List.flatMap_eq_nil_iff]
      exact fun none => (each literal mem).1 (none literal mem)
    · rintro _ ⟨⟩
      rw [List.flatMap_map, String.toList_ofList]
      clear some genuine
      induction literals with
      | nil => exact .nil
      | cons literal literals ih =>
        obtain ⟨⟨_, here⟩, others⟩ := List.forall_mem_cons.1 each
        exact here.append (ih others)
  | mark mark =>
    cases genuine _ List.mem_cons_self with
    | token some _ => exact ⟨by simpa using some, fun text same => absurd same (mark text)⟩

theorem Laid.tiled {position : Nat} {row : List (List Char × Piece)} {lexemes : List Lexeme}
    (laid : Laid position row lexemes) (genuine : ∀ piece ∈ row, Piece.Written piece.1 piece.2) :
    Tiled position (row.flatMap Prod.fst) (lexemes.map Located.span) := by
  induction laid with
  | nil comments => exact .nil (comments_flatMap genuine comments)
  | cons comments spells _ ih =>
    simp only [List.forall_mem_append] at genuine
    obtain ⟨before, here, behind⟩ := genuine
    rw [List.flatMap_append, List.flatMap_append]
    exact .cons (comments_flatMap before comments) (spells.genuine here).1 (ih behind)

theorem Laid.texts {before : List Char} {row : List (List Char × Piece)} {lexemes : List Lexeme}
    (laid : Laid (byteLength before) row lexemes) (genuine : ∀ piece ∈ row, Piece.Written piece.1 piece.2) :
    ∀ lexeme ∈ lexemes, ∀ literal, lexeme.value = .text literal →
      Unescaped (slice (before ++ row.flatMap Prod.fst) lexeme.span) literal.toList := by
  generalize place : byteLength before = position at laid
  induction laid generalizing before with
  | nil => exact List.forall_mem_nil _
  | @cons position gap written row lexemes token comments spells behind ih =>
    subst place
    simp only [List.forall_mem_append] at genuine
    obtain ⟨-, here, later⟩ := genuine
    rw [List.flatMap_append, List.flatMap_append]
    refine List.forall_mem_cons.2 ⟨fun literal same => ?_, fun lexeme mem => ?_⟩
    · have between := slice_between (before ++ gap.flatMap Prod.fst) (written.flatMap Prod.fst) (row.flatMap Prod.fst)
      rw [byteLength_append, List.append_assoc] at between
      rw [width, width, between]
      exact (spells.genuine here).2 literal same
    · have further := @ih (before ++ gap.flatMap Prod.fst ++ written.flatMap Prod.fst) later (by simp [width, Nat.add_assoc])
        lexeme mem
      simpa using further

theorem Laid.comment {position : Nat} {written : List Char} {row : List (List Char × Piece)} {lexemes : List Lexeme}
    (behind : Laid (position + byteLength written) row lexemes) :
    Laid position ((written, .comment) :: row) lexemes := by
  cases behind with
  | nil comments => exact .nil (List.forall_mem_cons.2 ⟨rfl, comments⟩)
  | @cons _ gap _ _ _ _ comments spells behind =>
    have wider : position + byteLength written + width gap = position + width ((written, .comment) :: gap) := by
      rw [width_cons, Nat.add_assoc]
    rw [wider] at behind ⊢
    exact @Laid.cons position ((written, .comment) :: gap) _ _ _ _ (List.forall_mem_cons.2 ⟨rfl, comments⟩) spells behind

theorem Laid.token {position : Nat} {written row : List (List Char × Piece)} {lexemes : List Lexeme} {token : Token}
    (spells : Spells written token) (behind : Laid (position + width written) row lexemes) :
    Laid position (written ++ row) (⟨token, ⟨position, position + width written⟩⟩ :: lexemes) :=
  @Laid.cons position [] _ _ _ _ (List.forall_mem_nil _) spells behind

theorem Laid.mark {position : Nat} {written : List Char} {row : List (List Char × Piece)} {lexemes : List Lexeme}
    {token : Token} (mark : ∀ text, token ≠ .text text) (behind : Laid (position + byteLength written) row lexemes) :
    Laid position ((written, .token token) :: row) (⟨token, ⟨position, position + byteLength written⟩⟩ :: lexemes) := by
  have single := @Laid.token position [(written, .token token)] row lexemes token (.mark mark)
  rw [width_cons, width_nil, Nat.add_zero] at single
  exact single behind

theorem Laid.gap {position : Nat} {gap row : List (List Char × Piece)} {lexemes : List Lexeme}
    (comments : ∀ piece ∈ gap, piece.2 = .comment) (behind : Laid (position + width gap) row lexemes) :
    Laid position (gap ++ row) lexemes := by
  induction gap generalizing position with
  | nil => simpa using behind
  | cons first gap ih =>
    obtain ⟨written, piece⟩ := first
    obtain ⟨rfl, others⟩ := List.forall_mem_cons.1 comments
    exact .comment (ih others (by simpa [Nat.add_assoc] using behind))

theorem Laid.append {position : Nat} {row row' : List (List Char × Piece)} {lexemes lexemes' : List Lexeme}
    (first : Laid position row lexemes) (second : Laid (position + width row) row' lexemes') :
    Laid position (row ++ row') (lexemes ++ lexemes') := by
  induction first with
  | nil comments => exact .gap comments second
  | cons comments spells _ ih =>
    rw [List.append_assoc, List.append_assoc, List.cons_append]
    exact .cons comments spells (ih (by simpa [Nat.add_assoc] using second))

/-- Some of the first tokens take up the pieces from where the first of them starts to where the last one stops. -/
theorem Laid.split {position : Nat} {row : List (List Char × Piece)} {lexeme : Lexeme} {inner behind : List Lexeme}
    (laid : Laid position row (lexeme :: (inner ++ behind))) :
    ∃ gap written rest, row = gap ++ (written ++ rest) ∧ (∀ piece ∈ gap, piece.2 = .comment) ∧
      Laid (position + width gap) written (lexeme :: inner) ∧ Laid (position + width gap + width written) rest behind ∧
      lexeme.span.start = position + width gap ∧
      ∃ last ∈ lexeme :: inner, last.span.stop = position + width gap + width written := by
  induction inner generalizing position row lexeme with
  | nil =>
    cases laid with
    | @cons _ gap written rest _ token comments spells laid =>
      have alone := @Laid.token (position + width gap) written [] [] token spells (.nil (List.forall_mem_nil _))
      rw [List.append_nil] at alone
      exact ⟨gap, written, rest, rfl, comments, alone, laid, rfl, _, List.mem_cons_self, rfl⟩
  | cons next inner ih =>
    cases laid with
    | @cons _ gap written rest _ token comments spells laid =>
      obtain ⟨gap', written', rest, rfl, comments', first, second, -, last, mem, stops⟩ := ih laid
      refine ⟨gap, written ++ (gap' ++ written'), rest, by simp, comments, .token spells (.gap comments' first), ?_, rfl,
        last, List.mem_cons_of_mem _ mem, ?_⟩
      · simpa [Nat.add_assoc] using second
      · simpa [Nat.add_assoc] using stops

/-- Literal pieces held back from where the first of them starts. -/
structure Held (pending : Pending) (start : Nat) (literals : List (List Char × List Char)) : Prop where
  start : literals ≠ [] → pending.start = start
  text : pending.reversed.reverse = literals.flatMap Prod.snd
  some : ∀ literal ∈ literals, literal.2 ≠ []

namespace Held
variable {pending : Pending} {start : Nat} {literals : List (List Char × List Char)}

/-- The pieces held back. -/
def row (literals : List (List Char × List Char)) : List (List Char × Piece) :=
  literals.map fun (written, text) => (written, .literal text)

theorem nothing (start : Nat) : Held {} start [] where
  start := nofun
  text := rfl
  some := List.forall_mem_nil _

theorem empty (holds : Held pending start literals) : pending.reversed = [] ↔ literals = [] := by
  rw [← List.reverse_eq_nil_iff, holds.text, List.flatMap_eq_nil_iff]
  constructor
  · intro none
    cases literals with
    | nil => rfl
    | cons literal literals =>
      exact absurd (none literal List.mem_cons_self) (holds.some literal List.mem_cons_self)
  · rintro rfl
    exact List.forall_mem_nil _

theorem push (holds : Held pending start literals) {written text : List Char} (some : text ≠ []) :
    Held (pending.push (start + width (row literals)) text) start (literals ++ [(written, text)]) where
  start _ := by
    unfold Pending.push
    cases literals with
    | nil => simp [holds.empty.2 rfl, row, width, byteLength]
    | cons literal literals =>
      have : pending.reversed ≠ [] := mt holds.empty.1 (by simp)
      simp [this, holds.start]
  text := by simp [Pending.push, holds.text]
  some := List.forall_mem_append.2 ⟨holds.some, by simpa using some⟩

theorem laid (holds : Held pending start literals) {others : List (List Char × Piece)} {lexemes : List Lexeme}
    (behind : Laid (start + width (row literals)) others lexemes) :
    Laid start (row literals ++ others) (pending.flush (start + width (row literals)) ++ lexemes) := by
  unfold Pending.flush
  cases literals with
  | nil => simpa [holds.empty.2 rfl, row, width, byteLength] using behind
  | cons literal literals =>
    have some : pending.reversed ≠ [] := mt holds.empty.1 (by simp)
    rw [if_neg (by simpa using some), holds.start (List.cons_ne_nil _ _), holds.text]
    exact .token (.text (List.cons_ne_nil _ _)) behind

end Held

theorem laid_assemble {row : List (List Char × Piece)} (genuine : ∀ piece ∈ row, Piece.Written piece.1 piece.2)
    {pending : Pending} {start : Nat} {literals : List (List Char × List Char)} (holds : Held pending start literals) :
    Laid start (Held.row literals ++ row) (assemble (start + width (Held.row literals)) pending row) := by
  induction row generalizing pending start literals with
  | nil => simpa [assemble] using holds.laid (.nil (List.forall_mem_nil _))
  | cons first row ih =>
    obtain ⟨written, piece⟩ := first
    obtain ⟨here, others⟩ := List.forall_mem_cons.1 genuine
    have onwards : Laid (start + width (Held.row literals) + byteLength written) row _ := ih others (.nothing _)
    cases here with
    | literal some unescaped =>
      have joined := ih others (@Held.push _ _ _ holds written _ some)
      simpa [Held.row, Nat.add_assoc, assemble] using joined
    | comment => exact holds.laid (.comment onwards)
    | token some mark => exact holds.laid (.mark mark onwards)

/-- Cutting a source into tokens, it is laid out in the pieces of the source. -/
theorem laid_tokenize (source : String) : Laid 0 (pieces false source.toList) (tokenize source) := by
  rw [tokenize_eq_assemble]
  exact laid_assemble (pieces_written false source.toList) (.nothing 0)

theorem tiled_tokenize (source : String) : Tiled 0 source.toList ((tokenize source).map Located.span) := by
  have tiled := (laid_tokenize source).tiled (pieces_written false source.toList)
  rwa [pieces_flatten] at tiled

theorem texts_tokenize (source : String) : ∀ lexeme ∈ tokenize source, ∀ text, lexeme.value = .text text →
    Unescaped (slice source.toList lexeme.span) text.toList := by
  have texts := @Laid.texts [] _ _ (laid_tokenize source) (pieces_written false source.toList)
  rwa [List.nil_append, pieces_flatten] at texts

end Stencil.Template
