import Stencil.Engine.Run
import Stencil.Proofs.TemplateGrammar
import Stencil.Proofs.TokenCut

/-! Text that is to come out as it stands. Of two at signs the first is left out, and without one nothing but the
marks of an interpolation or a comment starts anything. So whatever else a text has in it, it is written as a
template by doubling its at signs. -/

namespace Stencil.Template
open Text

/-- The text with each at sign written twice. -/
def doubled : List Char → List Char
  | [] => []
  | c :: rest => if c = '@' then '@' :: '@' :: doubled rest else c :: doubled rest

/-- The template that a text is written as. -/
def doubling (text : String) : String := String.ofList (doubled text.toList)

/-- The text has no mark in it that could open an interpolation. -/
def Bare (text : List Char) : Prop := ∀ marks ∈ [echoMarks, rawMarks], ¬ marks.1 <:+: text

instance (text : List Char) : Decidable (Bare text) :=
  inferInstanceAs (Decidable (∀ marks ∈ [echoMarks, rawMarks], ¬ marks.1 <:+: text))

/-- The source reads as one text, without a complaint, and that is what it prints. -/
structure ComesOut (source text : String) : Prop where
  silent : ∀ name, (parse name source).diagnostics = []
  whole : ∀ name, (parse name source).nodes = if text = "" then [] else [.text ⟨0, byteLength source.toList⟩ text]
  /-- No expression is read on the way either. -/
  printed : ∀ (engine : Engine) data evaluator, engine.renderInline source data evaluator = (.ok text, evaluator)

variable {text : List Char}

theorem Bare.behind {c : Char} (bare : Bare (c :: text)) : Bare text :=
  fun marks known inside => bare marks known (inside.trans (List.suffix_cons c text).isInfix)

theorem prefix_of_doubled {pattern : List Char} (signless : '@' ∉ pattern) (begins : pattern <+: doubled text) :
    pattern <+: text := by
  fun_induction doubled text generalizing pattern with
  | case1 => exact begins
  | case2 rest ih =>
    cases pattern with
    | nil => exact List.nil_prefix
    | cons c pattern =>
      obtain ⟨rfl, _⟩ := List.cons_prefix_cons.1 begins
      exact absurd List.mem_cons_self signless
  | case3 c rest other ih =>
    cases pattern with
    | nil => exact List.nil_prefix
    | cons first pattern =>
      obtain ⟨rfl, behind⟩ := List.cons_prefix_cons.1 begins
      exact List.cons_prefix_cons.2 ⟨rfl, ih (fun mem => signless (List.mem_cons_of_mem _ mem)) behind⟩

/-- Doubling puts no mark together. -/
theorem opensWith_doubled (bare : Bare text) {marks : List Char × List Char}
    (known : marks ∈ [commentMarks, rawMarks, echoMarks]) : opensWith marks (doubled text) = false := by
  rw [Bool.eq_false_iff]
  intro opens
  have begins := opensWith_iff.1 opens
  simp only [List.mem_cons, List.not_mem_nil, or_false] at known
  rcases known with rfl | rfl | rfl
  · have begins := prefix_of_doubled (by decide) begins
    have shorter : echoMarks.1 <+: commentMarks.1 := by decide
    exact bare echoMarks (by decide) (shorter.trans begins).isInfix
  · exact bare rawMarks (by decide) (prefix_of_doubled (by decide) begins).isInfix
  · exact bare echoMarks (by decide) (prefix_of_doubled (by decide) begins).isInfix

theorem pieceAt_doubled {inWord : Bool} {c : Char} {tail : List Char} (bare : Bare text)
    (written : doubled text = c :: tail) :
    pieceAt inWord c tail = if c = '@' then atSign inWord tail else (.literal [c], 0) := by
  have unopened {marks : List Char × List Char} (known : marks ∈ [commentMarks, rawMarks, echoMarks]) :
      ¬ opensWith marks (c :: tail) = true := by
    rw [← written, opensWith_doubled bare known]
    exact nofun
  unfold pieceAt
  rw [if_neg (unopened (by simp)), if_neg (unopened (by simp)), if_neg (unopened (by simp))]

theorem Pending.push_push (pending : Pending) (position later : Nat) (c : Char) (text : List Char) :
    (pending.push position [c]).push later text = pending.push position (c :: text) := by
  simp [push]

theorem Pending.flush_push_nil (pending : Pending) (position stop : Nat) :
    (pending.push position []).flush stop = pending.flush stop := by
  unfold flush push
  cases pending.reversed <;> rfl

/-- The scan gathers the whole text and has nothing to cut off on the way. -/
theorem tokenizeFrom_doubled (bare : Bare text) (position : Nat) (pending : Pending) :
    tokenizeFrom position pending (doubled text) =
      (pending.push position text).flush (position + byteLength (doubled text)) := by
  fun_induction doubled text generalizing position pending with
  | case1 =>
    rw [tokenizeFrom, Pending.flush_push_nil]
    rfl
  | case2 rest ih =>
    have written : doubled ('@' :: rest) = '@' :: '@' :: doubled rest := if_pos rfl
    rw [tokenizeFrom, pieceAt_doubled bare written]
    change tokenizeFrom (position + '@'.utf8Size + byteLength ['@']) (pending.push position ['@']) (doubled rest) = _
    rw [ih bare.behind, Pending.push_push]
    simp only [byteLength, Nat.add_assoc, Nat.add_zero]
  | case3 c rest other ih =>
    have written : doubled (c :: rest) = c :: doubled rest := if_neg other
    rw [tokenizeFrom, pieceAt_doubled bare written, if_neg other]
    change tokenizeFrom (position + c.utf8Size + byteLength []) (pending.push position [c]) (doubled rest) = _
    rw [ih bare.behind, Pending.push_push]
    simp only [byteLength, Nat.add_assoc, Nat.add_zero]

theorem tokenize_doubling {text : String} (bare : Bare text.toList) : tokenize (doubling text) =
    if text = "" then [] else [⟨.text text, ⟨0, byteLength (doubling text).toList⟩⟩] := by
  unfold tokenize doubling
  rw [String.toList_ofList, tokenizeFrom_doubled bare]
  by_cases empty : text = ""
  · rw [if_pos empty, empty]
    rfl
  · have some : text.toList.reverse.isEmpty = false := by simpa using empty
    simp [Pending.flush, Pending.push, some, if_neg empty]

theorem read_doubling {text : String} (bare : Bare text.toList) : read (doubling text) =
    (if text = "" then [] else [.text ⟨0, byteLength (doubling text).toList⟩ text], []) := by
  apply items_iff_read.1
  rw [tokenize_doubling bare]
  split
  · exact .nil
  · exact .text nofun .nil

theorem renderInline_doubling {text : String} (bare : Bare text.toList) (engine : Engine) (data : Value)
    (evaluator : Evaluator) : engine.renderInline (doubling text) data evaluator = (.ok text, evaluator) := by
  have nodes : (parse "" (doubling text)).nodes = _ := congrArg Prod.fst (read_doubling bare)
  change engine.run (Render.onStack fun below => Render.fragment below (parse "" (doubling text)) _) evaluator = _
  unfold Render.fragment Render.layout
  rw [nodes]
  by_cases empty : text = ""
  · rw [if_pos empty, empty]
    rfl
  · rw [if_neg empty]
    change (Except.ok (text ++ ""), evaluator) = _
    rw [String.append_empty]

/-- A text without the marks of interpolations comes out of the template that doubles its at signs. -/
theorem doubled_signs_come_out {text : String} (bare : Bare text.toList) : ComesOut (doubling text) text where
  silent _ := congrArg Prod.snd (read_doubling bare)
  whole _ := congrArg Prod.fst (read_doubling bare)
  printed engine data evaluator := renderInline_doubling bare engine data evaluator

/-- An address, what could be directives, and braces that open nothing. -/
def signed : String := "a@b.c @if('@@else \x7b \x7d\x7d"

theorem signed_bare : Bare signed.toList := by
  have letters : signed.toList = ['a', '@', 'b', '.', 'c', ' ', '@', 'i', 'f', '(', '\'', '@', '@', 'e', 'l', 's', 'e',
      ' ', '\x7b', ' ', '\x7d', '\x7d'] := by simp [signed]
  rw [letters]
  decide

theorem signed_comes_out : Bare signed.toList ∧ ComesOut (doubling signed) signed :=
  ⟨signed_bare, doubled_signs_come_out signed_bare⟩

end Stencil.Template
