import Stencil.Argument.Split
import Stencil.Template.Node

/-! Which directives open a block, which close or divide one, and which stand alone. -/

namespace Stencil.Template
open Text

inductive Opener where
  | sectionBlock | foreach | counting | slot | component | conditional
deriving DecidableEq, Repr

/-- Closers end a block. The two separators divide a conditional and also end what is
before them. -/
inductive Closer where
  | elseIf | otherwise | endIf | endForeach | endCounting | endSection | endComponent | endSlot
deriving DecidableEq, Repr

namespace Opener

def name : Opener → String
  | sectionBlock => "section"
  | foreach => "foreach"
  | counting => "for"
  | slot => "slot"
  | component => "component"
  | conditional => "if"

def all : List Opener := [sectionBlock, foreach, counting, slot, component, conditional]

/-- What ends the first body of the block. -/
def stops : Opener → List Closer
  | sectionBlock => [.endSection]
  | foreach => [.endForeach]
  | counting => [.endCounting]
  | slot => [.endSlot]
  | component => [.endComponent]
  | conditional => [.elseIf, .otherwise, .endIf]

end Opener

namespace Closer

def name : Closer → String
  | elseIf => "elseif"
  | otherwise => "else"
  | endIf => "endif"
  | endForeach => "endforeach"
  | endCounting => "endfor"
  | endSection => "endsection"
  | endComponent => "endcomponent"
  | endSlot => "endslot"

def all : List Closer :=
  [elseIf, otherwise, endIf, endForeach, endCounting, endSection, endComponent, endSlot]

end Closer

inductive Role where
  | opener (opener : Opener)
  | closer (closer : Closer)
  | standalone
deriving DecidableEq, Repr

/-- Whether a section names its content in its arguments and so has no body. -/
def isInlineSection (args : String) : Bool := 2 ≤ (Argument.list args).length

def roleOf (name args : String) : Role :=
  match Closer.all.find? fun closer => closer.name == name with
  | some closer => .closer closer
  | none =>
    match Opener.all.find? fun opener => opener.name == name with
    | some .sectionBlock => if isInlineSection args then .standalone else .opener .sectionBlock
    | some opener => .opener opener
    | none => .standalone

/-- The node of a directive that has no body. -/
def standaloneNode (span : Span) (name : String) (args : Option String) (raw : String) : Node :=
  let text := args.getD ""
  if name = "extends" then .extension span text
  else if name = "yield" then .yield span text
  else if name = "include" then .inclusion span text
  else if name = "section" then
    match Argument.list text with
    | [] => .sectionInline span "" ""
    | first :: content => .sectionInline span first (String.intercalate ", " content)
  else .directive span name args raw

theorem roleOf_closer (closer : Closer) (args : String) : roleOf closer.name args = .closer closer := by
  cases closer <;> rfl

theorem roleOf_section (args : String) :
    roleOf "section" args = if isInlineSection args then .standalone else .opener .sectionBlock := rfl

theorem roleOf_opener {opener : Opener} {args : String}
    (bodied : opener = .sectionBlock → isInlineSection args = false) :
    roleOf opener.name args = .opener opener := by
  cases opener with
  | sectionBlock => exact (roleOf_section args).trans (by rw [bodied rfl]; rfl)
  | foreach | counting | slot | component | conditional => rfl

theorem roleOf_other {name : String} (args : String) (noCloser : ∀ closer : Closer, name ≠ closer.name)
    (noOpener : ∀ opener : Opener, name ≠ opener.name) : roleOf name args = .standalone := by
  have closers : (Closer.all.find? fun closer => closer.name == name) = none :=
    List.find?_eq_none.2 fun closer _ same => noCloser closer (beq_iff_eq.1 same).symm
  have openers : (Opener.all.find? fun opener => opener.name == name) = none :=
    List.find?_eq_none.2 fun opener _ same => noOpener opener (beq_iff_eq.1 same).symm
  simp only [roleOf, closers, openers]

/-- A directive is a closer, opens a block, or stands alone; a section does one of the last two. -/
theorem roleOf_cases (name args : String) :
    (∃ closer : Closer, name = closer.name ∧ roleOf name args = .closer closer) ∨
    (∃ opener : Opener, name = opener.name ∧ (opener = .sectionBlock → isInlineSection args = false) ∧
      roleOf name args = .opener opener) ∨
    (name = "section" ∧ isInlineSection args = true ∧ roleOf name args = .standalone) ∨
    ((∀ closer : Closer, name ≠ closer.name) ∧ (∀ opener : Opener, name ≠ opener.name) ∧
      roleOf name args = .standalone) := by
  by_cases closes : ∃ closer : Closer, name = closer.name
  · obtain ⟨closer, rfl⟩ := closes
    exact .inl ⟨closer, rfl, roleOf_closer closer args⟩
  · by_cases opens : ∃ opener : Opener, name = opener.name
    · obtain ⟨opener, rfl⟩ := opens
      by_cases inline : opener = .sectionBlock ∧ isInlineSection args = true
      · obtain ⟨rfl, inline⟩ := inline
        exact .inr (.inr (.inl ⟨rfl, inline, (roleOf_section args).trans (by rw [inline]; rfl)⟩))
      · have bodied : opener = .sectionBlock → isInlineSection args = false := by simpa using inline
        exact .inr (.inl ⟨opener, rfl, bodied, roleOf_opener bodied⟩)
    · have noCloser := not_exists.1 closes
      have noOpener := not_exists.1 opens
      exact .inr (.inr (.inr ⟨noCloser, noOpener, roleOf_other args noCloser noOpener⟩))

theorem name_of_closer {name args : String} {closer : Closer} (role : roleOf name args = .closer closer) :
    name = closer.name := by
  rcases roleOf_cases name args with
    ⟨other, named, closes⟩ | ⟨_, _, _, opens⟩ | ⟨_, _, alone⟩ | ⟨_, _, alone⟩
  · cases closes.symm.trans role
    exact named
  · cases opens.symm.trans role
  · cases alone.symm.trans role
  · cases alone.symm.trans role

theorem name_of_opener {name args : String} {opener : Opener} (role : roleOf name args = .opener opener) :
    name = opener.name ∧ (opener = .sectionBlock → isInlineSection args = false) := by
  rcases roleOf_cases name args with
    ⟨_, _, closes⟩ | ⟨other, named, bodied, opens⟩ | ⟨_, _, alone⟩ | ⟨_, _, alone⟩
  · cases closes.symm.trans role
  · cases opens.symm.trans role
    exact ⟨named, bodied⟩
  · cases alone.symm.trans role
  · cases alone.symm.trans role

end Stencil.Template
