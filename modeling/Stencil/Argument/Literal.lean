import Stencil.Argument.Split
import Stencil.Text.Search
import Stencil.Expr.Quoted

/-! Literals in argument text: a text in quotes, and an object in braces whose members are
cut at top-level commas and colons. -/

namespace Stencil.Argument
open Text

/-- Whether the quote stands inside without an escape, or the last escape is left open. -/
def breaksOff (quote : Char) : List Char → Bool
  | [] => false
  | '\\' :: [] => true
  | '\\' :: _ :: rest => breaksOff quote rest
  | c :: rest => c = quote || breaksOff quote rest

/-- The contents of a literal that is the whole text. Text like `'a' + 'b'` is none, since
its first literal ends early. -/
def stringLiteral? (text : List Char) : Option (List Char) :=
  match trim text with
  | [] => none
  | quote :: rest =>
    if (quote = '\'' || quote = '"') && rest.getLast? == some quote
        && !breaksOff quote rest.dropLast then
      some (Expr.Quoted.decode rest.dropLast)
    else none

/-- A key with the raw text of its value. The key may be quoted, and neither is empty. -/
def member? (text : List Char) : Option (List Char × List Char) := do
  let (key, value) ← splitOnce? ':' text
  let key := (stringLiteral? key).getD key
  if key.isEmpty || value.isEmpty then none else some (key, value)

theorem length_lt_of_member? {text key value : List Char} (read : member? text = some (key, value)) :
    value.length < text.length := by
  simp only [member?, Option.bind_eq_bind, Option.bind_eq_some_iff] at read
  obtain ⟨⟨first, last⟩, cut, rest⟩ := read
  simp only [Option.ite_none_left_eq_some] at rest
  obtain ⟨-, same⟩ := rest
  obtain ⟨rfl, rfl⟩ := Prod.mk.inj (Option.some.inj same)
  exact length_lt_of_splitOnce? cut

/-- Every part is a member or is empty. -/
def members? : List (List Char) → Option (List (List Char × List Char))
  | [] => some []
  | part :: parts =>
    if part.isEmpty then members? parts
    else do
      let member ← member? part
      let rest ← members? parts
      some (member :: rest)

theorem mem_members? {parts : List (List Char)} {found : List (List Char × List Char)}
    (read : members? parts = some found) {member : List Char × List Char} (inside : member ∈ found) :
    ∃ part ∈ parts, member? part = some member := by
  induction parts generalizing found with
  | nil => simp_all [members?]
  | cons part parts ih =>
    unfold members? at read
    split at read
    · obtain ⟨part, inside, read⟩ := ih read inside
      exact ⟨part, List.mem_cons_of_mem _ inside, read⟩
    · simp only [Option.bind_eq_bind, Option.bind_eq_some_iff] at read
      obtain ⟨first, head, rest, tail, same⟩ := read
      cases same
      rcases List.mem_cons.1 inside with rfl | inside
      · exact ⟨part, List.mem_cons_self, head⟩
      · obtain ⟨part, inside, read⟩ := ih tail inside
        exact ⟨part, List.mem_cons_of_mem _ inside, read⟩

/-- The text between the braces. -/
def objectBody? (text : List Char) : Option (List Char) :=
  (stripPrefix? ['\x7b'] (trim text)).bind (stripSuffix? ['\x7d'])

/-- The members of an object literal in source order; empty ones are skipped. -/
def objectMembers? (text : List Char) : Option (List (List Char × List Char)) :=
  (objectBody? text).bind fun body => members? (split ',' body)

theorem length_lt_of_objectBody? {text body : List Char} (read : objectBody? text = some body) :
    body.length < text.length := by
  obtain ⟨inner, opened, closed⟩ := Option.bind_eq_some_iff.1 read
  have outer := stripPrefix?_eq_some.1 opened
  obtain ⟨rest, behind, rfl⟩ := Option.map_eq_some_iff.1 closed
  have inside := congrArg List.length (stripPrefix?_eq_some.1 behind)
  have whole := congrArg List.length outer
  have := length_trim_le text
  simp at inside whole ⊢
  omega

theorem length_lt_of_mem_objectMembers? {text : List Char} {found : List (List Char × List Char)}
    (read : objectMembers? text = some found) {member : List Char × List Char} (inside : member ∈ found) :
    member.2.length < text.length := by
  obtain ⟨body, braces, rest⟩ := Option.bind_eq_some_iff.1 read
  obtain ⟨part, among, shape⟩ := mem_members? rest inside
  have := length_lt_of_objectBody? braces
  have := length_le_of_mem_split among
  have := length_lt_of_member? shape
  omega

/-- Whether an argument is to be read as an object literal. -/
def isObject (text : List Char) : Bool := (trimLeft text).head? == some '\x7b'

end Stencil.Argument
