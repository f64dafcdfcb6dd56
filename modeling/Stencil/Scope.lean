import Stencil.Value

/-! Variables in nested layers. A name is looked up from the innermost layer outwards, so
an inner binding hides an outer one without changing it. -/

namespace Stencil

structure Scope where
  bindings : Fields Value := []
  /-- The layers around this one, the nearest first. -/
  outer : List (Fields Value) := []
deriving Inhabited

namespace Scope

def root (bindings : Fields Value) : Scope := { bindings }

/-- Values other than objects bind nothing. -/
def ofValue (value : Value) : Scope := root value.fields

def childWith (scope : Scope) (bindings : Fields Value) : Scope :=
  { bindings, outer := scope.bindings :: scope.outer }

def child (scope : Scope) : Scope := scope.childWith []

def insert (scope : Scope) (name : String) (value : Value) : Scope :=
  { scope with bindings := scope.bindings.insert name value }

def layers (scope : Scope) : List (Fields Value) := scope.bindings :: scope.outer

def get? (scope : Scope) (name : String) : Option Value :=
  scope.layers.findSome? fun layer => Fields.find? layer name

def contains (scope : Scope) (name : String) : Bool := (scope.get? name).isSome

/-- All visible bindings in one layer, inner ones winning. -/
def flatten (scope : Scope) : Fields Value :=
  scope.layers.foldr (fun layer visible => Fields.insertAll visible layer) []

theorem get?_childWith (scope : Scope) (bindings : Fields Value) (name : String) :
    (scope.childWith bindings).get? name = (bindings.find? name).or (scope.get? name) := by
  unfold get? layers childWith
  rw [List.findSome?_cons]
  cases Fields.find? bindings name <;> rfl

theorem get?_insert (scope : Scope) (name other : String) (value : Value) :
    (scope.insert name value).get? other = if other = name then some value else scope.get? other := by
  unfold get? layers insert
  rw [List.findSome?_cons, List.findSome?_cons, Fields.find?_insert]
  by_cases same : other = name
  · rw [if_pos same, if_pos same]
  · rw [if_neg same, if_neg same]

end Scope
end Stencil
