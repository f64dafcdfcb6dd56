import Stencil.Fields

/-! The values of TOML that a configuration is made of. Dates and numbers with a fraction
have no use there and are not read. -/

namespace Stencil

inductive Toml where
  | integer (value : Int)
  | bool (value : Bool)
  | string (value : String)
  | array (items : List Toml)
  /-- A table that dotted keys have begun may be added to, one written in braces may not. -/
  | table (isOpen : Bool) (fields : List (String × Toml))
deriving Inhabited

namespace Toml

/-- Puts a value under a dotted key. No key may be given twice. -/
def assign? (path : List String) (value : Toml) (fields : Fields Toml) : Option (Fields Toml) :=
  match path with
  | [] => none
  | [key] => if fields.contains key then none else some (fields.insert key value)
  | key :: path =>
    match fields.find? key with
    | none => (assign? path value []).map fun inner => fields.insert key (.table true inner)
    | some (.table true inner) =>
      (assign? path value inner).map fun inner => fields.insert key (.table true inner)
    | some _ => none

end Toml
end Stencil
