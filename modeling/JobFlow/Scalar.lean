import JobFlow.Number.Shortest
import JobFlow.Text.Quoted

/-!
The values that inputs, outputs and environment variables of a job can take, and their texts.

A value has two texts. Its literal text tells values of different kinds apart: strings are quoted
and constants are spelled out. Its plain text is what a workflow file shows: a string is itself, a
truth value is in lower case, and a float without fractional part is an integer.
-/

set_option autoImplicit false

namespace JobFlow

inductive Scalar
  | text (value : String)
  | int (value : Int)
  | bool (value : Bool)
  | null
  | float (value : Number.Binary64)
  | list (items : List Scalar)
  | map (entries : List (String × Scalar))
  deriving Inhabited

namespace Scalar

mutual

/-- The literal text of a value. -/
def literal : Scalar → String
  | text value => Text.quoted value
  | int value => Text.ofInt value
  | bool true => "True"
  | bool false => "False"
  | null => "None"
  | float value => value.text
  | list items => "[" ++ ", ".intercalate (literals items) ++ "]"
  | map entries => "\x7b" ++ ", ".intercalate (literalEntries entries) ++ "\x7d"

def literals : List Scalar → List String
  | [] => []
  | item :: rest => item.literal :: literals rest

def literalEntries : List (String × Scalar) → List String
  | [] => []
  | (key, value) :: rest => (Text.quoted key ++ ": " ++ value.literal) :: literalEntries rest

end

/-- The literal text, except that a string stands without quotes. -/
def bare : Scalar → String
  | text value => value
  | value => value.literal

def plain : Scalar → String
  | bool true => "true"
  | bool false => "false"
  | float value =>
    match value.toInt? with
    | some n => Text.ofInt n
    | none => value.text
  | value => value.bare

def kindName : Scalar → String
  | text _ => "str"
  | int _ => "int"
  | bool _ => "bool"
  | null => "NoneType"
  | float _ => "float"
  | list _ => "list"
  | map _ => "dict"

mutual

/-- The integers that the text of a value shows. -/
def integers : Scalar → List Int
  | int value => [value]
  | list items => integersOfItems items
  | map entries => integersOfEntries entries
  | _ => []

def integersOfItems : List Scalar → List Int
  | [] => []
  | item :: rest => item.integers ++ integersOfItems rest

def integersOfEntries : List (String × Scalar) → List Int
  | [] => []
  | (_, value) :: rest => value.integers ++ integersOfEntries rest

end

def isWritable (value : Scalar) : Bool :=
  value.integers.all Text.isWritable

end Scalar

end JobFlow
