import JsonTemplate.Fields
import JsonTemplate.Number.Binary64

namespace JsonTemplate

-- A JSON value. Numbers written without fraction and exponent are integers of any size here;
-- entries of an object are in the order in which they were written.
inductive Json where
  | null
  | bool (b : Bool)
  | integer (n : Int)
  | double (x : Float)
  | string (s : String)
  | array (items : List Json)
  | object (entries : List (String × Json))
deriving Inhabited

namespace Json

-- The kind of value, as messages name it.
def kind : Json → String
  | null => "null"
  | bool _ => "boolean"
  | integer _ | double _ => "number"
  | string _ => "string"
  | array _ => "array"
  | object _ => "object"

-- The value of an object's entry.
def get? (json : Json) (key : String) : Option Json :=
  match json with
  | object entries => Fields.get? entries key
  | _ => none

def string? : Json → Option String
  | string s => some s
  | _ => none

-- The keys and positions that lead from a document's root to one of its nodes.
abbrev Pointer := List String

namespace Pointer

def root : Pointer := []

def child (pointer : Pointer) (key : String) : Pointer := pointer ++ [key]

def item (pointer : Pointer) (position : Nat) : Pointer := pointer.child (Nat.repr position)

-- A slash separates steps, so a slash within a step is written ~1 and a tilde ~0.
def escape (c : Char) : List Char :=
  if c = '~' then ['~', '0'] else if c = '/' then ['~', '1'] else [c]

def text (pointer : Pointer) : String :=
  String.ofList (pointer.flatMap fun step => '/' :: step.toList.flatMap escape)

end Pointer

end Json

end JsonTemplate
