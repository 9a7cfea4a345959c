import JsonTemplate.Toml.Quoted
import JsonTemplate.Toml.Scalar

namespace JsonTemplate.Toml

-- The keys that lead to a value.
abbrev Path := List String

inductive Value where
  | string (s : String)
  | scalar (scalar : Scalar)
  | array (items : List Value)
  | table (entries : List (Path × Value))

-- The lines of a document that say something.
inductive Statement where
  | header (path : Path)
  | assignment (path : Path) (value : Value)

-- A document gives a value to no path twice, and none to a path that leads on to others.
def conflictFree : List Path → Bool
  | [] => true
  | path :: paths =>
      paths.all (fun other => !path.isPrefixOf other && !other.isPrefixOf path) && conflictFree paths

namespace Reader

-- Gives what was read and what follows it.
abbrev Reading (α : Type) := List Char → Option (α × List Char)

-- Arrays and tables stand within one another up to this depth, and so many keys make the longest path.
def greatestDepth : Nat := 79

private def blanks (text : List Char) : List Char := text.dropWhile isBlank

private def isBareKey (c : Char) : Bool := c.isAlphanum || c = '_' || c = '-'

private def keyPart? (text : List Char) : Option (String × List Char) :=
  match text with
  | '"' :: _ | '\'' :: _ => (Quoted.line? text).map fun (key, rest) => (String.ofList key, rest)
  | _ =>
      let bare := text.takeWhile isBareKey
      if bare.isEmpty then none else some (String.ofList bare, text.dropWhile isBareKey)

-- Up to a number of keys separated by points, with blanks around each.
private def keys? : Nat → Reading Path
  | 0, _ => none
  | count + 1, text => do
      let (key, rest) ← keyPart? (blanks text)
      match blanks rest with
      | '.' :: later =>
          let (keys, rest) ← keys? count later
          return (key :: keys, rest)
      | other => return ([key], other)

private def path? : Reading Path := keys? greatestDepth

-- Skips blanks, line ends and comments.
private def gap (inComment : Bool) : List Char → List Char
  | [] => []
  | '\r' :: '\n' :: rest => gap false rest
  | c :: rest =>
      if c = '\n' then gap false rest
      else if inComment then (if isPlain c then gap true rest else c :: rest)
      else if isBlank c then gap false rest
      else if c = '#' then gap true rest
      else c :: rest

private def arrayItems? (item : Reading Value) : Nat → Reading (List Value)
  | 0, _ => none
  | steps + 1, text =>
      match gap false text with
      | ']' :: rest => some ([], rest)
      | unread => do
          let (value, rest) ← item unread
          match gap false rest with
          | ',' :: later =>
              let (values, rest) ← arrayItems? item steps later
              return (value :: values, rest)
          | ']' :: later => return ([value], later)
          | _ => none

-- A path, an equals sign and a value.
private def assignment? (value : Reading Value) (text : List Char) :
    Option ((Path × Value) × List Char) := do
  let (path, rest) ← path? text
  match rest with
  | '=' :: later =>
      let (value, rest) ← value (blanks later)
      return ((path, value), rest)
  | _ => none

-- Entries of a table on one line, after the first brace.
private def tableEntries? (value : Reading Value) :
    Nat → Reading (List (Path × Value))
  | 0, _ => none
  | steps + 1, text => do
      let (entry, rest) ← assignment? value text
      match blanks rest with
      | ',' :: later =>
          let (entries, rest) ← tableEntries? value steps later
          return (entry :: entries, rest)
      | '\x7d' :: later => return ([entry], later)
      | _ => none

private def table? (value : Reading Value) (text : List Char) : Option (Value × List Char) :=
  match blanks text with
  | '\x7d' :: rest => some (.table [], rest)
  | unread => do
      let (entries, rest) ← tableEntries? value unread.length unread
      if conflictFree (entries.map Prod.fst) then some (.table entries, rest) else none

private def simple? (text : List Char) : Option (Value × List Char) :=
  match text with
  | '"' :: _ | '\'' :: _ => (Quoted.read? text).map fun (s, rest) => (.string (String.ofList s), rest)
  | _ => (Scalar.read? text).map fun (scalar, rest) => (.scalar scalar, rest)

-- A value whose arrays and tables stay within a number of levels.
def value? : Nat → Reading Value
  | 0, text => simple? text
  | levels + 1, text =>
      match text with
      | '[' :: rest =>
          (arrayItems? (value? levels) (rest.length + 1) rest).map fun (items, rest) => (.array items, rest)
      | '\x7b' :: rest => table? (value? levels) rest
      | _ => simple? text

private def lineEnd? : List Char → Option (List Char)
  | [] => some []
  | '\n' :: rest => some rest
  | '\r' :: '\n' :: rest => some rest
  | _ => none

-- What follows the line, if nothing but a comment is left on it.
private def restOfLine? (text : List Char) : Option (List Char) :=
  match blanks text with
  | '#' :: comment => lineEnd? (comment.dropWhile isPlain)
  | other => lineEnd? other

-- Headers of lists of tables are not read.
private def statement? (text : List Char) : Option (Statement × List Char) :=
  match text with
  | '[' :: rest => do
      let (path, rest) ← path? rest
      match rest with
      | ']' :: later => return (.header path, later)
      | _ => none
  | _ => (assignment? (value? greatestDepth) text).map fun ((path, value), rest) =>
      (.assignment path value, rest)

private def statements? : Nat → List Char → Option (List Statement)
  | 0, _ => none
  | steps + 1, text =>
      match blanks text with
      | [] => some []
      | '#' :: comment => (lineEnd? (comment.dropWhile isPlain)).bind (statements? steps)
      | '\n' :: rest => statements? steps rest
      | '\r' :: '\n' :: rest => statements? steps rest
      | unread => do
          let (statement, rest) ← statement? unread
          let rest ← restOfLine? rest
          let statements ← statements? steps rest
          return statement :: statements

end Reader

-- The statements of a document. A byte order mark may stand before them.
def statements? (text : String) : Option (List Statement) :=
  let unmarked :=
    match text.toList with
    | '\ufeff' :: rest => rest
    | other => other
  Reader.statements? (unmarked.length + 1) unmarked

end JsonTemplate.Toml
