import JsonTemplate.Config
import JsonTemplate.Toml.Statement

namespace JsonTemplate.Config

-- Why a text gives no configuration.
inductive LoadError where
  | malformed
  | invalid (fault : Fault)
deriving DecidableEq, Repr

private def delimitersPath : Toml.Path := ["delimiters"]

private def setDelimiter? (delimiters : Delimiters) (entry : Toml.Path × Toml.Value) :
    Option Delimiters :=
  match entry with
  | (["open"], .string s) => some { delimiters with opening := s }
  | (["close"], .string s) => some { delimiters with closing := s }
  | _ => none

-- Delimiters as a table, or as an array of the opening and the closing one. What is missing stays
-- as it is.
private def setDelimiters? (delimiters : Delimiters) : Toml.Value → Option Delimiters
  | .table entries => entries.foldlM setDelimiter? delimiters
  | .array [] => some delimiters
  | .array [.string opening] => some { delimiters with opening }
  | .array (.string opening :: .string closing :: _) => some ⟨opening, closing⟩
  | _ => none

private def set? (config : Config) (path : Toml.Path) (value : Toml.Value) : Option Config :=
  match path, value with
  | ["accessor_prefix"], .string s => some { config with accessorPrefix := s }
  | ["preserve_whole_leaf_types"], .scalar (.boolean b) => some { config with preserveWholeLeafTypes := b }
  | ["overwrite_user_keys"], .scalar (.boolean b) => some { config with overwriteUserKeys := b }
  | ["max_depth"], .scalar (.integer n) => if 0 ≤ n then some { config with maxDepth := n.toNat } else none
  | ["delimiters"], value => (setDelimiters? config.delimiters value).map fun delimiters =>
      { config with delimiters }
  | "delimiters" :: keys, value => (setDelimiter? config.delimiters (keys, value)).map fun delimiters =>
      { config with delimiters }
  | _, _ => none

private def assignments? : List Toml.Statement → Option (List (Toml.Path × Toml.Value))
  | [] => some []
  | .assignment path value :: rest => (assignments? rest).map ((path, value) :: ·)
  | .header _ :: _ => none

-- The assignments of a document with their full paths. The only header is that of the delimiters,
-- and what it heads is not assigned before it.
private def entries? : List Toml.Statement → Option (List (Toml.Path × Toml.Value))
  | [] => some []
  | .assignment path value :: rest => do
      let others ← entries? rest
      if rest.any isHeader && delimitersPath.isPrefixOf path then none
      return (path, value) :: others
  | .header path :: rest => do
      if path = delimitersPath then
        let headed ← assignments? rest
        return headed.map fun (path, value) => (delimitersPath ++ path, value)
      else none
where
  isHeader : Toml.Statement → Bool
    | .header _ => true
    | .assignment .. => false

-- Settings that a text does not make keep their standard values. Unknown settings are refused.
def ofToml (text : String) : Except LoadError Config :=
  let config? := do
    let entries ← entries? (← Toml.statements? text)
    if Toml.conflictFree (entries.map Prod.fst) then
      entries.foldlM (fun config (path, value) => set? config path value) standard
    else none
  match config? with
  | none => .error .malformed
  | some config =>
      match config.fault? with
      | some fault => .error (.invalid fault)
      | none => .ok config

end JsonTemplate.Config
