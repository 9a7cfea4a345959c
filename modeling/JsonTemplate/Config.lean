import JsonTemplate.Template.Placeholder

namespace JsonTemplate

structure Config where
  delimiters : Delimiters
  -- What an accessor's name has before the name of its array.
  accessorPrefix : String
  -- A text that is one placeholder takes the type of its result.
  preserveWholeLeafTypes : Bool
  -- Accessors replace entries of a context that have their name.
  overwriteUserKeys : Bool
  -- The depth of containers and of constructs that were resolved.
  maxDepth : Nat
deriving DecidableEq, Repr

namespace Config

def standard : Config where
  delimiters := .braces
  accessorPrefix := "$"
  preserveWholeLeafTypes := false
  overwriteUserKeys := false
  maxDepth := 256

-- What a configuration must not be.
inductive Fault where
  | emptyDelimiter
  | emptyPrefix
  | noDepth
deriving DecidableEq, Repr

def Fault.message : Fault → String
  | emptyDelimiter => "Invalid config: delimiters must not be empty"
  | emptyPrefix => "Invalid config: accessor_prefix must not be empty"
  | noDepth => "Invalid config: max_depth must be at least 1"

-- The first fault, if there is one.
def fault? (config : Config) : Option Fault :=
  if config.delimiters.opening = "" ∨ config.delimiters.closing = "" then some .emptyDelimiter
  else if config.accessorPrefix = "" then some .emptyPrefix
  else if config.maxDepth = 0 then some .noDepth
  else none

end Config

end JsonTemplate
