namespace JsonTemplate.CommandLine

-- What a command line asks for.
structure Options where
  -- The template comes from standard input if no file is named.
  template : Option String
  context : String
  config : Option String
  compact : Bool
  builtins : Bool
  verbosity : Nat
deriving DecidableEq, Repr

inductive Request where
  | render (options : Options)
  | help
  -- Arguments that fit no use.
  | misuse
deriving DecidableEq, Repr

namespace Options

-- Options with a value, each given at most once.
inductive Setting where
  | context
  | config
deriving DecidableEq, Repr

-- Options without a value. All but the verbosity are given at most once.
inductive Switch where
  | compact
  | noBuiltins
  | verbose
  | help
deriving DecidableEq, Repr

-- What the arguments so far have said.
structure Partial where
  template : Option String
  context : Option String
  config : Option String
  compact : Bool
  noBuiltins : Bool
  verbosity : Nat

def Partial.none : Partial := ⟨.none, .none, .none, false, false, 0⟩

-- Either more arguments are read, or the request is known.
abbrev Step (α : Type) := Except Request α

private def long? (name : List Char) : Option (Setting ⊕ Switch) :=
  match String.ofList name with
  | "context" => some (.inl .context)
  | "config" => some (.inl .config)
  | "compact" => some (.inr .compact)
  | "no-builtins" => some (.inr .noBuiltins)
  | "verbose" => some (.inr .verbose)
  | "help" => some (.inr .help)
  | _ => none

private def short? (name : Char) : Option (Setting ⊕ Switch) :=
  match name with
  | 'c' => some (.inl .context)
  | 'v' => some (.inr .verbose)
  | 'h' => some (.inr .help)
  | _ => none

-- File names are not empty.
private def once (current : Option String) (value : List Char) : Step (Option String) :=
  if current.isSome || value.isEmpty then .error .misuse else .ok (some (String.ofList value))

private def set (options : Partial) (setting : Setting) (value : List Char) : Step Partial :=
  match setting with
  | .context => (once options.context value).map fun context => { options with context }
  | .config => (once options.config value).map fun config => { options with config }

private def turnOn (options : Partial) (switch : Switch) : Step Partial :=
  match switch with
  | .compact => if options.compact then .error .misuse else .ok { options with compact := true }
  | .noBuiltins => if options.noBuiltins then .error .misuse else .ok { options with noBuiltins := true }
  | .verbose => .ok { options with verbosity := options.verbosity + 1 }
  | .help => .error .help

private def positional (options : Partial) (value : List Char) : Step Partial :=
  (once options.template value).map fun template => { options with template }

-- A group of one-letter options. The last may have its value attached, or else wait for it.
private def cluster (options : Partial) : List Char → Step (Partial × Option Setting)
  | [] => .ok (options, none)
  | c :: rest =>
      match short? c with
      | some (.inr switch) => do cluster (← turnOn options switch) rest
      | some (.inl setting) =>
          match rest with
          | [] => .ok (options, some setting)
          | '=' :: value => (set options setting value).map (·, none)
          | value => (set options setting value).map (·, none)
      | none => .error .misuse

private def longOption (options : Partial) (text : List Char) : Step (Partial × Option Setting) :=
  let name := text.takeWhile (· ≠ '=')
  match long? name, text.dropWhile (· ≠ '=') with
  | some (.inl setting), [] => .ok (options, some setting)
  | some (.inl setting), _ :: value => (set options setting value).map (·, none)
  | some (.inr switch), [] => (turnOn options switch).map (·, none)
  | _, _ => .error .misuse

-- Reads arguments, of which the first may be the value that an option waits for. After two hyphens
-- all arguments are positional, and a value cannot start with a hyphen unless that is all of it.
private def read (options : Partial) (waiting : Option Setting) : List (List Char) → Step Partial
  | [] => if waiting.isSome then .error .misuse else .ok options
  | ['-', '-'] :: rest =>
      if waiting.isSome then .error .misuse else rest.foldlM positional options
  | ('-' :: '-' :: text) :: rest => do
      if waiting.isSome then throw .misuse
      let (options, waiting) ← longOption options text
      read options waiting rest
  | ('-' :: c :: text) :: rest => do
      if waiting.isSome then throw .misuse
      let (options, waiting) ← cluster options (c :: text)
      read options waiting rest
  | value :: rest => do
      match waiting with
      | some setting => read (← set options setting value) none rest
      | none => read (← positional options value) none rest

private def finish (options : Partial) : Request :=
  match options.context with
  | none => .misuse
  | some context =>
      .render ⟨options.template, context, options.config, options.compact, !options.noBuiltins,
        options.verbosity⟩

end Options

def Request.ofArguments (arguments : List String) : Request :=
  match Options.read .none none (arguments.map String.toList) with
  | .ok options => Options.finish options
  | .error request => request

end JsonTemplate.CommandLine
