import JsonTemplate.CommandLine.Options
import JsonTemplate.Config.Load
import JsonTemplate.Engine
import JsonTemplate.Expr.Report
import JsonTemplate.Json.Printer
import JsonTemplate.Json.Reader

namespace JsonTemplate.CommandLine

-- What the program can read: files by name, and its standard input.
structure Sources where
  file : String → Option String
  input : String

-- What the program leaves: its exit code, its output and its complaints.
structure Outcome where
  code : Nat
  output : String
  errors : List ReportLine
deriving DecidableEq, Repr

private def quoted (s : String) : String := "'" ++ s ++ "'"

-- A piece of work whose failure is complained about.
abbrev Attempt (α : Type) := Except (List ReportLine) α

private def complain {α : Type} (message : String) : Attempt α := .error (ReportLine.ofText message)

-- No function is known but the builtins.
private def noHost : Host Unit :=
  ⟨fun _ name _ state => (.error (.function name "no such function"), state)⟩

private def loadConfig (sources : Sources) : Option String → Attempt Config
  | none => .ok Config.standard
  | some file =>
      let failed (reason : String) := complain ("Error loading config " ++ quoted file ++ ": " ++ reason)
      match sources.file file with
      | none => failed "Failed to read config file"
      | some text =>
          match Config.ofToml text with
          | .ok config => .ok config
          | .error .malformed => failed "Failed to parse config TOML"
          | .error (.invalid fault) => failed fault.message

private def loadJson (sources : Sources) (file : String) : Attempt Json :=
  match sources.file file with
  | none => complain ("Error reading file " ++ quoted file)
  | some text =>
      match Json.read? text with
      | some json => .ok json
      | none => complain ("Error parsing JSON in " ++ quoted file)

private def loadTemplate (sources : Sources) : Option String → Attempt Json
  | some file => loadJson sources file
  | none =>
      match Json.read? sources.input with
      | some json => .ok json
      | none => complain "Error parsing template from stdin"

private def loadContext (sources : Sources) (file : String) (builtins : Bool) : Attempt Context := do
  let json ← loadJson sources file
  match Context.ofJson 0 json with
  | .ok context => return if builtins then context.installBuiltins.1 else context
  | .error error => complain ("Error in context " ++ quoted file ++ ": " ++ error.message)

-- Errors in the syntax of an expression are shown in their source.
private def complaint : RenderError → List ReportLine
  | .evaluation expression path (.parse error) =>
      error.report expression (if path.isEmpty then "/" else path.text)
  | error => ReportLine.ofError error.message

private def renderAll (options : Options) (sources : Sources) : Attempt String := do
  let config ← loadConfig sources options.config
  let template ← loadTemplate sources options.template
  let context ← loadContext sources options.context options.builtins
  let engine : Engine := ⟨template, context, config⟩
  let ((rendered, failure), _) := (engine.render noHost).run ()
  match failure with
  | some error => throw (complaint error)
  | none => return rendered.template.print (if options.compact then .compact else .indented) ++ "\n"

def usage : String :=
  "Render JSON templates against a context\n\n" ++
  "Usage: [OPTIONS] --context <CONTEXT> [TEMPLATE]\n\n" ++
  "Arguments:\n" ++
  "  [TEMPLATE]  Template file (reads from stdin if not provided)\n\n" ++
  "Options:\n" ++
  "  -c, --context <CONTEXT>  Context file (JSON object)\n" ++
  "      --config <CONFIG>    Engine configuration file (TOML format)\n" ++
  "      --compact            Print the rendered JSON on a single line\n" ++
  "      --no-builtins        Do not install the builtin helper functions\n" ++
  "  -v, --verbose...         Increase log verbosity (-v debug, -vv trace)\n" ++
  "  -h, --help               Print help\n"

-- The configuration is loaded before the template, and the template before the context.
def run (arguments : List String) (sources : Sources) : Outcome :=
  match Request.ofArguments arguments with
  | .misuse => ⟨2, "", []⟩
  | .help => ⟨0, usage, []⟩
  | .render options =>
      match renderAll options sources with
      | .ok output => ⟨0, output, []⟩
      | .error errors => ⟨1, "", errors⟩

end JsonTemplate.CommandLine
