import JsonTemplate.CommandLine

open JsonTemplate.CommandLine

-- The text of a file, if it can be read.
private def readFile? (name : String) : IO (Option String) :=
  try
    return some (← IO.FS.readFile name)
  catch _ => return none

private def sourcesFor (arguments : List String) : IO Sources := do
  match Request.ofArguments arguments with
  | .render options =>
      let names := [options.config, options.template, some options.context].filterMap id
      let files ← names.mapM fun name => return (name, ← readFile? name)
      let input ← if options.template.isNone then (← IO.getStdin).readToEnd else pure ""
      return ⟨fun name => (files.lookup name).join, input⟩
  | _ => return ⟨fun _ => none, ""⟩

def main (arguments : List String) : IO UInt32 := do
  let outcome := run arguments (← sourcesFor arguments)
  IO.print outcome.output
  outcome.errors.forM fun line => IO.eprintln line.print
  return outcome.code.toUInt32
