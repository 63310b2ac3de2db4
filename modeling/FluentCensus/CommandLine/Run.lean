import FluentCensus.CommandLine.Parse
import FluentCensus.CommandLine.Usage
import FluentCensus.Dotenv
import FluentCensus.Plan
import FluentCensus.Settings

namespace FluentCensus.CommandLine

def fail (e : UsageError) : HostM α := do
  let width := Usage.widthOf ((← get).valueOf? "COLUMNS")
  Host.printError (Usage.usage width ++ s!"{Usage.program}: error: {e.message}\n")
  throw (.exit 2)

/-- The plan of a command line. What it leaves open, the settings fill in, and names to be ignored
    come from both. -/
def plan (line : CommandLine) (settings : Settings) : Except UsageError Plan := do
  let some projectDir := line.projectDir <|> settings.projectDir | throw .noProjectDir
  let some outputPath := line.outputPath <|> settings.outputPath | throw .noOutputPath
  return {
    projectDir
    outputPath
    single := line.single
    ignored := settings.ignored ++ line.ignored.filterMap id ++
      if line.skipBuild then Project.buildDirectories else []
    summary := line.summary
    tracePath := line.trace <|> settings.tracePath
    quiet := line.quiet }

def run (arguments : List String) : HostM Unit := do
  match parse arguments with
  | .error e => fail e
  | .ok none =>
    Host.print (Usage.help (Usage.widthOf ((← get).valueOf? "COLUMNS")))
    throw (.exit 0)
  | .ok (some line) =>
    let _ ← Dotenv.loadNearest line.dotenv
    let host ← get
    match Settings.read host host.environment with
    | .error fault => throw fault
    | .ok settings =>
      match line.plan settings with
      | .error e => fail e
      | .ok plan =>
        if none ∈ line.ignored then throw .noName
        let _ ← plan.run

end FluentCensus.CommandLine
