import FluentCensus.Project

namespace FluentCensus

inductive Flag where
  | help
  | dotenv
  | projectDir
  | outputPath
  | single
  | ignoreDir
  | skipBuild
  | summary
  | trace
  | quiet
deriving DecidableEq

namespace Flag

def all : List Flag :=
  [.help, .dotenv, .projectDir, .outputPath, .single, .ignoreDir, .skipBuild, .summary, .trace,
    .quiet]

def names : Flag → List String
  | .help => ["-h", "--help"]
  | .dotenv => ["--dotenv"]
  | .projectDir => ["-p", "--project-dir"]
  | .outputPath => ["-o", "--output-path"]
  | .single => ["--single-project"]
  | .ignoreDir => ["--ignore-dir"]
  | .skipBuild => ["--skip-build-dirs"]
  | .summary => ["--summary"]
  | .trace => ["--trace"]
  | .quiet => ["-q", "--quiet"]

def title (flag : Flag) : String := "/".intercalate flag.names

def value? : Flag → Option String
  | .dotenv => some "DOTENV"
  | .projectDir => some "PROJECT_DIR"
  | .outputPath => some "OUTPUT_PATH"
  | .ignoreDir => some "NAME"
  | .summary => some "SUMMARY"
  | .trace => some "TRACE"
  | .help | .single | .skipBuild | .quiet => none

def text : Flag → String
  | .help => "show this help message and exit"
  | .dotenv =>
    "Optional path to a .env file; .env in the current or parent directories is also tried."
  | .projectDir => "Directory holding one subdirectory per project"
  | .outputPath => "CSV output path (overwritten)"
  | .single =>
    "Treat --project-dir itself as a single project instead of a directory of projects."
  | .ignoreDir => "Directory name to skip while walking projects (repeatable)."
  | .skipBuild =>
    "Skip common build/VCS directories: " ++ ", ".intercalate Project.buildDirectories ++ "."
  | .summary => "Optional per-project summary JSON path"
  | .trace => "Optional JSONL trace path"
  | .quiet => "No progress output on stderr"

def named? (name : String) : Option Flag := all.find? fun flag => name ∈ flag.names

def table : List (String × Flag) := all.flatMap fun flag => flag.names.map (·, flag)

def withValue (flag : Flag) (name : String) : String :=
  match flag.value? with
  | some value => name ++ " " ++ value
  | none => name

end Flag

end FluentCensus
