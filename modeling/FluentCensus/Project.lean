import FluentCensus.Chain
import FluentCensus.Survey
import FluentCensus.Text.Utf8
import FluentCensus.Trace.Tracer
import FluentCensus.Tree.Walk

namespace FluentCensus

def chainHistogram (text : List Char) : Histogram := .ofLengths ((chainCounts text).map Int.ofNat)

/-- The text of a source file. Bytes that are no text do not make it unreadable. -/
def FileTree.source (tree : FileTree) (path : Path) : Except Fault (List Char) := do
  return Utf8.decode (← tree.read path)

namespace Project

def buildDirectories : List String :=
  [".git", ".gradle", "__MACOSX", "__pycache__", "build", "node_modules", "target"]

def lengthsOf (tree : FileTree) (files : List Path) : Except Fault (List Int) := do
  let texts ← files.mapM tree.source
  return texts.flatMap fun text => (chainCounts text).map Int.ofNat

structure Options where
  /-- The number of projects before this one, and of all. -/
  index : Int := 0
  total : Int := 1
  /-- An empty name stands for the directory's. -/
  name : String := ""
  ignored : List String := []
  quiet : Bool := false
deriving DecidableEq

def Options.nameFor (options : Options) (directory : Path) : String :=
  if options.name.isEmpty then directory.name else options.name

def measure (directory : Path) (options : Options) : HostM (List Path × List Int) := do
  let files ← Host.ask (·.javaFiles options.ignored directory)
  let count := s!"[{options.index + 1}/{options.total}] processing {files.length} Java files"
  Host.progress options.quiet s!"🔎 {count} for project {options.nameFor directory}"
  let lengths ← Host.ask (lengthsOf · files)
  return (files, lengths)

/-- Survey one project. A tracer in force gets one record of it, whether or not it succeeds. -/
def survey (directory : Path) (options : Options := {}) : HostM Survey := do
  let name := options.nameFor directory
  let finished (found : List Path × List Int) : Survey :=
    { name, path := directory, files := found.1.length, histogram := .ofLengths found.2 }
  match (← get).tracer? with
  | none => return finished (← measure directory options)
  | some tracer =>
    let span ← Span.enter { tracer, stage := "project", project := some name }
    let found ← span.guard (measure directory options)
    let s := finished found
    let span := span.record {
      files := some s.files
      chains := some found.2.length
      histogram := some s.histogram }
    span.finish
    return s

end Project

end FluentCensus
