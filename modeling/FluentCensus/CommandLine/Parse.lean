import FluentCensus.CommandLine.Flag
import FluentCensus.Summary
import FluentCensus.Text.Number
import FluentCensus.Text.Quoted

namespace FluentCensus

structure CommandLine where
  dotenv : Option String := some ".env"
  projectDir : Option Path := none
  outputPath : Option Path := none
  single : Bool := false
  /-- None stands for a name that was announced but not given. -/
  ignored : List (Option String) := []
  skipBuild : Bool := false
  summary : Summary.Destination := .nowhere
  trace : Option Path := none
  quiet : Bool := false
deriving DecidableEq

inductive UsageError where
  | ambiguous (argument : String) (names : List String)
  | valueMissing (flag : Flag)
  | valueUnused (flag : Flag) (value : String)
  | unrecognized (arguments : List String)
  | noProjectDir
  | noOutputPath
deriving DecidableEq

def UsageError.message : UsageError → String
  | .ambiguous argument names =>
    s!"ambiguous option: {argument} could match " ++ ", ".intercalate names
  | .valueMissing flag => s!"argument {flag.title}: expected one argument"
  | .valueUnused flag value =>
    let quoted := String.ofList (Text.quoted value.toList)
    s!"argument {flag.title}: ignored explicit argument {quoted}"
  | .unrecognized arguments => "unrecognized arguments: " ++ " ".intercalate arguments
  | .noProjectDir => "--project-dir is required (or set METHOD_CHAINS_PROJECT_DIR)"
  | .noOutputPath => "--output-path is required (or set METHOD_CHAINS_OUTPUT_PATH)"

inductive Argument where
  | plain (text : String)
  /-- A flag by a long or a short name, with what is attached to it in the same argument. -/
  | named (flag : Flag) (long : Bool) (attached : Option (List Char))
  | unknown (text : String)
  /-- Two hyphens and everything after them, none of which names a flag. -/
  | remainder (arguments : List String)
deriving DecidableEq

namespace Argument

def isLong (name : List Char) : Bool := name.take 2 == ['-', '-']

/-- The flags that an argument which is no exact name can stand for: a long name may be cut short,
    and a short one may have its value or further short names attached. -/
def candidates (text : List Char) : List (String × Argument) :=
  if isLong text then
    let (start, attached) := match Text.splitAt? '=' text with
      | some (start, value) => (start, some value)
      | none => (text, none)
    let fits := Flag.table.filter fun entry => start.isPrefixOf entry.1.toList
    fits.map fun entry => (entry.1, .named entry.2 true attached)
  else
    let fits := Flag.table.filter fun entry => entry.1.toList = text.take 2
    fits.map fun entry => (entry.1, .named entry.2 false (some (text.drop 2)))

def spelled? (text : List Char) : Option Argument :=
  match Flag.named? (String.ofList text), Text.splitAt? '=' text with
  | some flag, _ => some (.named flag (isLong text) none)
  | none, some (name, value) =>
    (Flag.named? (String.ofList name)).map (.named · (isLong name) (some value))
  | none, none => none

def ofString (text : String) : Except UsageError Argument :=
  let chars := text.toList
  if chars.head? ≠ some '-' ∨ chars.length = 1 then .ok (.plain text)
  else match spelled? chars, candidates chars with
    | some argument, _ | none, [(_, argument)] => .ok argument
    | none, [] =>
      if Text.looksNegative chars ∨ ' ' ∈ chars then .ok (.plain text) else .ok (.unknown text)
    | none, several => .error (.ambiguous text (several.map Prod.fst))

def ofStrings : List String → Except UsageError (List Argument)
  | [] => .ok []
  | text :: more =>
    if text = "--" then .ok [.remainder (text :: more)]
    else do return (← ofString text) :: (← ofStrings more)

end Argument

namespace CommandLine

/-- Short flags that one argument joins. Only the last can have a value, and what follows its name
    is that value. -/
def joined (flag : Flag) : List Char → Except UsageError (List Flag × Flag × Option String)
  | [] => .error (.valueUnused flag "")
  | c :: more =>
    match Flag.named? (String.ofList ['-', c]) with
    | none => .error (.valueUnused flag (String.ofList (c :: more)))
    | some next =>
      if more.isEmpty then .ok ([flag], next, none)
      else if next.value?.isSome then .ok ([flag], next, some (String.ofList more))
      else (joined next more).map fun (before, last) => (flag :: before, last)

def flagsOf (flag : Flag) (long : Bool) :
    Option (List Char) → Except UsageError (List Flag × Flag × Option String)
  | none => .ok ([], flag, none)
  | some attached =>
    if flag.value?.isSome then .ok ([], flag, some (String.ofList attached))
    else if long then .error (.valueUnused flag (String.ofList attached))
    else joined flag attached

/-- The command line with one more flag. Two hyphens as an attached value stand for no value: they
    unset what the flag sets, except that a summary without a path and an ignored directory without
    a name are still asked for. -/
def put (line : CommandLine) (flag : Flag) (value : String) : CommandLine :=
  let given := if value = "--" then none else some value
  let path := given.map Path.ofString
  match flag with
  | .help => line
  | .dotenv => { line with dotenv := given }
  | .projectDir => { line with projectDir := path }
  | .outputPath => { line with outputPath := path }
  | .single => { line with single := true }
  | .ignoreDir => { line with ignored := line.ignored ++ [given] }
  | .skipBuild => { line with skipBuild := true }
  | .summary => { line with summary := path.elim .unnamed .file }
  | .trace => { line with trace := path }
  | .quiet => { line with quiet := true }

def putAll? (line : CommandLine) (before : List Flag) (last : Flag) (value : String) :
    Option CommandLine :=
  if .help ∈ last :: before then none
  else some ((before.foldl (put · · "") line).put last value)

def take (line : CommandLine) (extras : List String) :
    List Argument → Except UsageError (Option CommandLine)
  | [] => if extras.isEmpty then .ok (some line) else .error (.unrecognized extras.reverse)
  | .plain text :: more => take line (text :: extras) more
  | .unknown text :: more => take line (text :: extras) more
  | .remainder arguments :: more => take line (arguments.reverse ++ extras) more
  | .named flag long attached :: more =>
    match flagsOf flag long attached with
    | .error e => .error e
    | .ok (before, last, some value) =>
      match line.putAll? before last value with
      | some line => take line extras more
      | none => .ok none
    | .ok (before, last, none) =>
      if last.value?.isNone then
        match line.putAll? before last "" with
        | some line => take line extras more
        | none => .ok none
      else match more with
        | .plain value :: more =>
          match line.putAll? before last value with
          | some line => take line extras more
          | none => .ok none
        | _ => .error (.valueMissing last)

/-- The command line that arguments spell, or none if they ask for the help. Every argument is
    understood by itself before the first is acted on. -/
def parse (arguments : List String) : Except UsageError (Option CommandLine) := do
  take {} [] (← Argument.ofStrings arguments)

end CommandLine

end FluentCensus
