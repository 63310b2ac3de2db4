import FluentCensus.Decimal.Size
import FluentCensus.Histogram.Stats
import FluentCensus.Path
import FluentCensus.Text.Quoted

namespace FluentCensus

inductive Refusal where
  | missing
  | exists
  | notDirectory
  | isDirectory
  | nameTooLong
  | tooManyLinks
  | denied
  | failing
  | full
deriving DecidableEq

namespace Refusal

def code : Refusal → Nat
  | .missing => 2
  | .failing => 5
  | .denied => 13
  | .exists => 17
  | .notDirectory => 20
  | .isDirectory => 21
  | .full => 28
  | .nameTooLong => 36
  | .tooManyLinks => 40

def text : Refusal → String
  | .missing => "No such file or directory"
  | .failing => "Input/output error"
  | .denied => "Permission denied"
  | .exists => "File exists"
  | .notDirectory => "Not a directory"
  | .isDirectory => "Is a directory"
  | .full => "No space left on device"
  | .nameTooLong => "File name too long"
  | .tooManyLinks => "Too many levels of symbolic links"

def label : Refusal → String
  | .missing => "FileNotFoundError"
  | .denied => "PermissionError"
  | .exists => "FileExistsError"
  | .notDirectory => "NotADirectoryError"
  | .isDirectory => "IsADirectoryError"
  | .failing | .full | .nameTooLong | .tooManyLinks => "OSError"

def isAbsence : Refusal → Bool
  | .missing | .notDirectory | .tooManyLinks => true
  | _ => false

end Refusal

inductive Fault where
  | refused (refusal : Refusal) (path : Path)
  /-- Bytes could not all be written to an open file. -/
  | unwritten (refusal : Refusal)
  /-- A text to be written has no encoding from the first position up to the last, where it has
      stand-ins for bytes, the first one for `byte`. -/
  | unencodable (byte : UInt8) (first last : Nat)
  | noProject (path : Path)
  /-- A path or a variable holds a character that the system cannot take. -/
  | nulCharacter
  /-- Too many directories are missing above one that was to be made. -/
  | tooManyMissing
  /-- A directory that was to be entered lies too far below the first one. -/
  | tooDeep
  | noHome
  | noPath
  | noName
  | writerClosed
  | stats (error : StatsError)
  /-- The run is over, and the message says why. -/
  | stop (message : String)
  /-- The command line is over with an exit code. -/
  | exit (code : Nat)
deriving DecidableEq

namespace Fault

def message : Fault → String
  | .refused refusal path =>
    s!"[Errno {refusal.code}] {refusal.text}: " ++
      String.ofList (Text.quoted path.toString.toList)
  | .unwritten refusal => s!"[Errno {refusal.code}] {refusal.text}"
  | .unencodable byte first last =>
    "'utf-8' codec can't encode character" ++
      (if first = last then
        s!" '\\udc{String.ofList (Text.hexText 2 byte.toNat)}' in position {first}"
      else s!"s in position {first}-{last}") ++
      ": surrogates not allowed"
  | .noProject path => "Not a directory: " ++ path.toString
  | .nulCharacter => "embedded null byte"
  | .tooManyMissing => "maximum recursion depth exceeded while calling a Python object"
  | .tooDeep => "maximum recursion depth exceeded"
  | .noHome => "Could not determine home directory."
  | .noPath => "expected str, bytes or os.PathLike object, not list"
  | .noName => "unhashable type: 'list'"
  | .writerClosed => "HistogramCsvWriter used outside of its context"
  | .stats .tooLarge => "Python int too large to convert to C long"
  | .stats .negativeCount => "repeats may not contain negative values."
  | .stats .negativeSize => "negative dimensions are not allowed"
  | .stats .tooManyChains => "array is too big; `arr.size * arr.dtype.itemsize` is larger than " ++
    "the maximum possible size."
  | .stats (.outOfMemory items) =>
    s!"Unable to allocate {Decimal.sizeText (8 * items)} for an array with shape ({items},) " ++
      "and data type int64"
  | .stop message => message
  | .exit code => ToString.toString code

def label : Fault → String
  | .refused refusal _ | .unwritten refusal => refusal.label
  | .unencodable .. => "UnicodeEncodeError"
  | .noProject _ => "NotADirectoryError"
  | .nulCharacter => "ValueError"
  | .stats .negativeCount | .stats .negativeSize | .stats .tooManyChains => "ValueError"
  | .tooManyMissing | .tooDeep => "RecursionError"
  | .stats (.outOfMemory _) => "MemoryError"
  | .noHome | .writerClosed => "RuntimeError"
  | .noPath | .noName => "TypeError"
  | .stats .tooLarge => "OverflowError"
  | .stop _ | .exit _ => "SystemExit"

/-- Whether the file system is the cause. A run reports such a cause in words of its own. -/
def ofFiles : Fault → Bool
  | .refused .. | .unwritten _ | .noProject _ => true
  | _ => false

end Fault

end FluentCensus
