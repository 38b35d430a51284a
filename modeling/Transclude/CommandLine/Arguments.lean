import Transclude.CommandLine.Word

/-! The arguments on the command line. -/

namespace Transclude

structure Arguments where
  inputFile : Text
  outputFile? : Option Text
  skipHeaders : Bool
  embedImages : Bool
  verbosity : Nat
deriving DecidableEq, Repr

abbrev Request := Flag × Option Text

namespace Request

/-- The requests on a command line. Every word has to be a flag or the value of one. -/
def readAll? : List Text → Option (List Request)
  | [] => some []
  | word :: rest =>
    match Word.ofText word with
    | .value _ | .unclear => none
    | .lettered flags => (readAll? rest).map (flags.map (·, none) ++ ·)
    | .named flag (some s) =>
      if flag.takesValue then (readAll? rest).map ((flag, some s) :: ·) else none
    | .named flag none =>
      if flag.takesValue then
        match rest with
        | [] => none
        | s :: rest =>
          if (Word.ofText s).isValue then (readAll? rest).map ((flag, some s) :: ·) else none
      else (readAll? rest).map ((flag, none) :: ·)

def value? (requests : List Request) (flag : Flag) : Option Text :=
  (requests.reverse.find? (·.1 = flag)).bind (·.2)

def count (requests : List Request) (flag : Flag) : Nat := (requests.filter (·.1 = flag)).length

end Request

namespace Arguments

def standardVerbosity : Nat := 1

/-- The arguments for some requests. The input file has to be among them, and whoever asks for help
or the version asks for nothing else. -/
def ofRequests? (requests : List Request) : Option Arguments :=
  if 0 < Request.count requests .help + Request.count requests .version then none
  else
    (Request.value? requests .inputFile).map fun inputFile =>
      { inputFile
        outputFile? := Request.value? requests .outputFile
        skipHeaders := 0 < Request.count requests .skipHeaders
        embedImages := 0 < Request.count requests .embedImages
        verbosity := standardVerbosity + Request.count requests .verbosity }

def parse? (words : List Text) : Option Arguments := (Request.readAll? words).bind ofRequests?

end Arguments
end Transclude
