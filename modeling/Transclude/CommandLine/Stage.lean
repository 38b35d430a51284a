import Transclude.Build
import Transclude.CommandLine.Arguments
import Transclude.Output

/-! The stages of the program: they check the surroundings, build the document and report on it. Each
hands its state to the next one or ends the program. -/

namespace Transclude

structure Invocation where
  arguments : Arguments
  inputDirectory : Path
  outputDirectory : Path
  programs : Programs

structure Progress where
  source : Path
  target : Text
  checked : Bool
  /-- The document, and the number of its diagnostics. -/
  document? : Option (Text × Nat)
deriving DecidableEq, Repr

def Progress.start : Progress := ⟨⟨.root, []⟩, ['-'], false, none⟩

inductive Stage where
  | checking
  | building
  | reporting
deriving DecidableEq, Repr

/-- What a stage did: its log, what it printed, the files afterwards, and the state for the next
stage unless the program ends here. -/
structure StageResult where
  log : List LogLine
  printed : Text
  errors : Text
  tree : Tree
  progress? : Option Progress
deriving DecidableEq, Repr

namespace Stage

def banner : Text :=
  ("\n               _\n" ++
    "  _ __ ___   __| |_      _____  __ ___   _____\n" ++
    " | '_ ` _ \\ / _` \\ \\ /\\ / / _ \\/ _` \\ \\ / / _ \\\n" ++
    " | | | | | | (_| |\\ V  V /  __/ (_| |\\ V /  __/\n" ++
    " |_| |_| |_|\\__,_| \\_/\\_/ \\___|\\__,_| \\_/ \\___|\n\n" ++
    "  Markdown document preprocessor\n").text

/-- Outputs that stand for themselves and are not seen from the output directory. -/
def streamTargets : List Text := ["-".text, "clipboard".text, "pbcopy".text]

/-- The target of the document: a stream if one is named, else a path in the output directory. -/
def outputTarget (i : Invocation) : Text :=
  let inDirectory (name : Text) : Text := (i.outputDirectory.join (.ofText name)).toText
  match i.arguments.outputFile? with
  | none | some [] => inDirectory i.arguments.inputFile
  | some output =>
    if output.lower ∈ streamTargets then
      if output = ['-'] then output else "clipboard".text
    else inDirectory output

def checkEnvironment (w : Workspace) (i : Invocation) (progress : Progress) :
    Except PathError StageResult :=
  let source := i.inputDirectory.join (.ofText i.arguments.inputFile)
  let target := outputTarget i
  let opening : List LogLine := [⟨2, banner⟩, ⟨2, "Checking environment...".text⟩]
  match w.tree.resolve (w.here.join source) with
  | .tooLong => .error (.nameTooLong source)
  | .missing =>
    let complaint := "Error: Input file not found: ".text ++ source.toText ++ ['\n']
    .ok ⟨opening, [], complaint, w.tree, none⟩
  | .found _ =>
    let found : List LogLine :=
      [⟨2, "Input file: ".text ++ w.display source⟩, ⟨2, "Output target: ".text ++ target⟩]
    .ok ⟨opening ++ found, [], [], w.tree,
      some { progress with source, target, checked := true }⟩

def complaint (fault : Fault) : Text :=
  let label :=
    match fault with
    | .clipboard _ => "Output error: "
    | .problem _ | .path _ | .noCommand => "Build error: "
  label.text ++ fault.message ++ ['\n']

def buildDocument (w : Workspace) (i : Invocation) (progress : Progress) : StageResult :=
  let opening : List LogLine := [⟨1, "Building document...".text⟩]
  if !progress.checked then
    ⟨opening, [], "Error: Environment check did not pass\n".text, w.tree, none⟩
  else
    let options : Options :=
      ⟨some progress.target, i.arguments.skipHeaders, i.arguments.embedImages⟩
    let builder : Builder := ⟨w.absolute progress.source, options, .fresh, .empty⟩
    let (builder, report) := builder.build w
    match report.outcome with
    | .error fault => ⟨opening ++ report.log, [], complaint fault, w.tree, none⟩
    | .ok document =>
      let delivery := deliver w i.programs document (.ofOutput options.output?)
      let log := opening ++ report.log ++ delivery.events.filterMap Event.logLine?
      match delivery.outcome with
      | .error fault => ⟨log, [], complaint fault, w.tree, none⟩
      | .ok delivered =>
        let document? := some (document, builder.session.diagnostics.length)
        ⟨log, delivered.printed, [], delivered.tree, some { progress with document? }⟩

def reportResults (w : Workspace) (progress : Progress) : StageResult :=
  match progress.document? with
  | none => ⟨[], [], "Error: Build failed\n".text, w.tree, none⟩
  | some (document, diagnostics) =>
    let lines : List LogLine := [
      ⟨1, "\n✓ Build complete!".text⟩,
      ⟨1, "  Output: ".text ++ progress.target⟩,
      ⟨1, "  Size: ".text ++ Text.ofNat document.length ++ " characters".text⟩]
    let noted : List LogLine :=
      if diagnostics = 0 then []
      else [⟨1, "  Diagnostics: ".text ++ Text.ofNat diagnostics ++
        " (missing includes left as markers)".text⟩]
    ⟨lines ++ noted, [], [], w.tree, some progress⟩

def run (w : Workspace) (i : Invocation) (progress : Progress) :
    Stage → Except PathError StageResult
  | .checking => checkEnvironment w i progress
  | .building => .ok (buildDocument w i progress)
  | .reporting => .ok (reportResults w progress)

def all : List Stage := [.checking, .building, .reporting]

end Stage
end Transclude
