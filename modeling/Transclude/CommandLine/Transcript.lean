import Transclude.CommandLine.Stage

/-! What a run of the whole program leaves: its log, its printed text, its files and its status. -/

namespace Transclude

structure Transcript where
  log : List LogLine
  printed : Text
  errors : Text
  tree : Tree
  status : Nat
deriving DecidableEq, Repr

namespace Transcript

def behind (r : StageResult) (rest : Transcript) : Transcript :=
  { rest with
    log := r.log ++ rest.log
    printed := r.printed ++ rest.printed
    errors := r.errors ++ rest.errors }

def ofStages (w : Workspace) (i : Invocation) (progress : Progress) :
    List Stage → Except PathError Transcript
  | [] => .ok ⟨[], [], [], w.tree, 0⟩
  | stage :: rest => do
    let r ← stage.run w i progress
    match r.progress? with
    | none => return ⟨r.log, r.printed, r.errors, r.tree, 1⟩
    | some progress => return (← ofStages { w with tree := r.tree } i progress rest).behind r

def ofInvocation (w : Workspace) (i : Invocation) (stages : List Stage) :
    Except PathError Transcript := do
  let t ← ofStages w i .start stages
  return { t with log := t.log.filter (·.level ≤ i.arguments.verbosity) }

def verbosity (w : Workspace) (i : Invocation) : Nat :=
  if w.settings.debugMode then max i.arguments.verbosity 3 else i.arguments.verbosity

def ofProgram (w : Workspace) (i : Invocation) : Except PathError Transcript :=
  ofInvocation w { i with arguments := { i.arguments with verbosity := verbosity w i } } Stage.all

end Transcript
end Transclude
