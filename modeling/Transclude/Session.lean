import Transclude.Run

/-! The diagnostics of a build. A note is kept once however often it is made; the problem that
aborts a build is always added. -/

namespace Transclude

structure Session where
  diagnostics : List Text
deriving DecidableEq, Repr

namespace Session

def fresh : Session := ⟨[]⟩

def record (s : Session) (message : Text) : Session :=
  if message ∈ s.diagnostics then s else ⟨s.diagnostics ++ [message]⟩

def fail (s : Session) (message : Text) : Session := ⟨s.diagnostics ++ [message]⟩

/-- What one step of a run adds: only a missing include is noted. -/
def observe (s : Session) : Event → Session
  | .missing m => s.record m.message
  | _ => s

def after {α : Type} (s : Session) (run : Run α) : Session :=
  let noted := run.events.foldl observe s
  match run.outcome with
  | .error (.problem p) => noted.fail p.message
  | _ => noted

def numbered (start : Nat) : List Text → List Text
  | [] => []
  | message :: rest =>
    (Text.ofNat start ++ ". ".text ++ message) :: numbered (start + 1) rest

def summary (s : Session) : Text :=
  if s.diagnostics = [] then []
  else
    let headline :=
      "Completed with ".text ++ Text.ofNat s.diagnostics.length ++ " error(s):".text
    Text.joinWith "\n" (headline :: numbered 1 s.diagnostics)

def report (s : Session) : List LogLine :=
  if s.diagnostics = [] then [] else [⟨0, s.summary⟩]

end Session
end Transclude
