import Transclude.Expansion
import Transclude.Layout
import Transclude.Listing.Harvest
import Transclude.Listing.Table
import Transclude.Session

/-! Building a document: the root scope is collected, the entry file expanded, records are moved into
tables, and the result is laid out behind its front matter. A builder can build again and again; of
an earlier build only the root scope is left, and only until the next one is collected. -/

namespace Transclude

structure Options where
  /-- Where the document goes. -/
  output? : Option Text
  /-- Whether the front matter is left out. -/
  skipHeaders : Bool
  embedImages : Bool
deriving DecidableEq, Repr

def compose (scope : Scope) (options : Options) (rawFrontMatter? : Option Text) (body : Text) :
    Text :=
  let header := if options.skipHeaders then [] else FrontMatter.render scope rawFrontMatter?
  Layout.prettify (header ++ body)

def arrangeLists (file standard s : Text) : Run (Lists × Text) := do
  let harvest := Harvest.ofText file standard s
  let kept ← harvest.run
  let lists := Lists.addAll [] harvest.items
  let body ← .ofExcept (Table.renderAll file standard lists kept)
  return (lists, body)

def build (w : Workspace) (options : Options) (entry : Path) : Run Text := do
  .emit (.building entry)
  let scope ← collect w [] entry .empty
  .emit (.scopeCollected scope)
  let expanded ← (Expander.mk w scope options.embedImages).expandFile [] entry .empty
  let (lists, body) ← arrangeLists entry.toText w.settings.defaultListName expanded.body
  .emit (.itemsCollected lists.size)
  return compose scope options expanded.rawFrontMatter? body

structure Builder where
  entry : Path
  options : Options
  session : Session
  rootScope : Scope
deriving DecidableEq, Repr

structure BuildReport where
  outcome : Except Fault Text
  log : List LogLine

namespace Builder

def create (w : Workspace) (options : Options) (entry : Text) : Except Problem Builder :=
  if entry = [] then .error .noEntry
  else .ok ⟨w.absolute (.ofText entry), options, .fresh, .empty⟩

def scopeAfter (scope : Scope) (events : List Event) : Scope :=
  events.foldl (fun scope event =>
    match event with
    | .scopeCollected collected => collected
    | _ => scope) scope

/-- The session of one build. A fault that is no problem is recorded like a note. -/
def sessionOf (run : Run Text) : Session :=
  let session := Session.fresh.after run
  match run.outcome with
  | .error (.problem _) | .ok _ => session
  | .error fault => session.record fault.message

def build (b : Builder) (w : Workspace) : Builder × BuildReport :=
  let run := Transclude.build w b.options b.entry
  let session := sessionOf run
  ({ b with session, rootScope := scopeAfter b.rootScope run.events },
    ⟨run.outcome, run.events.filterMap Event.logLine? ++ session.report⟩)

end Builder
end Transclude
