import Transclude.Path

/-! A tree of files and directories. -/

namespace Transclude

inductive Entry where
  | file (bytes : List UInt8)
  | directory
deriving DecidableEq, Repr

/-- What stands under the root, by the names that lead there. -/
structure Tree where
  entries : List (List Text × Entry)
deriving DecidableEq, Repr

namespace Tree

def entryAt? (t : Tree) (names : List Text) : Option Entry :=
  if names = [] then some .directory else t.entries.lookup names

/-- All paths that name an entry, however they are anchored. -/
def paths (t : Tree) : List Path :=
  [Anchor.here, .root, .doubleRoot].flatMap fun anchor =>
    ([] :: t.entries.map (·.1)).map (Path.mk anchor)

def put (t : Tree) (names : List Text) (entry : Entry) : Tree :=
  if (t.entries.lookup names).isSome then
    ⟨t.entries.map fun (other, old) => (other, if other = names then entry else old)⟩
  else ⟨t.entries ++ [(names, entry)]⟩

/-- Takes an entry away with all that is below it. -/
def erase (t : Tree) (names : List Text) : Tree :=
  ⟨t.entries.filter fun (other, _) => !names.isPrefixOf other⟩

/-- Makes the directories on the way along `rest` from `here`, where there are none. -/
def makeDirectories (t : Tree) (here : List Text) : List Text → Tree
  | [] => t
  | name :: rest =>
    let t := if (t.entryAt? (here ++ [name])).isSome then t else t.put (here ++ [name]) .directory
    t.makeDirectories (here ++ [name]) rest

def place (t : Tree) (names : List Text) (entry : Entry) : Tree :=
  (t.makeDirectories [] names.dropLast).put names entry

theorem mem_paths_of_entryAt? {t : Tree} {p : Path} {e : Entry} (h : t.entryAt? p.names = some e) :
    p ∈ t.paths := by
  have hn : p.names ∈ [] :: t.entries.map (·.1) := by
    unfold entryAt? at h
    split at h
    · simp_all
    · rw [List.lookup_eq_some_iff] at h
      grind
  rw [paths, List.mem_flatMap]
  refine ⟨p.anchor, ?_, List.mem_map.2 ⟨p.names, hn, rfl⟩⟩
  cases p.anchor <;> simp

/-- The number of paths that a chain of includes can still be extended by. -/
def unvisited (t : Tree) (chain : List Path) : Nat := (t.paths.filter (· ∉ chain)).length

theorem unvisited_lt {t : Tree} {chain : List Path} {p : Path} {e : Entry}
    (he : t.entryAt? p.names = some e) (hp : p ∉ chain) :
    t.unvisited (chain ++ [p]) < t.unvisited chain := by
  have hmem : p ∈ t.paths.filter (· ∉ chain) := by
    simp [mem_paths_of_entryAt? he, hp]
  have hsplit : t.paths.filter (· ∉ chain ++ [p]) =
      (t.paths.filter (· ∉ chain)).filter (· ≠ p) := by
    rw [List.filter_filter]
    congr 1
    funext q
    by_cases hq : q ∈ chain <;> by_cases hqp : q = p <;> simp [hq, hqp]
  rw [unvisited, unvisited, hsplit]
  exact List.length_filter_lt_length_iff_exists.2 ⟨p, hmem, by simp⟩

end Tree
end Transclude
