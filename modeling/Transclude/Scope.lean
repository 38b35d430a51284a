import Transclude.Value

/-! Scopes of variables. A scope lists its names in increasing order, each once, so that two scopes
which answer every name alike are equal. -/

namespace Transclude

def insertNamed (name : Text) (v : Value) : List (Text × Value) → List (Text × Value)
  | [] => [(name, v)]
  | (other, w) :: rest =>
    if name < other then (name, v) :: (other, w) :: rest
    else if name = other then (name, v) :: rest
    else (other, w) :: insertNamed name v rest

theorem mem_insertNamed {name : Text} {v : Value} {es : List (Text × Value)} {e : Text × Value}
    (h : e ∈ insertNamed name v es) : e = (name, v) ∨ e ∈ es := by
  fun_induction insertNamed name v es <;> grind

theorem pairwise_insertNamed {name : Text} {v : Value} {es : List (Text × Value)}
    (h : es.Pairwise fun a b => a.1 < b.1) :
    (insertNamed name v es).Pairwise fun a b => a.1 < b.1 := by
  induction es with
  | nil => simp [insertNamed]
  | cons e es ih =>
    obtain ⟨he, hes⟩ := List.pairwise_cons.1 h
    unfold insertNamed
    split
    · rename_i hlt
      refine List.pairwise_cons.2 ⟨fun a ha => ?_, h⟩
      rcases List.mem_cons.1 ha with rfl | ha
      · exact hlt
      · exact List.lt_trans hlt (he a ha)
    · split
      · rename_i heq
        exact List.pairwise_cons.2 ⟨fun a ha => heq ▸ he a ha, hes⟩
      · rename_i hnlt hne
        refine List.pairwise_cons.2 ⟨fun a ha => ?_, ih hes⟩
        rcases mem_insertNamed ha with rfl | ha
        · have := List.not_lt.1 hnlt
          grind
        · exact he a ha

structure Scope where
  entries : List (Text × Value)
  increasing : entries.Pairwise fun a b => a.1 < b.1
deriving DecidableEq, Repr

namespace Scope

def empty : Scope := ⟨[], .nil⟩

def names (s : Scope) : List Text := s.entries.map (·.1)

def get? (s : Scope) (name : Text) : Option Value := s.entries.lookup name

def present? (s : Scope) (name : Text) : Option Value :=
  (s.get? name).filter fun v => !v.isNull

def insert (s : Scope) (name : Text) (v : Value) : Scope :=
  ⟨insertNamed name v s.entries, pairwise_insertNamed s.increasing⟩

/-- Of entries with the same name the last one counts. -/
def ofList (entries : List (Text × Value)) : Scope :=
  entries.foldl (fun s (name, v) => s.insert name v) empty

def inherit (deeper nearer : Scope) : Scope :=
  nearer.entries.foldl
    (fun s (name, v) => s.insert name (((deeper.get? name).map (·.inherit v)).getD v)) deeper

/-- Takes the variables of an included file back into its includer's. The same values win as by
`inherit`, but a list keeps the includer's items in front. -/
def absorb (scope child : Scope) : Scope :=
  let merged := child.inherit scope
  scope.entries.foldl (fun s (name, v) =>
    match merged.get? name with
    | some (.list items) => s.insert name (.list (Value.union v.items items))
    | _ => s) merged

theorem get?_insert (s : Scope) (name other : Text) (v : Value) :
    (s.insert name v).get? other = if other = name then some v else s.get? other := by
  obtain ⟨es, h⟩ := s
  simp only [get?, insert]
  induction es with
  | nil => grind [insertNamed]
  | cons e es ih =>
    have ih := ih (List.pairwise_cons.1 h).2
    obtain ⟨n, w⟩ := e
    unfold insertNamed
    grind

end Scope
end Transclude
