import Transclude.FrontMatter.Block
import Transclude.Workspace

/-! The source of a file as a run sees it: read, rid of carriage returns, and with its front matter
split off. -/

namespace Transclude

theorem Tree.not_mem_unifyEndings (s : Text) : '\r' ∉ Tree.unifyEndings s := by
  fun_induction Tree.unifyEndings s with
  | case1 => exact List.not_mem_nil
  | case2 rest ih => simpa using ih
  | case3 c rest _ ih =>
    intro h
    rcases List.mem_cons.1 h with h | h
    · split at h
      · exact absurd h (by decide)
      · rename_i hc
        exact hc h.symm
    · exact ih h

theorem Tree.not_mem_of_readEntry {p : Path} {entry : Entry} {s : Text}
    (h : Tree.readEntry p entry = .ok s) : '\r' ∉ s := by
  unfold Tree.readEntry at h
  split at h
  · cases h
  · split at h
    · obtain rfl := Except.ok.inj h
      exact Tree.not_mem_unifyEndings _
    · cases h

theorem FrontMatter.body_suffix (s : Text) : (FrontMatter.split s).body <:+ s := by
  have hmark : (dropMark s).2 <:+ s := by
    unfold dropMark
    split
    · exact List.suffix_refl _
    · split
      · exact List.suffix_cons _ _
      · exact List.suffix_refl _
  unfold split
  generalize dropMark s = halves at hmark
  obtain ⟨mark, working⟩ := halves
  dsimp only at hmark ⊢
  split
  · exact List.suffix_refl s
  · rename_i first rest hfirst
    obtain ⟨opened, hopened, hending⟩ := Option.bind_eq_some_iff.1 hfirst
    have hrest : rest <:+ working := by
      rw [Text.after?_eq_some_iff.1 hopened, ← append_of_ending? hending]
      exact ((List.suffix_append _ _).trans (List.suffix_append _ _))
    split
    · exact List.suffix_refl s
    · rename_i block closing others hblock
      have hothers : others <:+ rest := ⟨block ++ closing, append_of_cutBlock? hblock⟩
      have hbody : ((ending? others).getD ([], others)).2 <:+ others := by
        cases hgap : ending? others with
        | none => exact List.suffix_refl others
        | some gap => exact ⟨gap.1, append_of_ending? hgap⟩
      exact hbody.trans (hothers.trans (hrest.trans hmark))

namespace Workspace

/-- A file with its front matter split off, if it is there and can be read. -/
def front? (w : Workspace) (file : Path) : Option FrontMatter :=
  match w.tree.entryAt? file.names with
  | none => none
  | some entry => (Tree.readEntry file entry).toOption.map FrontMatter.split

variable {w : Workspace} {file : Path} {front : FrontMatter}

theorem front?_eq_some_iff :
    w.front? file = some front ↔
      ∃ entry s, w.tree.entryAt? file.names = some entry ∧ Tree.readEntry file entry = .ok s ∧
        FrontMatter.split s = front := by
  unfold front?
  cases w.tree.entryAt? file.names with
  | none => simp
  | some entry => cases hr : Tree.readEntry file entry <;> simp [hr, Except.toOption]

theorem exists_read_of_front? (h : w.front? file = some front) :
    ∃ entry s, w.tree.entryAt? file.names = some entry ∧ w.read file entry = pure s ∧
      FrontMatter.split s = front := by
  obtain ⟨entry, s, hentry, hread, hfront⟩ := front?_eq_some_iff.1 h
  exact ⟨entry, s, hentry, by rw [read, hread], hfront⟩

theorem not_mem_of_front? (h : w.front? file = some front) : '\r' ∉ front.body := by
  obtain ⟨entry, s, -, hread, rfl⟩ := front?_eq_some_iff.1 h
  exact fun hmem => Tree.not_mem_of_readEntry hread ((FrontMatter.body_suffix s).subset hmem)

end Workspace
end Transclude
