import Transclude.Proofs.BareDocuments
import Transclude.Proofs.HeaderLayout

/-! Building a built document again. Without directives in it nothing is done but to write its
front matter anew, so it stays as it is exactly if the values it declares are read back. -/

namespace Transclude

/-- A whole document, with its front matter and without embedded images. -/
def Options.whole : Options := ⟨none, false, false⟩

theorem Tree.unifyEndings_eq_self {s : Text} (h : '\r' ∉ s) : Tree.unifyEndings s = s := by
  fun_induction Tree.unifyEndings s with
  | case1 => rfl
  | case2 rest _ => exact absurd List.mem_cons_self h
  | case3 c rest _ ih =>
    have hc : c ≠ '\r' := (List.ne_of_not_mem_cons h).symm
    rw [if_neg hc, ih (List.not_mem_of_not_mem_cons h)]

namespace FrontMatter

variable {s : Text}

def rewritten (s : Text) : Text := compose (split s).scope .whole (split s).raw? (split s).body

theorem rewritten_eq (s : Text) :
    rewritten s = Layout.prettify (render (split s).scope (split s).raw? ++ (split s).body) := rfl

theorem not_mem_rewritten (h : '\r' ∉ s) : '\r' ∉ rewritten s := by
  rw [rewritten_eq]
  refine Layout.not_mem_prettify fun hc => ?_
  rcases List.mem_append.1 hc with hc | hc
  · exact not_mem_render (declarable_split h) (not_mem_raw h) hc
  · exact not_mem_body h hc

end FrontMatter

variable {w w' : Workspace} {entry main : Path} {D : Text}

theorem exists_render_of_build (h : (build w .whole entry).outcome = .ok D) :
    ∃ root raw? body, (collect w [] entry .empty).outcome = .ok root ∧ '\r' ∉ raw?.getD [] ∧
      D = Layout.prettify (FrontMatter.render root raw? ++ body) := by
  unfold build at h
  obtain ⟨_, -, h⟩ := Run.outcome_bind_eq_ok_iff.1 h
  obtain ⟨root, hroot, h⟩ := Run.outcome_bind_eq_ok_iff.1 h
  obtain ⟨_, -, h⟩ := Run.outcome_bind_eq_ok_iff.1 h
  obtain ⟨expanded, hexpanded, h⟩ := Run.outcome_bind_eq_ok_iff.1 h
  obtain ⟨⟨lists, body⟩, -, h⟩ := Run.outcome_bind_eq_ok_iff.1 h
  obtain ⟨_, -, h⟩ := Run.outcome_bind_eq_ok_iff.1 h
  refine ⟨root, expanded.rawFrontMatter?, body, hroot, ?_, (Except.ok.inj h).symm⟩
  unfold Expander.expandFile at hexpanded
  split at hexpanded
  · cases hexpanded
  · rename_i found _
    obtain ⟨_, -, hexpanded⟩ := Run.outcome_bind_eq_ok_iff.1 hexpanded
    obtain ⟨s, hread, hexpanded⟩ := Run.outcome_bind_eq_ok_iff.1 hexpanded
    obtain ⟨_, -, hexpanded⟩ := Run.outcome_bind_eq_ok_iff.1 hexpanded
    obtain rfl := Except.ok.inj hexpanded
    have hs := Workspace.read_eq_ok_iff.1 (Run.ext rfl hread : w.read entry found = ⟨_, .ok s⟩)
    exact FrontMatter.not_mem_raw (Tree.not_mem_of_readEntry hs.2)

/-- A built document without directives builds again, with no diagnostics. What comes out is the
document with its front matter written anew: the same document if it holds no carriage return and
every value of the root scope comes back. -/
theorem build_again_eq_iff {bytes : List UInt8} (h : (build w .whole entry).outcome = .ok D)
    (hbare : D.Bare) (hfile : w'.tree.entryAt? main.names = some (.file bytes))
    (hbytes : Utf8.decode bytes = .ok D) :
    ∃ root, (collect w [] entry .empty).outcome = .ok root ∧
      (build w' .whole main).outcome = .ok (FrontMatter.rewritten (Tree.unifyEndings D)) ∧
      (Builder.sessionOf (build w' .whole main)).diagnostics = [] ∧
      (FrontMatter.rewritten (Tree.unifyEndings D) = D ↔ '\r' ∉ D ∧ FrontMatter.IsSettled D) ∧
      ('\r' ∉ D → root.entries ≠ [] →
        (FrontMatter.IsSettled D ↔ ∀ e ∈ root.entries, e.2.ReadsBack)) := by
  have hread : Tree.readEntry main (.file bytes) = .ok (Tree.unifyEndings D) := by
    rw [Tree.readEntry, hbytes]
  have hbody : (FrontMatter.split (Tree.unifyEndings D)).body.Bare :=
    hbare.unifyEndings.of_infix (FrontMatter.body_suffix _).isInfix
  have hbuild : build w' .whole main = _ := build_of_bare rfl hfile hread hbody
  obtain ⟨root, raw?, body, hroot, hraw, hD⟩ := exists_render_of_build h
  refine ⟨root, hroot, by rw [hbuild]; rfl, by rw [hbuild]; rfl, ?_, fun hcr hne => ?_⟩
  · have hsettled (hcr : '\r' ∉ D) :
        FrontMatter.rewritten (Tree.unifyEndings D) = D ↔ FrontMatter.IsSettled D := by
      rw [Tree.unifyEndings_eq_self hcr]
      refine FrontMatter.prettify_render_split_iff hcr ?_
      rw [hD] at hcr ⊢
      exact Layout.prettify_prettify hcr
    constructor
    · intro heq
      have hcr : '\r' ∉ D :=
        heq ▸ FrontMatter.not_mem_rewritten (Tree.not_mem_of_readEntry hread)
      exact ⟨hcr, (hsettled hcr).1 heq⟩
    · rintro ⟨hcr, hfront⟩
      exact (hsettled hcr).2 hfront
  · have hscope := Workspace.declarable_collect Scope.declarable_empty hroot
    rw [hD] at hcr ⊢
    exact FrontMatter.isSettled_prettify_render_iff hscope hne hraw hcr

def report : String := "---\nauthors:\n  - Ann\n  - Bob\nx: 1 \"a\"\n---\n\n# Report\n\n1 \"a\"\n"

theorem build_again_of_report :
    let w := Workspace.holding [
      ("main", "---\nauthors:\n - Ann\n---\n# Report\n\n\x7b!include(part)!\x7d"),
      ("part", "---\nx: 1 \"a\"\nauthors: Bob\n---\n\n\x7b!var(x)!\x7d\n")]
    (build w .whole (.named "main")).outcome = .ok report.text ∧
      (build (.holding [("main", report)]) .whole (.named "main")).outcome = .ok report.text := by
  intro w
  have hbuild : (build w .whole (.named "main")).outcome = .ok report.text :=
    Except.ok_of_toOption (by decide +kernel)
  have hbare : report.text.Bare := by
    unfold Text.Bare
    decide +kernel
  have hcr : '\r' ∉ report.text := by decide +kernel
  have hfile : (Workspace.holding [("main", report)]).tree.entryAt? (Path.named "main").names =
      some (.file (Utf8.encode report.text)) := rfl
  have hbytes : Utf8.decode (Utf8.encode report.text) = .ok report.text :=
    Except.ok_of_toOption (by decide +kernel)
  obtain ⟨root, hroot, hagain, -, hiff, hback⟩ := build_again_eq_iff hbuild hbare hfile hbytes
  have hcollected : (collect w [] (.named "main") .empty).outcome =
      .ok (.ofList [("x".text, .scalar (some "1 \"a\"".text)),
        ("authors".text, .list [some "Ann".text, some "Bob".text])]) :=
    Except.ok_of_toOption (by decide +kernel)
  obtain rfl := Except.ok.inj (hroot.symm.trans hcollected)
  have hvalues := (hback hcr (by decide +kernel)).2 (by decide +kernel)
  rw [hiff.2 ⟨hcr, hvalues⟩] at hagain
  exact ⟨hbuild, hagain⟩

/-- A value that is in quotes of its own loses them when it is read again. -/
theorem quotes_lost_again :
    let quoted := "---\nx: 'a'\n---\n\nbody\n"
    (build (.holding [("main", "---\nx: \"'a'\"\n---\nbody\n")]) .whole (.named "main")).outcome =
        .ok quoted.text ∧
      quoted.text.Bare ∧
      (build (.holding [("main", quoted)]) .whole (.named "main")).outcome =
        .ok "---\nx: a\n---\n\nbody\n".text ∧
      "---\nx: a\n---\n\nbody\n".text ≠ quoted.text := by
  refine ⟨Except.ok_of_toOption (by decide +kernel), ?_,
    Except.ok_of_toOption (by decide +kernel), by decide +kernel⟩
  unfold Text.Bare
  decide +kernel

end Transclude
