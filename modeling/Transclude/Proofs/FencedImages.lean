import Transclude.Proofs.AlteredTexts
import Transclude.Proofs.RereadImages

/-! Embedding images in a text with fences. References are looked for in fenced lines as in any
others, and across the lines that open and close fences. The fenced lines come out as they were
exactly if none of them holds anything of what changes in a reference that leads to a file. -/

namespace Transclude

open Text (EndsMarks)

def Text.linesOn (front stretch : Text) : List Nat :=
  List.range' (front.count '\n') (stretch.count '\n' + 1)

namespace Image

variable {tree : Tree} {base p : Path} {bytes : List UInt8} {i : Image} {s t : Text} {ns : List Nat}
  {chunks : List (Chunk Image)}

def label (i : Image) : Text := "![".text ++ i.alt ++ [']']

/-- The lines on which a reference changes when it comes to carry bytes, counted from the one it
starts on. Its target is replaced together with the blanks around it, and so is what stands behind
the title unless that is a double quote and the parenthesis. -/
def changedLines (i : Image) : List Nat :=
  match i.title? with
  | none => Text.linesOn (i.label ++ ['(']) (i.lead ++ i.target ++ i.trail)
  | some t =>
    Text.linesOn (i.label ++ ['(']) (i.lead ++ i.target ++ t.gap) ++
      if t.mark = '"' ∧ i.trail = [] then []
      else Text.linesOn (i.label ++ '(' :: i.lead ++ i.target ++ t.gap ++ t.mark :: t.text) i.trail

def changedIn (tree : Tree) (base : Path) : List (Chunk Image) → List Nat
  | [] => []
  | .plain u :: rest => (changedIn tree base rest).map (u.count '\n' + ·)
  | .found i :: rest =>
    (if (i.foundAt? tree base).isSome then i.changedLines else []) ++
      (changedIn tree base rest).map (i.source.count '\n' + ·)

def linesChanged (tree : Tree) (base : Path) (s : Text) : List Nat :=
  changedIn tree base (pattern.scan s)

theorem swaps_target (p : Path) (bytes : List UInt8) (ending : Text) (h : i.IsRead)
    (hf : (i.foundAt? tree base).isSome) {tail : Text} (hne : tail ≠ [])
    (hstop : ∀ c ∈ tail.head?, inBareTarget c = false) (hlast : tail.getLast? ≠ some '\r')
    (hending : '\n' ∉ ending ∧ '\r' ∉ ending) :
    Swaps ('(' :: (i.lead ++ (i.target ++ tail)))
      ('(' :: ((i.embedded p bytes).target ++ ending)) := by
  obtain ⟨behind, hnew⟩ :
      ∃ behind, (i.embedded p bytes).target ++ ending = "data:".text ++ behind :=
    ⟨mediaType p ++ ";base64,".text ++ Base64.encode bytes ++ ending, by simp [embedded]⟩
  have hshort : ¬ i.lead ++ (i.target ++ tail) <+: "data:".text := by
    intro hprefix
    obtain ⟨c, more, rfl⟩ := List.exists_cons_of_ne_nil hne
    have hmem : c ∈ "data:".text := hprefix.subset (by simp)
    have hdata : ∀ c ∈ "data:".text, inBareTarget c := List.all_eq_true.1 (by decide)
    exact Bool.false_ne_true ((hstop c rfl).symm.trans (hdata c hmem))
  have hlocal : ¬ "data:".text <+: i.lead ++ (i.target ++ tail) := by
    rintro ⟨rest, hrest⟩
    rw [foundAt?_of_data h hstop hrest.symm] at hf
    cases hf
  have hfree {c : Char} (hc : isCarried c = false) (hparen : c ≠ '(') (hmem : c ∉ ending) :
      c ∉ '(' :: ((i.embedded p bytes).target ++ ending) := by
    simp only [List.mem_cons, List.mem_append, not_or]
    refine ⟨hparen, fun htarget => ?_, hmem⟩
    exact Bool.false_ne_true (hc.symm.trans (isCarried_target i p bytes c htarget))
  refine ⟨⟨'(', rfl, by decide⟩, ⟨'(', rfl, by decide⟩, ?_,
    ⟨hfree (by decide) (by decide) hending.1, hfree (by decide) (by decide) hending.2⟩, ?_⟩
  · have htail : i.target ++ tail ≠ [] := List.append_ne_nil_of_right_ne_nil _ hne
    rwa [← List.cons_append, List.getLast?_append_of_ne_nil _ htail,
      List.getLast?_append_of_ne_nil _ hne]
  · rw [List.prefix_cons_inj, List.prefix_cons_inj, hnew]
    have hdata : "data:".text <+: "data:".text ++ behind := List.prefix_append _ _
    exact ⟨fun hold => (List.prefix_or_prefix_of_prefix hold hdata).elim hshort hlocal,
      fun hold => hlocal (hdata.trans hold)⟩

theorem swaps_ending {mark : Char} (hmark : mark = '"' ∨ mark = '\'') {trail : Text}
    (htrail : trail.allBlank) (h : ¬ (mark = '"' ∧ trail = [])) :
    Swaps (mark :: (trail ++ [')'])) ['"', ')'] := by
  have hends : EndsMarks mark := by rcases hmark with rfl | rfl <;> decide
  have hlast : (mark :: (trail ++ [')'])).getLast? ≠ some '\r' := by
    rw [← List.cons_append, List.getLast?_concat]
    decide
  refine ⟨⟨mark, rfl, hends⟩, ⟨'"', rfl, by decide⟩, hlast, ⟨by decide, by decide⟩, ?_⟩
  rw [List.cons_prefix_cons, List.cons_prefix_cons]
  by_cases hquote : mark = '"'
  · obtain ⟨c, more, rfl⟩ := List.exists_cons_of_ne_nil fun hnil => h ⟨hquote, hnil⟩
    have hparen : c ≠ ')' := by
      rintro rfl
      exact absurd (List.all_eq_true.1 htrail ')' List.mem_cons_self) (by decide)
    rw [List.cons_append, List.cons_prefix_cons, List.cons_prefix_cons]
    exact ⟨fun hold => hparen hold.2.1, fun hnew => hparen hnew.2.1.symm⟩
  · exact ⟨fun hold => hquote hold.1, fun hnew => hquote hnew.1.symm⟩

theorem altered_ending {title : Title} (ht : title.IsWritten) {trail : Text}
    (htrail : trail.allBlank) (hst : Altered s t ns) :
    Altered (title.mark :: (trail ++ [')']) ++ s) (['"', ')'] ++ t)
      ((if title.mark = '"' ∧ trail = [] then [] else List.range' 0 (trail.count '\n' + 1)) ++
        ns.map (trail.count '\n' + ·)) := by
  by_cases hends : title.mark = '"' ∧ trail = []
  · have hkept := hst.append ['"', ')']
    rw [if_pos hends, hends.1, hends.2]
    simpa using hkept
  · have hswapped := hst.swap (swaps_ending ht.mark htrail hends)
    have hmark : title.mark ≠ '\n' := by rcases ht.mark with heq | heq <;> rw [heq] <;> decide
    rw [if_neg hends]
    simpa [hmark] using hswapped

theorem altered_untitled (h : i.IsRead) (hf : (i.foundAt? tree base).isSome)
    (htitle : i.title? = none) (hst : Altered s t ns) :
    Altered (i.source ++ s) ((i.embedded p bytes).source ++ t)
      (i.changedLines ++ ns.map (i.source.count '\n' + ·)) := by
  have hnone : ∀ t ∈ (none : Option Title), t.IsWritten := nofun
  have hstop : ∀ c ∈ (i.trail ++ [')']).head?, inBareTarget c = false :=
    head?_ending hnone h.trail []
  have hlast : (i.trail ++ [')']).getLast? ≠ some '\r' := by
    rw [List.getLast?_concat]
    decide
  have hswaps := swaps_target p bytes [')'] h hf (by simp) hstop hlast ⟨by decide, by decide⟩
  have hsource : i.source ++ s =
      i.label ++ ('(' :: (i.lead ++ (i.target ++ (i.trail ++ [')']))) ++ s) := by
    simp [source, label, htitle, titleSource, String.text]
  have hembedded : (i.embedded p bytes).source ++ t =
      i.label ++ ('(' :: ((i.embedded p bytes).target ++ [')']) ++ t) := by
    simp [source, embedded, label, htitle, titleSource, String.text]
  rw [hsource, hembedded]
  convert (hst.swap hswaps).append i.label using 1
  simp [changedLines, label, htitle, Text.linesOn, source, titleSource, String.text,
    List.map_add_range', Nat.add_assoc]

theorem altered_titled (h : i.IsRead) (hf : (i.foundAt? tree base).isSome) {title : Title}
    (htitle : i.title? = some title) (hst : Altered s t ns) :
    Altered (i.source ++ s) ((i.embedded p bytes).source ++ t)
      (i.changedLines ++ ns.map (i.source.count '\n' + ·)) := by
  have hwritten := h.title title htitle
  have hmark : title.mark ≠ '\r' ∧ title.mark ≠ '\n' := by
    rcases hwritten.mark with heq | heq <;> rw [heq] <;> decide
  have hstop : ∀ c ∈ (title.gap ++ [title.mark]).head?, inBareTarget c = false := by
    obtain ⟨e, gap, hgap⟩ := List.exists_cons_of_ne_nil hwritten.gap_ne_nil
    have hblank : Text.isBlank e := List.all_eq_true.1 hwritten.gap_blank e (by simp [hgap])
    rw [hgap]
    rintro _ ⟨⟩
    simp [inBareTarget, hblank]
  have hlast : (title.gap ++ [title.mark]).getLast? ≠ some '\r' := by
    rw [List.getLast?_concat]
    exact fun heq => hmark.1 (Option.some.inj heq)
  have hswaps := swaps_target p bytes [' ', '"'] h hf (by simp) hstop hlast ⟨by decide, by decide⟩
  have hsource : i.source ++ s = i.label ++
      ('(' :: (i.lead ++ (i.target ++ (title.gap ++ [title.mark]))) ++
        (title.text ++ (title.mark :: (i.trail ++ [')']) ++ s))) := by
    simp [source, label, htitle, titleSource, Title.source, String.text]
  have hembedded : (i.embedded p bytes).source ++ t = i.label ++
      ('(' :: ((i.embedded p bytes).target ++ [' ', '"']) ++
        (title.text ++ (['"', ')'] ++ t))) := by
    simp [source, embedded, label, htitle, titleSource, Title.source, String.text]
  rw [hsource, hembedded]
  have hending := (altered_ending hwritten h.trail hst).append title.text
  convert (hending.swap hswaps).append i.label using 1
  by_cases hends : title.mark = '"' ∧ i.trail = []
  · simp [changedLines, label, htitle, Text.linesOn, source, titleSource, Title.source, String.text,
      List.range'_eq_map_range, Function.comp_def, Nat.add_assoc, hends]
  · simp [changedLines, label, htitle, Text.linesOn, source, titleSource, Title.source, String.text,
      List.range'_eq_map_range, Function.comp_def, Nat.add_assoc, hmark.2, hends]

theorem altered_inlined (tree : Tree) (base : Path) (h : ∀ i, .found i ∈ chunks → i.IsRead) :
    Altered (Chunk.sources source chunks)
      (Chunk.sources (fun i => (i.settledAt tree base).source) chunks)
      (changedIn tree base chunks) := by
  induction chunks with
  | nil => exact .nil
  | cons chunk rest ih =>
    have hrest := ih fun i hi => h i (List.mem_cons_of_mem _ hi)
    cases chunk with
    | plain u => exact hrest.append u
    | found i =>
      have hread := h i List.mem_cons_self
      rw [Chunk.sources_cons, Chunk.sources_cons, Chunk.source, Chunk.source, changedIn]
      cases hfound : i.foundAt? tree base with
      | none =>
        rw [settledAt_of_none hfound]
        exact hrest.append i.source
      | some file =>
        have hsome : (i.foundAt? tree base).isSome := Option.isSome_of_eq_some hfound
        rw [settledAt_of_some hfound]
        cases htitle : i.title? with
        | none => exact altered_untitled hread hsome htitle hrest
        | some title => exact altered_titled hread hsome htitle hrest

/-- Embedding images ends with a text exactly if every reference can be followed. The fenced lines
of that text are those of the given one, in order and unchanged, exactly if no line on which a
reference to a file changes lies in a fence. -/
theorem embedAll_keeps_fenced_iff (tree : Tree) (base : Path) (s : Text) :
    ((∃ t, (embedAll tree base s).outcome = .ok t) ↔
      ∀ i ∈ references s, i.Followable tree base) ∧
    ∀ t, (embedAll tree base s).outcome = .ok t →
      (Fence.fencedLines t = Fence.fencedLines s ↔
        ∀ n ∈ linesChanged tree base s, Fence.fencedAt s n = false) := by
  refine ⟨?_, fun t ht => ?_⟩
  · simp only [embedAll_eq_ok_iff, exists_and_left, exists_eq, and_true]
  · obtain ⟨-, rfl⟩ := embedAll_eq_ok_iff.1 ht
    have hread : ∀ i, .found i ∈ pattern.scan s → i.IsRead :=
      fun i hi => isRead_of_mem (mem_references.2 hi)
    have haltered := altered_inlined tree base hread
    have hjoin : Chunk.sources source (pattern.scan s) = s := pattern.sources_scan s
    rw [hjoin] at haltered
    exact haltered.fencedLines_eq_iff

theorem embedAll_keeps_fenced_of_sample :
    let tree := (Workspace.holding [("x.png", "x")]).tree
    let base : Path := ⟨.root, []⟩
    let s := "![a](x.png \"A\n~~~\nB\")\n~~~\n~~~\n![b](z)\n~~~".text
    let t := "![a](data:image/png;base64,eA== \"A\n~~~\nB\")\n~~~\n~~~\n![b](z)\n~~~".text
    (embedAll tree base s).outcome = .ok t ∧ linesChanged tree base s = [0] ∧
      Fence.fencedLines t = ["~~~".text, "B\")".text, "~~~".text, "~~~".text, "![b](z)".text,
        "~~~".text] ∧
      Fence.fencedLines t = Fence.fencedLines s := by
  intro tree base s t
  have hok : (embedAll tree base s).outcome = .ok t := Except.ok_of_toOption (by decide +kernel)
  have hlines : linesChanged tree base s = [0] := by decide +kernel
  refine ⟨hok, hlines, by decide +kernel, ((embedAll_keeps_fenced_iff tree base s).2 t hok).2 ?_⟩
  rw [hlines]
  decide +kernel

/-- A reference in a code sample comes to carry the bytes of the file that it names, and so does one
that starts in front of the fence and ends in it. -/
theorem embedded_in_sample :
    let tree := (Workspace.holding [("x.png", "x")]).tree
    let base : Path := ⟨.root, []⟩
    let s := "\x60\x60\x60\n![a](x.png)\n\x60\x60\x60".text
    let t := "\x60\x60\x60\n![a](data:image/png;base64,eA==)\n\x60\x60\x60".text
    let s' := "![a\n\x60\x60\x60\n](x.png)\n\x60\x60\x60".text
    let t' := "![a\n\x60\x60\x60\n](data:image/png;base64,eA==)\n\x60\x60\x60".text
    ((embedAll tree base s).outcome = .ok t ∧ Fence.fencedLines t ≠ Fence.fencedLines s) ∧
      (embedAll tree base s').outcome = .ok t' ∧ Fence.fencedLines t' ≠ Fence.fencedLines s' := by
  intro tree base s t s' t'
  exact ⟨⟨Except.ok_of_toOption (by decide +kernel), by decide +kernel⟩,
    Except.ok_of_toOption (by decide +kernel), by decide +kernel⟩

end Image
end Transclude
