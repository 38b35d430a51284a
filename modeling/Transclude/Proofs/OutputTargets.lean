import Transclude.CommandLine.Stage
import Transclude.Proofs.Rows
import Transclude.Proofs.RunInversion

/-! Where the program sends its document. The output is judged twice: by its name, when the target is
settled, and by the text of the target, when the document is delivered. The two agree on a file
exactly if the text of the joined path is not itself the name of a stream. -/

namespace Transclude

theorem Text.slash_mem_lower {s : Text} (h : '/' ∈ s) : '/' ∈ s.lower := by
  suffices hafter : ∀ before, '/' ∈ lowerAfter before s from hafter []
  induction s with
  | nil => cases h
  | cons c rest ih =>
    intro before
    rw [lowerAfter, List.mem_append]
    rcases List.mem_cons.1 h with rfl | hrest
    · have hsmall : lowerChar '/' = '/' := by decide
      exact .inl (by simp [hsmall])
    · exact .inr (ih hrest _)

namespace Path

/-- Whether the names of a path are such that it can be written down and read again. -/
def IsWritten (p : Path) : Prop := ∀ name ∈ p.names, name ≠ [] ∧ name ≠ ['.'] ∧ '/' ∉ name

theorem isWritten_ofText (s : Text) : (ofText s).IsWritten := by
  intro name hname
  obtain ⟨hsplit, hkept⟩ := List.mem_filter.1 hname
  obtain ⟨hempty, hdot⟩ : name ≠ [] ∧ name ≠ ['.'] := by simpa using hkept
  exact ⟨hempty, hdot, Text.not_mem_of_mem_splitOn hsplit⟩

theorem IsWritten.join {base p : Path} (hbase : base.IsWritten) (hp : p.IsWritten) :
    (base.join p).IsWritten := by
  unfold Path.join
  split
  · intro name hname
    rcases List.mem_append.1 hname with hname | hname
    · exact hbase name hname
    · exact hp name hname
  · exact hp

theorem namesOf_slash (s : Text) : namesOf ('/' :: s) = namesOf s := by
  simp [namesOf, List.splitOn_cons_eq_if_modifyHead]

theorem ofText_of_not_mem {s : Text} (h : '/' ∉ s) :
    ofText s = ⟨.here, if s = [] ∨ s = ['.'] then [] else [s]⟩ := by
  have hanchor : anchorOf s = .here := by
    unfold anchorOf
    split <;> simp_all
  have hnames : namesOf s = if s = [] ∨ s = ['.'] then [] else [s] := by
    rw [namesOf, List.splitOn_eq_singleton h]
    by_cases hempty : s = []
    · simp [hempty]
    · by_cases hdot : s = ['.'] <;> simp [hempty, hdot]
  rw [ofText, hanchor, hnames]

theorem namesOf_joinWith {names : List Text}
    (h : ∀ name ∈ names, name ≠ [] ∧ name ≠ ['.'] ∧ '/' ∉ name) :
    namesOf (Text.joinWith "/" names) = names := by
  by_cases hnames : names = []
  · simp [hnames, Text.joinWith, namesOf]
  · have hsplit : (Text.joinWith "/" names).splitOn '/' = names :=
      List.splitOn_intercalate '/' (fun name hname => (h name hname).2.2) hnames
    rw [namesOf, hsplit, List.filter_eq_self]
    intro name hname
    obtain ⟨hempty, hdot, -⟩ := h name hname
    simp [hempty, hdot]

theorem joinWith_eq_cons {name : Text} (hempty : name ≠ []) (hslash : '/' ∉ name)
    (rest : List Text) : ∃ c s, Text.joinWith "/" (name :: rest) = c :: s ∧ c ≠ '/' := by
  obtain ⟨c, cs, rfl⟩ := List.exists_cons_of_ne_nil hempty
  have hc : c ≠ '/' := fun hc => hslash (hc ▸ List.mem_cons_self)
  cases rest with
  | nil => exact ⟨c, cs, by simp [Text.joinWith, List.intercalate], hc⟩
  | cons next rest =>
    exact ⟨c, cs ++ '/' :: Text.joinWith "/" (next :: rest), by
      simp [Text.joinWith, List.intercalate, String.text], hc⟩

theorem anchorOf_of_ne {c : Char} (hc : c ≠ '/') (s : Text) :
    anchorOf (c :: s) = .here ∧ anchorOf ('/' :: c :: s) = .root ∧
      anchorOf ('/' :: '/' :: c :: s) = .doubleRoot := by
  simp [anchorOf, hc]

theorem ofText_toText {p : Path} (h : p.IsWritten) : ofText p.toText = p := by
  obtain ⟨anchor, names⟩ := p
  have hjoined : namesOf (Text.joinWith "/" names) = names := namesOf_joinWith h
  cases names with
  | nil => cases anchor <;> rfl
  | cons name rest =>
    obtain ⟨hempty, -, hslash⟩ := h name List.mem_cons_self
    obtain ⟨c, s, hcons, hc⟩ := joinWith_eq_cons hempty hslash rest
    obtain ⟨hhere, hroot, hdouble⟩ := anchorOf_of_ne hc s
    rw [hcons] at hjoined
    cases anchor with
    | here =>
      show ofText (Text.joinWith "/" (name :: rest)) = _
      rw [hcons, ofText, hhere, hjoined]
    | root =>
      show ofText ('/' :: Text.joinWith "/" (name :: rest)) = _
      rw [hcons, ofText, hroot, namesOf_slash, hjoined]
    | doubleRoot =>
      show ofText ('/' :: '/' :: Text.joinWith "/" (name :: rest)) = _
      rw [hcons, ofText, hdouble, namesOf_slash, namesOf_slash, hjoined]

/-- Whether a path, once it is written down, is taken for the name of a stream. -/
def ReadsAsStream (p : Path) : Prop :=
  p.anchor = .here ∧
    ∃ name, p.names = [name] ∧ (name = ['-'] ∨ name.lower ∈ Sink.clipboardNames)

theorem readsAsStream_iff {p : Path} (h : p.IsWritten) :
    p.ReadsAsStream ↔ p.toText = ['-'] ∨ p.toText.lower ∈ Sink.clipboardNames := by
  constructor
  · rintro ⟨hanchor, name, hnames, hname⟩
    have htext : p.toText = name := by
      simp [toText, hanchor, hnames, Text.joinWith, List.intercalate]
    rwa [htext]
  · intro hstream
    have hslash : '/' ∉ p.toText := by
      intro hmem
      rcases hstream with hdash | hclip
      · simp [hdash] at hmem
      · have hlower := Text.slash_mem_lower hmem
        have hnone : ∀ name ∈ Sink.clipboardNames, '/' ∉ name := by decide
        exact hnone _ hclip hlower
    have hread := ofText_of_not_mem hslash
    rw [ofText_toText h] at hread
    have hplain : ¬ (p.toText = [] ∨ p.toText = ['.']) := by
      rintro (hempty | hdot)
      · rw [hempty] at hstream
        exact absurd hstream (by decide)
      · rw [hdot] at hstream
        exact absurd hstream (by decide)
    rw [if_neg hplain] at hread
    exact ⟨congrArg Path.anchor hread, p.toText, congrArg Path.names hread, hstream⟩

end Path

theorem Sink.ofOutput_eq_file {target output : Text}
    (h : Sink.ofOutput (some target) = .file output) : output = target := by
  unfold ofOutput at h
  split at h
  · cases h
  · cases h
  · rename_i hsome
    obtain rfl := Option.some.inj hsome
    split at h
    · cases h
    · split at h
      · cases h
      · exact (Sink.file.inj h).symm

/-- A written path is a file to the delivery exactly if it does not read as a stream. -/
theorem Sink.ofOutput_toText {p : Path} (h : p.IsWritten) :
    Sink.ofOutput (some p.toText) = .file p.toText ↔ ¬ p.ReadsAsStream := by
  rw [Path.readsAsStream_iff h]
  cases htext : p.toText with
  | nil =>
    have hread := Path.ofText_toText h
    rw [htext] at hread
    subst hread
    cases htext
  | cons c s =>
    by_cases hdash : c :: s = ['-']
    · simp [ofOutput, hdash]
    · by_cases hclip : Text.lower (c :: s) ∈ clipboardNames <;> simp [ofOutput, hdash, hclip]

/-- The name that a document is to have: that of the input, unless the output has a name. -/
def Arguments.documentName (arguments : Arguments) : Text :=
  match arguments.outputFile? with
  | none | some [] => arguments.inputFile
  | some output => output

namespace Invocation

def destination (i : Invocation) : Path :=
  i.outputDirectory.join (.ofText i.arguments.documentName)

def NamesNoStream (i : Invocation) : Prop :=
  ∀ output ∈ i.arguments.outputFile?, output.lower ∉ Stage.streamTargets

theorem isWritten_destination {i : Invocation} (h : i.outputDirectory.IsWritten) :
    i.destination.IsWritten :=
  h.join (Path.isWritten_ofText _)

end Invocation

namespace Stage

variable {w : Workspace} {i : Invocation} {start checked : Progress} {r : StageResult}

def builder (w : Workspace) (i : Invocation) (checked : Progress) : Builder :=
  ⟨w.absolute checked.source,
    ⟨some checked.target, i.arguments.skipHeaders, i.arguments.embedImages⟩, .fresh, .empty⟩

def written (w : Workspace) (i : Invocation) (checked : Progress) (document : Text)
    (target : Path) : StageResult :=
  let (builder, report) := (builder w i checked).build w
  let log : List LogLine := ⟨1, "Building document...".text⟩ :: report.log
  match w.tree.write target (Utf8.encode document) with
  | .error e => ⟨log, [], complaint (.path e), w.tree, none⟩
  | .ok tree =>
    ⟨log ++ [⟨1, "Wrote ".text ++ target.toText⟩], [], [], tree,
      some { checked with document? := some (document, builder.session.diagnostics.length) }⟩

theorem outputTarget_eq (h : i.NamesNoStream) : outputTarget i = i.destination.toText := by
  unfold outputTarget Invocation.destination Arguments.documentName
  cases houtput : i.arguments.outputFile? with
  | none => rfl
  | some output =>
    have hnot : output.lower ∉ streamTargets := h output houtput
    cases output with
    | nil => rfl
    | cons c output => exact if_neg hnot

theorem checkEnvironment_eq_ok (hcheck : checkEnvironment w i start = .ok r)
    (hpassed : r.progress? = some checked) :
    checked.target = outputTarget i ∧ checked.checked = true := by
  unfold checkEnvironment at hcheck
  simp only at hcheck
  split at hcheck
  · cases hcheck
  · obtain rfl := Except.ok.inj hcheck
    cases hpassed
  · obtain rfl := Except.ok.inj hcheck
    obtain rfl := Option.some.inj hpassed
    exact ⟨rfl, rfl⟩

theorem buildDocument_of_built (hchecked : checked.checked = true) {document : Text}
    (hbuilt : ((builder w i checked).build w).2.outcome = .ok document) :
    buildDocument w i checked =
      let (builder, report) := (builder w i checked).build w
      let delivery := deliver w i.programs document (.ofOutput (some checked.target))
      let log := ⟨1, "Building document...".text⟩ :: report.log ++
        delivery.events.filterMap Event.logLine?
      match delivery.outcome with
      | .error fault => ⟨log, [], complaint fault, w.tree, none⟩
      | .ok delivered => ⟨log, delivered.printed, [], delivered.tree, some
          { checked with document? := some (document, builder.session.diagnostics.length) }⟩ := by
  unfold buildDocument
  simp only [hchecked, Bool.not_true, Bool.false_eq_true, if_false]
  split
  · rename_i fault hfault
    cases hfault.symm.trans hbuilt
  · rename_i other hother
    obtain rfl := Except.ok.inj (hother.symm.trans hbuilt)
    rfl

theorem buildDocument_to_file (hchecked : checked.checked = true) {output : Text}
    (hsink : Sink.ofOutput (some checked.target) = .file output) {document : Text}
    (hbuilt : ((builder w i checked).build w).2.outcome = .ok document) :
    buildDocument w i checked = written w i checked document (w.absolute (.ofText output)) := by
  rw [buildDocument_of_built hchecked hbuilt, hsink, written]
  simp only [deliver]
  cases w.tree.write (w.absolute (.ofText output)) (Utf8.encode document) with
  | error e => simp [Run.stop]
  | ok tree => rfl

/-- A document that goes to a stream changes no file, whatever becomes of it. -/
theorem buildDocument_to_stream (hchecked : checked.checked = true)
    (hsink : ∀ output, Sink.ofOutput (some checked.target) ≠ .file output) :
    (buildDocument w i checked).tree = w.tree := by
  cases houtcome : ((builder w i checked).build w).2.outcome with
  | error fault =>
    unfold buildDocument
    simp only [hchecked, Bool.not_true, Bool.false_eq_true, if_false]
    split
    · rfl
    · rename_i document hdocument
      cases hdocument.symm.trans houtcome
  | ok document =>
    rw [buildDocument_of_built hchecked houtcome]
    cases hdelivery : Sink.ofOutput (some checked.target) with
    | file output => exact absurd hdelivery (hsink output)
    | standard => rfl
    | clipboard =>
      simp only [deliver]
      cases hcopied : (copyToClipboard i.programs w.settings.clipboardCommand.words).outcome with
      | error fault => rw [Run.bind_of_error hcopied]
      | ok u => rw [Run.bind_of_ok hcopied]; rfl

/-- If no stream is named, the checked target sends the document to the file in the output
directory, and nowhere else, exactly if the path of that file does not read as a stream. -/
theorem document_reaches_file_iff (hdirectory : i.outputDirectory.IsWritten)
    (hstream : i.NamesNoStream) (hcheck : checkEnvironment w i start = .ok r)
    (hpassed : r.progress? = some checked) :
    (Sink.ofOutput (some checked.target) = .file i.destination.toText ↔
      ¬ i.destination.ReadsAsStream) ∧
    (¬ i.destination.ReadsAsStream → ∀ document,
      ((builder w i checked).build w).2.outcome = .ok document →
      buildDocument w i checked = written w i checked document (w.absolute i.destination)) ∧
    (i.destination.ReadsAsStream → (buildDocument w i checked).tree = w.tree) := by
  obtain ⟨htarget, hchecked⟩ := checkEnvironment_eq_ok hcheck hpassed
  rw [outputTarget_eq hstream] at htarget
  have hwritten := Invocation.isWritten_destination hdirectory
  have hsink : Sink.ofOutput (some checked.target) = .file i.destination.toText ↔
      ¬ i.destination.ReadsAsStream := by
    rw [htarget]
    exact Sink.ofOutput_toText hwritten
  refine ⟨hsink, fun hfile document hbuilt => ?_, fun hreads => ?_⟩
  · rw [buildDocument_to_file hchecked (hsink.2 hfile) hbuilt, Path.ofText_toText hwritten]
  · apply buildDocument_to_stream hchecked
    intro output houtput
    have heq : output = i.destination.toText := (Sink.ofOutput_eq_file houtput).trans htarget
    exact hsink.1 (heq ▸ houtput) hreads

def guide : Invocation where
  arguments := ⟨"main.md".text, some "./guide.md".text, false, false, 1⟩
  inputDirectory := .ofText ".".text
  outputDirectory := .ofText "built/../out".text
  programs := fun _ => none

theorem document_reaches_file_of_guide :
    ∃ r checked, checkEnvironment (.holding [("main.md", "Text\n")]) guide .start = .ok r ∧
      r.progress? = some checked ∧ guide.outputDirectory.IsWritten ∧ guide.NamesNoStream ∧
      ¬ guide.destination.ReadsAsStream ∧
      Sink.ofOutput (some checked.target) = .file "built/../out/guide.md".text ∧
      (buildDocument (.holding [("main.md", "Text\n")]) guide checked).tree.entryAt?
        ["out".text, "guide.md".text] = some (.file (Utf8.encode "Text\n".text)) := by
  have hdirectory : guide.outputDirectory.IsWritten := Path.isWritten_ofText _
  have hstream : guide.NamesNoStream := by unfold Invocation.NamesNoStream; decide +kernel
  have hfile : ¬ guide.destination.ReadsAsStream := fun h => by
    obtain ⟨-, name, hname, -⟩ := h
    cases hname
  obtain ⟨hsink, hwritten, -⟩ := @document_reaches_file_iff
    (.holding [("main.md", "Text\n")]) guide .start _ _ hdirectory hstream rfl rfl
  have hbuilt := hwritten hfile "Text\n".text (Except.ok_of_toOption (by decide +kernel))
  refine ⟨_, _, rfl, rfl, hdirectory, hstream, hfile, hsink.2 hfile, ?_⟩
  rw [hbuilt]
  decide +kernel

def disguised : Invocation where
  arguments := ⟨"main.md".text, some "./clipboard".text, false, false, 1⟩
  inputDirectory := .ofText ".".text
  outputDirectory := .ofText ".".text
  programs := fun words => if words = ["cat".text] then some ⟨0, []⟩ else none

def copying : Workspace :=
  { Workspace.holding [("main.md", "Text\n")] with
    settings := { Settings.standard with clipboardCommand := "cat".text } }

theorem disguised_file_goes_to_clipboard :
    ∃ r checked, checkEnvironment copying disguised .start = .ok r ∧
      r.progress? = some checked ∧ disguised.outputDirectory.IsWritten ∧ disguised.NamesNoStream ∧
      Sink.ofOutput (some checked.target) = .clipboard ∧
      (buildDocument copying disguised checked).tree = copying.tree ∧
      ⟨1, "Content copied to clipboard.".text⟩ ∈ (buildDocument copying disguised checked).log := by
  refine ⟨_, _, rfl, rfl, Path.isWritten_ofText _, ?_, ?_, ?_, ?_⟩
  · unfold Invocation.NamesNoStream
    decide +kernel
  · decide +kernel
  · decide +kernel
  · decide +kernel

end Stage

end Transclude
