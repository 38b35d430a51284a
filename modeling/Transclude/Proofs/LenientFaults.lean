import Transclude.Build
import Transclude.Proofs.IncludeSites
import Transclude.Proofs.MissingIncludes
import Transclude.Proofs.TokenPasses

/-! What ends a build that is not strict. Each of its parts can fail for reasons of its own, but
none of them fails over a missing include. -/

namespace Transclude

variable {α β : Type}

/-- Whether an attempt, if it fails, does so for another reason than a missing include. -/
def Tolerant (x : Except Problem α) : Prop := ∀ m, x ≠ .error (.missingInclude m)

theorem tolerant_ok (a : α) : Tolerant (.ok a) := nofun

theorem Tolerant.error {x : Except Problem α} (hx : Tolerant x) {p : Problem} (h : x = .error p) :
    Tolerant (.error p : Except Problem β) := fun m hm =>
  hx m (h.trans (congrArg _ (Except.error.inj hm)))

theorem Tolerant.bind {x : Except Problem α} {f : α → Except Problem β} (hx : Tolerant x)
    (hf : ∀ a, Tolerant (f a)) : Tolerant (x >>= f) := by
  cases x with
  | error p => exact hx.error rfl
  | ok a => exact hf a

theorem Tolerant.map {x : Except Problem α} (hx : Tolerant x) (f : α → β) :
    Tolerant (f <$> x) := by
  rw [map_eq_pure_bind]
  exact hx.bind fun a => tolerant_ok (f a)

theorem tolerant_ite {c : Prop} [Decidable c] {x y : Except Problem α} (hx : Tolerant x)
    (hy : Tolerant y) : Tolerant (if c then x else y) := by
  split
  · exact hx
  · exact hy

theorem tolerant_mapM {f : α → Except Problem β} (h : ∀ a, Tolerant (f a)) (xs : List α) :
    Tolerant (xs.mapM f) := by
  induction xs with
  | nil => exact tolerant_ok _
  | cons a xs ih =>
    rw [List.mapM_cons]
    exact (h a).bind fun b => ih.bind fun bs => tolerant_ok _

theorem Include.tolerant_read (argument : Text) : Tolerant (read argument) := by
  unfold read
  split <;> nofun

theorem tolerant_fillTemplate (scopes : List Scope) (file template : Text) :
    Tolerant (fillTemplate scopes file template) := by
  have hvalue (p : Placeholder) : Tolerant (p.value scopes file) := by
    unfold Placeholder.value
    split
    · nofun
    · split <;> nofun
  unfold fillTemplate
  induction Placeholder.pattern.scan template with
  | nil => exact tolerant_ok _
  | cons chunk rest ih =>
    cases chunk with
    | plain s => exact ih.bind fun filled => tolerant_ok _
    | found p => exact (hvalue p).bind fun v => ih.bind fun filled => tolerant_ok _

theorem tolerant_siteIn (i : Include) (offset : Int) (target : Path) (front : FrontMatter) :
    Tolerant (i.siteIn offset target front) := by
  have hselect : Tolerant (Heading.select i.heading? front.body) := by
    unfold Heading.select
    split
    · rintro _ ⟨⟩
    · rintro _ ⟨⟩
    · unfold Heading.cutSection
      split
      · rintro _ ⟨⟩
      · split <;> rintro _ ⟨⟩
  have hshift (reference? : Option Int) :
      Tolerant (Heading.shiftTo i.level? reference? offset) := by
    unfold Heading.shiftTo
    split
    · rintro _ ⟨⟩
    · rintro _ ⟨⟩
    · split <;> rintro _ ⟨⟩
  exact hselect.bind fun snippet => (hshift _).bind fun shift => tolerant_ok _

theorem Condition.tolerant_parse (file raw : Text) : Tolerant (Condition.parse file raw) := by
  unfold Condition.parse
  split
  · nofun
  · split <;> nofun

theorem Block.tolerant_parseFrom (file : Text) (regions : List OpenRegion) (block : Block)
    (tokens : List Token) : Tolerant (parseFrom file regions block tokens) := by
  induction tokens generalizing regions block with
  | nil => cases regions <;> rintro _ ⟨⟩
  | cons t rest ih =>
    cases t with
    | plain s =>
      rw [parseFrom]
      exact ih _ _
    | found d =>
      cases d with
      | ifHolds gap argument =>
        rw [parseFrom]
        split
        · exact (Condition.tolerant_parse _ _).error ‹_›
        · exact ih _ _
      | elseIf gap argument =>
        cases regions with
        | nil => rintro _ ⟨⟩
        | cons current outer =>
          rw [parseFrom]
          split
          · rintro _ ⟨⟩
          · split
            · exact (Condition.tolerant_parse _ _).error ‹_›
            · exact ih _ _
      | otherwise =>
        cases regions with
        | nil => rintro _ ⟨⟩
        | cons current outer =>
          rw [parseFrom]
          split
          · rintro _ ⟨⟩
          · exact ih _ _
      | endIf =>
        cases regions with
        | nil => rintro _ ⟨⟩
        | cons current outer =>
          rw [parseFrom]
          exact ih _ _
      | _ =>
        rw [parseFrom] <;> first | exact ih _ _ | nofun

theorem Block.tolerant_parseAll (file : Text) (tokens : List Token) :
    Tolerant (parseAll file tokens) := by
  unfold parseAll parse
  split
  · rename_i h
    exact (tolerant_parseFrom _ _ _ _).error h
  · rintro _ ⟨⟩
  · rintro _ ⟨⟩

theorem Harvest.tolerant_addAttributes (file : Text) (attributes : Fields Text) (line : Int)
    (ls : List Text) : Tolerant (addAttributes file attributes line ls) := by
  fun_induction addAttributes file attributes line ls <;> first | assumption | nofun

theorem Harvest.tolerant_readFrom {file standard : Text} {p : Position} {open? : Option OpenItem}
    {ls : List Text} (m : MissingInclude) :
    (readFrom file standard p open? ls).problem? ≠ some (.missingInclude m) := by
  induction ls generalizing p open? with
  | nil => cases open? <;> nofun
  | cons line rest ih =>
    unfold readFrom
    split
    · split
      · split
        · rename_i problem h
          intro hm
          rw [Option.some.inj hm] at h
          exact tolerant_addAttributes _ _ _ _ m h
        · exact ih
      · exact ih
    · dsimp only
      split
      · exact ih
      · split
        · exact ih
        · exact ih

theorem Table.tolerant_render (file standard : Text) (lists : Lists) (argument : Text) :
    Tolerant (render file standard lists argument) := by
  have hcolumns (s : Text) : Tolerant (Column.parseAll file s) := by
    unfold Column.parseAll
    split
    · nofun
    · refine tolerant_mapM (fun entry => ?_) _
      unfold Column.parse
      split
      · nofun
      · split <;> nofun
  have hoptions (options : Fields TableOption) (parts : List Text) :
      Tolerant (TableOption.addAll file options parts) := by
    fun_induction TableOption.addAll file options parts <;>
      first | assumption | exact (hcolumns _).error ‹_› | nofun
  unfold render TableOption.parse
  split
  · rename_i h
    exact (hoptions _ _).error h
  · exact tolerant_ite (tolerant_ok _) (tolerant_ite (tolerant_ok _) (tolerant_ok _))

theorem Table.tolerant_renderAll (file standard : Text) (lists : Lists) (s : Text) :
    Tolerant (renderAll file standard lists s) := by
  have htokens (tokens : List Token) :
      Tolerant (renderTokens (render file standard lists) tokens) := by
    fun_induction renderTokens (render file standard lists) tokens with
    | case1 => exact tolerant_ok _
    | case2 argument rest ih =>
      exact (tolerant_render _ _ _ _).bind fun t => ih.bind fun others => tolerant_ok _
    | case3 token rest _ ih => exact ih.bind fun others => tolerant_ok _
  have hlines (open? : Option Fence) (ls : List Text) :
      Tolerant (renderLines (render file standard lists) open? ls) := by
    induction ls generalizing open? with
    | nil => exact tolerant_ok _
    | cons line rest ih =>
      rw [renderLines]
      have hrest (next : Option Fence) (t : Text) := (ih next).bind fun others =>
        tolerant_ok (t :: others)
      exact tolerant_ite ((tolerant_ok line).bind (hrest _)) ((htokens _).bind (hrest _))
  exact (hlines none s.lines).map Text.unlines

namespace Run

def Tolerant (x : Run α) : Prop := ∀ m, x.outcome ≠ .error (.problem (.missingInclude m))

theorem tolerant_pure (a : α) : Tolerant (pure a) := nofun

theorem tolerant_emit (event : Event) : Tolerant (emit event) := nofun

theorem tolerant_ofExcept {x : Except Problem α} (h : Transclude.Tolerant x) :
    Tolerant (ofExcept x) := by
  intro m hm
  cases x with
  | error p => exact h m (by rw [Fault.problem.inj (Except.error.inj hm)])
  | ok a => cases hm

variable {x : Run α}

theorem Tolerant.bind {f : α → Run β} (hx : Tolerant x) (hf : ∀ a, Tolerant (f a)) :
    Tolerant (x >>= f) := by
  intro m
  cases ho : x.outcome with
  | error fault =>
    rw [bind_of_error ho]
    exact fun hm => hx m (ho.trans (congrArg _ (Except.error.inj hm)))
  | ok a =>
    rw [bind_of_ok ho]
    exact hf a m

theorem Tolerant.map (hx : Tolerant x) (f : α → β) : Tolerant (f <$> x) := by
  rw [map_eq_pure_bind]
  exact hx.bind fun a => tolerant_pure (f a)

theorem Tolerant.not_isMissingNote (hx : Tolerant x) {fault : Fault}
    (h : x.outcome = .error fault) : ¬ fault.message.IsMissingNote := by
  intro hnote
  obtain ⟨m, rfl⟩ := Fault.isMissingNote_iff.1 hnote
  exact hx m h

theorem tolerant_foldlM {f : β → α → Run β} (h : ∀ b a, Tolerant (f b a)) (xs : List α) (b : β) :
    Tolerant (xs.foldlM f b) := by
  induction xs generalizing b with
  | nil => exact tolerant_pure b
  | cons a xs ih =>
    rw [List.foldlM_cons]
    exact (h b a).bind ih

end Run

open Run

theorem Token.tolerant_pass {replace : Directive → Run Text} (h : ∀ d, Run.Tolerant (replace d))
    (tokens : List Token) : Run.Tolerant (pass replace tokens) := by
  induction tokens with
  | nil => exact tolerant_pure _
  | cons token rest ih =>
    cases token with
    | plain s => exact ih.map _
    | found d => exact (h d).bind fun s => ih.map _

theorem tolerant_guardHolds (scope : Scope) (file : Text) (guard? : Option Condition) :
    Run.Tolerant (guardHolds scope file guard?) := by
  cases guard? with
  | none => exact tolerant_pure true
  | some c =>
    rw [guardHolds, Condition.holds]
    split <;> nofun

mutual

theorem Block.tolerant_render (scope : Scope) (file : Text) :
    (b : Block) → Run.Tolerant (b.render scope file)
  | .empty => tolerant_pure _
  | .token t next => by
    rw [Block.render]
    exact (next.tolerant_render scope file).bind fun s => tolerant_pure _
  | .region arms next => by
    rw [Block.render]
    refine (arms.tolerant_render scope file 0).bind fun s => ?_
    exact (next.tolerant_render scope file).bind fun s => tolerant_pure _

theorem Arms.tolerant_render (scope : Scope) (file : Text) (n : Nat) :
    (arms : Arms) → Run.Tolerant (arms.render scope file n)
  | .close => by
    rw [Arms.render]
    exact (tolerant_emit _).bind fun _ => tolerant_pure _
  | .arm marker guard? body next => by
    rw [Arms.render]
    refine (tolerant_guardHolds scope file guard?).bind fun holds => ?_
    split
    · exact (tolerant_emit _).bind fun _ => body.tolerant_render scope file
    · exact next.tolerant_render scope file (n + 1)

end

theorem tolerant_substituteToken (scope : Scope) (file : Text) (token : Token) :
    Run.Tolerant (substituteToken scope file token) := by
  unfold substituteToken
  dsimp only
  split
  · split
    · nofun
    · split <;> nofun
  · nofun

theorem Image.tolerant_embedAll (tree : Tree) (base : Path) (s : Text) :
    Run.Tolerant (embedAll tree base s) := by
  have hreplace (i : Image) : Run.Tolerant (replace tree base i) := by
    unfold replace
    dsimp only
    split
    · nofun
    · split <;> nofun
  unfold embedAll
  induction pattern.scan s with
  | nil => exact tolerant_pure _
  | cons chunk rest ih =>
    cases chunk with
    | plain t => exact ih.bind fun others => tolerant_pure _
    | found i => exact (hreplace i).bind fun t => ih.bind fun others => tolerant_pure _

namespace Workspace

variable {w : Workspace}

theorem tolerant_read (p : Path) (entry : Entry) : Run.Tolerant (w.read p entry) := by
  unfold read
  split <;> nofun

theorem tolerant_absentFile (file : Path) :
    Run.Tolerant (.stop (w.absentFile file) : Run α) := by
  unfold absentFile
  split <;> rintro _ ⟨⟩

variable (hw : w.settings.strictMode = false)
include hw

theorem reportMissing_eq (target : Path) (source? : Option Path) (placeholders : List Text) :
    w.reportMissing target source? placeholders =
      ⟨[.missing ⟨w.display target, source?.map w.display, placeholders⟩],
        .ok (MissingInclude.marker ⟨w.display target, source?.map w.display, placeholders⟩)⟩ := by
  unfold reportMissing
  rw [hw]
  rfl

theorem tolerant_reportMissing (target : Path) (source? : Option Path)
    (placeholders : List Text) : Run.Tolerant (w.reportMissing target source? placeholders) := by
  rw [reportMissing_eq hw]
  nofun

theorem tolerant_collectInclude {visit : Path → Scope → Run Scope}
    (h : ∀ target scope, Run.Tolerant (visit target scope)) (file : Path) (scope : Scope)
    (argument : Text) : Run.Tolerant (collectInclude w visit file scope argument) := by
  unfold collectInclude
  refine (tolerant_ofExcept (Include.tolerant_read argument)).bind fun i => ?_
  refine (tolerant_ofExcept (tolerant_fillTemplate _ _ _)).bind fun filled => ?_
  obtain ⟨path, placeholders⟩ := filled
  dsimp only
  split
  · exact tolerant_pure _
  split
  · nofun
  · exact (tolerant_reportMissing hw _ _ _).bind fun _ => tolerant_pure _
  · exact (h _ scope).bind fun child => tolerant_pure _

theorem tolerant_collect (chain : List Path) (file : Path) (inherited : Scope) :
    Run.Tolerant (collect w chain file inherited) := by
  fun_induction collect w chain file inherited with
  | case1 chain file inherited hc => nofun
  | case2 chain file inherited hc he => exact tolerant_absentFile file
  | case3 chain file inherited hc entry he ih =>
    refine (tolerant_emit _).bind fun _ => (tolerant_read file entry).bind fun source => ?_
    exact tolerant_foldlM (tolerant_collectInclude hw ih file) _ _

end Workspace

namespace Expander

variable {x : Expander}

theorem tolerant_expandBody {expand : Include → Run Text} (h : ∀ i, Run.Tolerant (expand i))
    (base : Path) (chain : List Path) (body : Text) :
    Run.Tolerant (x.expandBody expand base chain body) := by
  have hreplaced (d : Directive) : Run.Tolerant (includeReplaced expand d) := by
    cases d with
    | includeFile argument =>
      exact (tolerant_ofExcept (Include.tolerant_read argument)).bind h
    | _ => exact tolerant_pure _
  unfold expandBody
  refine Run.Tolerant.bind ?_ fun resolved => Run.Tolerant.bind ?_ fun joined =>
    Run.Tolerant.bind ?_ fun replaced => ?_
  · exact (tolerant_ofExcept (Block.tolerant_parseAll _ _)).bind fun block =>
      block.tolerant_render _ _
  · rw [expandTokens_eq_pass]
    exact Token.tolerant_pass hreplaced _
  · rw [substitute, substituteTokens_eq_pass]
    exact Token.tolerant_pass (fun d => tolerant_substituteToken _ _ _) _
  · split
    · exact Image.tolerant_embedAll _ _ _
    · exact tolerant_pure _

variable (hw : x.workspace.settings.strictMode = false)
include hw

theorem tolerant_expandTarget {chain : List Path} {scope : Scope} {offset : Int} {i : Include}
    {target : Path}
    (h : ∀ entry, x.workspace.tree.entryAt? target.names = some entry → target ∉ chain →
      ∀ base scope offset body,
        Run.Tolerant (x.expandContent (chain ++ [target]) base scope offset body))
    (placeholders : List Text) :
    Run.Tolerant (x.expandTarget chain scope offset i placeholders target) := by
  unfold expandTarget
  split
  · rintro _ ⟨⟩
  rename_i hc
  split
  · split
    · rintro _ ⟨⟩
    · exact (tolerant_emit _).bind fun _ => Workspace.tolerant_reportMissing hw _ _ _
  · rename_i entry he
    refine (tolerant_emit _).bind fun _ => (Workspace.tolerant_read _ _).bind fun source => ?_
    have hsiteIn := tolerant_siteIn i offset target (FrontMatter.split source)
    cases hsite : i.siteIn offset target (FrontMatter.split source) with
    | error p =>
      change Run.Tolerant (Run.ofExcept (.error p))
      exact tolerant_ofExcept (hsiteIn.error hsite)
    | ok t =>
      have hcontent := h entry he hc t.target.parent (t.front.scope.inherit scope)
        (offset + t.shift) t.body
      rw [← Include.target_of_siteIn hsite] at hcontent
      exact hcontent.map _

theorem tolerant_expandContent (chain : List Path) (base : Path) (scope : Scope) (offset : Int)
    (body : Text) : Run.Tolerant (x.expandContent chain base scope offset body) := by
  -- By the files that are not on the chain yet, of which each file below has one fewer.
  induction hn : x.workspace.tree.unvisited chain using Nat.strongRecOn
    generalizing chain base scope offset body with
  | ind n ih =>
    refine tolerant_expandBody (fun i => ?_) base chain body
    rw [expandInclude_eq]
    refine (tolerant_ofExcept (tolerant_fillTemplate _ _ _)).bind fun filled => ?_
    obtain ⟨path, placeholders⟩ := filled
    dsimp only
    split
    · exact tolerant_pure _
    · refine tolerant_expandTarget hw (fun entry he hc base scope offset body => ?_) placeholders
      exact ih _ (hn ▸ Tree.unvisited_lt he hc) _ base scope offset body rfl

theorem tolerant_expandFile (chain : List Path) (file : Path) (inherited : Scope) :
    Run.Tolerant (x.expandFile chain file inherited) := by
  unfold expandFile
  split
  · exact Workspace.tolerant_absentFile file
  · refine (tolerant_emit _).bind fun _ => (Workspace.tolerant_read _ _).bind fun source => ?_
    exact (tolerant_expandContent hw _ _ _ _ _).bind fun body => tolerant_pure _

end Expander

theorem tolerant_build {w : Workspace} (hw : w.settings.strictMode = false) (options : Options)
    (entry : Path) : Run.Tolerant (build w options entry) := by
  have harrange (s : Text) :
      Run.Tolerant (arrangeLists entry.toText w.settings.defaultListName s) := by
    have hharvest : Run.Tolerant (Harvest.ofText entry.toText w.settings.defaultListName s).run := by
      intro m
      unfold Harvest.run
      split
      · rename_i problem h
        intro hm
        rw [Fault.problem.inj (Except.error.inj hm)] at h
        exact Harvest.tolerant_readFrom m h
      · nofun
    exact hharvest.bind fun kept =>
      (tolerant_ofExcept (Table.tolerant_renderAll _ _ _ _)).bind fun body => tolerant_pure _
  refine (tolerant_emit _).bind fun _ => ?_
  refine (Workspace.tolerant_collect hw [] entry .empty).bind fun scope => ?_
  refine (tolerant_emit _).bind fun _ => ?_
  refine (Expander.tolerant_expandFile (x := ⟨w, scope, _⟩) hw [] entry .empty).bind
    fun expanded => ?_
  exact (harrange expanded.body).bind fun arranged => (tolerant_emit _).bind fun _ =>
    tolerant_pure _

end Transclude
