import Mathlib.Data.List.Chain
import Transclude.Proofs.Revisions
import Transclude.Proofs.WalkDepth

/-! Cycles among files whose includes can all be followed. A collection fails exactly if its entry
leads into one, and the chain that it reports goes once around it. -/

namespace Transclude

open Relation (ReflTransGen TransGen)

/-- A walk that comes back to one of its nodes is a way into a cycle. -/
theorem exists_repeat_iff {α : Type} {r : α → α → Prop} {a : α} :
    (∃ front last, (front ++ [last]).head? = some a ∧ (front ++ [last]).IsChain r ∧ last ∈ front) ↔
      ∃ v, ReflTransGen r a v ∧ TransGen r v v := by
  have hwalk {b v : α} (h : ReflTransGen r b v) :
      ∃ front, (front ++ [v]).head? = some b ∧ (front ++ [v]).IsChain r := by
    obtain ⟨l, hl, hlast⟩ := List.exists_isChain_cons_of_relationReflTransGen h
    have hsplit : (b :: l).dropLast ++ [v] = b :: l := by
      rw [← hlast]
      exact List.dropLast_append_getLast _
    exact ⟨(b :: l).dropLast, by rw [hsplit]; rfl, by rwa [hsplit]⟩
  have hgen {b v : α} {front : List α} (hhead : (front ++ [v]).head? = some b)
      (h : (front ++ [v]).IsChain r) : ReflTransGen r b v := by
    cases front with
    | nil =>
      obtain rfl := Option.some.inj hhead
      exact .refl
    | cons c front =>
      obtain rfl := Option.some.inj hhead
      exact List.relationReflTransGen_of_exists_isChain_cons (front ++ [v]) h (by simp)
  constructor
  · -- Cut where its last entry stood first, the walk is a way there and a way round.
    rintro ⟨front, last, hhead, hchain, hmem⟩
    obtain ⟨before, behind, rfl⟩ := List.append_of_mem hmem
    rw [List.append_assoc, List.cons_append] at hhead hchain
    obtain ⟨hfirst, hround⟩ := List.isChain_split.1 hchain
    have hhead' : (before ++ [last]).head? = some a := by
      cases before with
      | nil => exact hhead
      | cons c before => exact hhead
    refine ⟨last, hgen hhead' hfirst, ?_⟩
    cases behind with
    | nil => exact .single (List.isChain_cons_cons.1 hround).1
    | cons c behind =>
      obtain ⟨hstep, hrest⟩ := List.isChain_cons_cons.1 hround
      have hback : ((c :: behind) ++ [last]).IsChain r := hrest
      exact .head' hstep (hgen rfl hback)
  · rintro ⟨v, hto, hround⟩
    obtain ⟨u, hstep, hback⟩ := TransGen.head'_iff.1 hround
    obtain ⟨f, hf, hfchain⟩ := hwalk hto
    obtain ⟨g, hg, hgchain⟩ := hwalk hback
    -- The way there ends in `v`, and so does the way round, behind the step it starts with.
    refine ⟨f ++ [v] ++ g, v, ?_, ?_, by simp⟩
    · rw [List.append_assoc, List.head?_append, hf]
      rfl
    · rw [List.append_assoc]
      refine List.isChain_append.2 ⟨hfchain, hgchain, fun x hx y hy => ?_⟩
      rw [List.getLast?_concat] at hx
      obtain rfl := Option.some.inj hx
      obtain rfl := Option.some.inj (hg.symm.trans hy)
      exact hstep

theorem Run.exists_of_foldlM_error {α β : Type} {f : β → α → Run β} {l : List α} {b : β}
    {fault : Fault} (h : (l.foldlM f b).outcome = .error fault) :
    ∃ c, ∃ a ∈ l, (f c a).outcome = .error fault := by
  induction l generalizing b with
  | nil => cases h
  | cons a l ih =>
    rw [List.foldlM_cons, outcome_bind] at h
    cases ha : (f b a).outcome with
    | error e =>
      rw [ha] at h
      exact ⟨b, a, List.mem_cons_self, ha.trans h⟩
    | ok c =>
      rw [ha] at h
      obtain ⟨d, e, he, herror⟩ := ih h
      exact ⟨d, e, List.mem_cons_of_mem a he, herror⟩

def Placeholder.isAbsent (path : Text) : Bool :=
  (pattern.scan path).all fun chunk => chunk.item?.isNone

theorem fillTemplate_of_absent {path : Text} (h : Placeholder.isAbsent path) (scopes : List Scope)
    (file : Text) : fillTemplate scopes file path = .ok (path, []) := by
  have hfill (chunks : List (Chunk Placeholder)) (h : chunks.all fun chunk => chunk.item?.isNone) :
      Placeholder.fill scopes file chunks = .ok (Chunk.sources Placeholder.source chunks, []) := by
    induction chunks with
    | nil => rfl
    | cons chunk rest ih =>
      obtain ⟨hchunk, hrest⟩ := List.forall_mem_cons.1 (List.all_eq_true.1 h)
      cases chunk with
      | found p => cases hchunk
      | plain s =>
        rw [Placeholder.fill, ih (List.all_eq_true.2 hrest)]
        rfl
  have hsources : Chunk.sources Placeholder.source (Placeholder.pattern.scan path) = path :=
    Placeholder.pattern.sources_scan path
  rw [fillTemplate, hfill _ h, hsources]

namespace Workspace

def leadsTo (w : Workspace) (file : Path) : List Path :=
  match w.front? file with
  | none => []
  | some front =>
    (includePaths (includeArguments (Token.tokenize front.body))).map (w.target file.parent)

def Leads (w : Workspace) (file target : Path) : Prop := target ∈ w.leadsTo file

/-- Whether a file can be read and each of its include directives names a path as it stands. -/
def isPlain (w : Workspace) (file : Path) : Bool :=
  match w.front? file with
  | none => false
  | some front => (includeArguments (Token.tokenize front.body)).all fun argument =>
    match Include.parse? argument with
    | none => false
    | some i => Placeholder.isAbsent i.path

variable {w : Workspace}

theorem exists_of_isPlain {file : Path} (h : w.isPlain file) :
    ∃ front, w.front? file = some front ∧
      ∀ argument ∈ includeArguments (Token.tokenize front.body), ∃ i,
        Include.parse? argument = some i ∧ Placeholder.isAbsent i.path ∧
        w.Leads file (w.target file.parent i.path) := by
  unfold isPlain at h
  cases hfront : w.front? file with
  | none =>
    rw [hfront] at h
    cases h
  | some front =>
    rw [hfront] at h
    refine ⟨front, rfl, fun argument hargument => ?_⟩
    have hplain := List.all_eq_true.1 h argument hargument
    cases hparse : Include.parse? argument with
    | none =>
      rw [hparse] at hplain
      cases hplain
    | some i =>
      rw [hparse] at hplain
      refine ⟨i, rfl, hplain, ?_⟩
      rw [Leads, leadsTo, hfront]
      refine List.mem_map_of_mem (List.mem_filterMap.2 ⟨argument, hargument, ?_⟩)
      rw [hparse]
      rfl

theorem lookup_of_isPlain {file : Path} (h : w.isPlain file) :
    ∃ entry, w.tree.entryAt? file.names = some entry ∧ w.tree.lookup file = .found entry := by
  obtain ⟨front, hfront, -⟩ := exists_of_isPlain h
  obtain ⟨entry, s, hentry, -, -⟩ := front?_eq_some_iff.1 hfront
  exact ⟨entry, hentry, by rw [Tree.lookup, hentry]⟩

theorem path_ne_nil {argument : Text} {i : Include} (h : Include.parse? argument = some i) :
    i.path ≠ [] := by
  unfold Include.parse? at h
  dsimp only at h
  split at h
  · cases h
  · rename_i hne
    obtain rfl := Option.some.inj h
    exact hne

theorem collectInclude_of_isPlain {visit : Path → Scope → Run Scope} {file : Path} {scope : Scope}
    {argument : Text} {i : Include} (hparse : Include.parse? argument = some i)
    (habsent : Placeholder.isAbsent i.path) (hplain : w.isPlain (w.target file.parent i.path)) :
    collectInclude w visit file scope argument =
      visit (w.target file.parent i.path) scope >>= fun child => pure (scope.absorb child) := by
  obtain ⟨entry, -, hlookup⟩ := lookup_of_isPlain hplain
  have hread : Include.read argument = .ok i := by rw [Include.read, hparse]
  rw [collectInclude, hread]
  change (pure i >>= _) = _
  rw [pure_bind, fillTemplate_of_absent habsent]
  change (pure (i.path, []) >>= _) = _
  rw [pure_bind]
  dsimp only
  rw [if_neg (path_ne_nil hparse), hlookup]

/-- Whether every file that one leads to can be read and followed further. -/
def LeadsPlainly (w : Workspace) (file : Path) : Prop :=
  ∀ target, ReflTransGen w.Leads file target → w.isPlain target

theorem LeadsPlainly.next {file target : Path} (h : w.LeadsPlainly file) (hstep : w.Leads file target) :
    w.LeadsPlainly target := fun other hother => h other (.head hstep hother)

theorem exists_repeat_of_error {chain : List Path} {file : Path} (hplain : w.LeadsPlainly file)
    {inherited : Scope} {fault : Fault}
    (h : (collect w chain file inherited).outcome = .error fault) :
    ∃ front last, fault = .problem (.circularInclude (chain ++ (front ++ [last]))) ∧
      (front ++ [last]).head? = some file ∧ (front ++ [last]).IsChain w.Leads ∧
      last ∈ chain ++ front := by
  -- By the files that are not on the chain yet, of which each visit below has one fewer.
  induction hn : w.tree.unvisited chain using Nat.strongRecOn
    generalizing chain file inherited with
  | ind n ih =>
    by_cases hc : file ∈ chain
    · rw [collect, dif_pos hc] at h
      obtain rfl := Except.error.inj h
      exact ⟨[], file, rfl, rfl, .singleton file, by simpa using hc⟩
    · obtain ⟨front, hfront, harguments⟩ := exists_of_isPlain (hplain file .refl)
      rw [outcome_collect hc hfront] at h
      obtain ⟨scope, argument, hargument, herror⟩ := Run.exists_of_foldlM_error h
      obtain ⟨i, hparse, habsent, hleads⟩ := harguments argument hargument
      have hbelow := hplain.next hleads
      rw [collectInclude_of_isPlain hparse habsent (hbelow _ .refl), Run.outcome_bind] at herror
      have hchild : (collect w (chain ++ [file]) (w.target file.parent i.path) scope).outcome =
          .error fault := by
        cases hchild : (collect w (chain ++ [file]) (w.target file.parent i.path) scope).outcome with
        | ok child =>
          rw [hchild] at herror
          cases herror
        | error e =>
          rw [hchild] at herror
          exact herror
      obtain ⟨entry, hentry, -⟩ := lookup_of_isPlain (hplain file .refl)
      obtain ⟨walk, last, rfl, hhead, hchain, hmem⟩ :=
        ih _ (hn ▸ Tree.unvisited_lt hentry hc) hbelow hchild rfl
      refine ⟨file :: walk, last, ?_, rfl, ?_, ?_⟩
      · rw [List.append_assoc, List.singleton_append, List.cons_append]
      · rw [List.cons_append]
        refine hchain.cons fun target htarget => ?_
        obtain rfl := Option.some.inj (hhead.symm.trans htarget)
        exact hleads
      · rwa [List.append_assoc, List.singleton_append] at hmem

theorem exists_collect_of_leads {chain : List Path} {file target : Path} (hplain : w.isPlain file)
    (htarget : w.isPlain target) (hleads : w.Leads file target) {inherited out : Scope}
    {events : List Event} (h : collect w chain file inherited = ⟨events, .ok out⟩) :
    ∃ own child scope, collect w (chain ++ [file]) target scope = ⟨own, .ok child⟩ := by
  obtain ⟨front, hfront, harguments⟩ := exists_of_isPlain hplain
  rw [Leads, leadsTo, hfront] at hleads
  obtain ⟨path, hpath, rfl⟩ := List.mem_map.1 hleads
  obtain ⟨scope, i, hmeets, rfl⟩ := exists_meets h hfront hpath
  obtain ⟨argument, own, next, hparse, hone, -, -⟩ := hmeets.followed h
  obtain ⟨argument', hargument', hread⟩ := List.mem_filterMap.1 hpath
  obtain ⟨j, hj, habsent, -⟩ := harguments argument' hargument'
  have habsent : Placeholder.isAbsent i.path := by
    rw [hj] at hread
    rwa [← Option.some.inj hread]
  rw [collectInclude_of_isPlain hparse habsent htarget] at hone
  obtain ⟨below, child, _, hchild, -, -⟩ := Run.bind_eq_ok_iff.1 hone
  exact ⟨below, child, scope, hchild⟩

theorem not_mem_of_ok {chain : List Path} {file : Path} (hplain : w.LeadsPlainly file)
    {inherited out : Scope} {events : List Event}
    (h : collect w chain file inherited = ⟨events, .ok out⟩) {front : List Path} {last : Path}
    (hhead : (front ++ [last]).head? = some file) (hwalk : (front ++ [last]).IsChain w.Leads) :
    last ∉ chain ++ front := by
  induction front generalizing chain file inherited out events with
  | nil =>
    obtain rfl := Option.some.inj hhead
    rw [List.append_nil]
    exact (collect_eq_ok h).1
  | cons first front ih =>
    obtain rfl := Option.some.inj hhead
    obtain ⟨target, htarget⟩ : ∃ target, (front ++ [last]).head? = some target := by
      cases front with
      | nil => exact ⟨last, rfl⟩
      | cons target front => exact ⟨target, rfl⟩
    have hstep : w.Leads first target := (List.isChain_cons.1 hwalk).1 target htarget
    have hbelow := hplain.next hstep
    obtain ⟨own, child, scope, hchild⟩ :=
      exists_collect_of_leads (hplain first .refl) (hbelow target .refl) hstep h
    have hlater := ih hbelow hchild htarget (List.isChain_cons.1 hwalk).2
    rwa [List.append_assoc, List.singleton_append] at hlater

/-- Collecting and expanding both end, as neither asks for more steps along a chain of includes than
there are paths in the tree. Where every file that the entry leads to can be read and names files as
they stand, a collection fails exactly if the entry leads into a cycle; it then reports a walk from
the entry whose last file has occurred on it before. -/
theorem includes_end_and_cycles_are_found (w : Workspace) (entry : Path) :
    (∀ n, w.tree.paths.length < n → ∀ limit chain file inherited,
      w.collectStep^[n] limit chain file inherited = collect w chain file inherited) ∧
    (∀ x : Expander, ∀ n, x.workspace.tree.paths.length < n → ∀ limit chain file inherited,
      x.expandFileWith (x.includeStep^[n] limit) chain file inherited =
        x.expandFile chain file inherited) ∧
    (w.LeadsPlainly entry →
      ((∃ chain, (collect w [] entry .empty).outcome = .error (.problem (.circularInclude chain))) ↔
        ∃ v, ReflTransGen w.Leads entry v ∧ TransGen w.Leads v v) ∧
      ((∃ root, (collect w [] entry .empty).outcome = .ok root) ↔
        ¬∃ v, ReflTransGen w.Leads entry v ∧ TransGen w.Leads v v) ∧
      ∀ fault, (collect w [] entry .empty).outcome = .error fault → ∃ front last,
        fault = .problem (.circularInclude (front ++ [last])) ∧
        (front ++ [last]).head? = some entry ∧ (front ++ [last]).IsChain w.Leads ∧ last ∈ front) := by
  refine ⟨fun n hn limit chain file inherited => ?_, fun x n hn limit => ?_, fun hplain => ?_⟩
  · exact iterate_collectStep (Nat.lt_of_le_of_lt (Tree.unvisited_le _ _) hn) limit file inherited
  · exact Expander.expandFileWith_iterate hn limit
  · have herror (fault : Fault) (h : (collect w [] entry .empty).outcome = .error fault) :
        ∃ front last, fault = .problem (.circularInclude (front ++ [last])) ∧
          (front ++ [last]).head? = some entry ∧ (front ++ [last]).IsChain w.Leads ∧
          last ∈ front := exists_repeat_of_error hplain h
    have hok (root : Scope) (h : (collect w [] entry .empty).outcome = .ok root) :
        ¬∃ v, ReflTransGen w.Leads entry v ∧ TransGen w.Leads v v := by
      rw [← exists_repeat_iff]
      rintro ⟨front, last, hhead, hwalk, hmem⟩
      exact not_mem_of_ok hplain (Run.ext rfl h) hhead hwalk hmem
    have hcycle {fault : Fault} (h : (collect w [] entry .empty).outcome = .error fault) :
        ∃ v, ReflTransGen w.Leads entry v ∧ TransGen w.Leads v v := by
      obtain ⟨front, last, -, hhead, hwalk, hmem⟩ := herror fault h
      exact exists_repeat_iff.1 ⟨front, last, hhead, hwalk, hmem⟩
    -- The collection ends either way, so what one outcome implies excludes the other.
    refine ⟨⟨fun ⟨_, h⟩ => hcycle h, fun hround => ?_⟩, ⟨fun ⟨root, h⟩ => hok root h, fun hnone => ?_⟩,
      herror⟩
    · cases h : (collect w [] entry .empty).outcome with
      | ok root => exact absurd hround (hok root h)
      | error fault =>
        obtain ⟨front, last, rfl, -⟩ := herror fault h
        exact ⟨_, rfl⟩
    · cases h : (collect w [] entry .empty).outcome with
      | ok root => exact ⟨root, rfl⟩
      | error fault => exact absurd (hcycle h) hnone

theorem leadsPlainly_of_closed (files : List Path) (hplain : ∀ file ∈ files, w.isPlain file)
    (hclosed : ∀ file ∈ files, ∀ target ∈ w.leadsTo file, target ∈ files) {entry : Path}
    (h : entry ∈ files) : w.LeadsPlainly entry := by
  intro target hreaches
  suffices hmem : target ∈ files from hplain target hmem
  induction hreaches with
  | refl => exact h
  | tail _ hstep ih => exact hclosed _ ih _ hstep

def roundabout : Workspace :=
  .holding [("main", "\x7b!include(c)!\x7d \x7b!include(a)!\x7d"),
    ("a", "\x7b!include(c)!\x7d \x7b!include(b)!\x7d"),
    ("b", "\x7b!include(c)!\x7d \x7b!include(a)!\x7d"), ("c", "text")]

theorem cycle_of_roundabout_is_found :
    roundabout.LeadsPlainly (.named "main") ∧
      (∃ v, ReflTransGen roundabout.Leads (.named "main") v ∧ TransGen roundabout.Leads v v) ∧
      ∃ front last, (collect roundabout [] (.named "main") .empty).outcome =
          .error (.problem (.circularInclude (front ++ [last]))) ∧
        (front ++ [last]).IsChain roundabout.Leads ∧ last ∈ front := by
  have hplain : roundabout.LeadsPlainly (.named "main") :=
    leadsPlainly_of_closed (["main", "a", "b", "c"].map Path.named) (by decide +kernel)
      (by decide +kernel) (by decide +kernel)
  have hround : ∃ v, ReflTransGen roundabout.Leads (.named "main") v ∧
      TransGen roundabout.Leads v v := by
    have hmain : Path.named "a" ∈ roundabout.leadsTo (.named "main") := by decide +kernel
    have ha : Path.named "b" ∈ roundabout.leadsTo (.named "a") := by decide +kernel
    have hb : Path.named "a" ∈ roundabout.leadsTo (.named "b") := by decide +kernel
    exact ⟨.named "a", .single hmain, .head ha (.single hb)⟩
  obtain ⟨-, -, hcollect⟩ := includes_end_and_cycles_are_found roundabout (.named "main")
  obtain ⟨hcycle, -, hwalk⟩ := hcollect hplain
  obtain ⟨chain, hfailed⟩ := hcycle.2 hround
  obtain ⟨front, last, hfault, -, hchain, hmem⟩ := hwalk _ hfailed
  exact ⟨hplain, hround, front, last, hfailed.trans (congrArg Except.error hfault), hchain, hmem⟩

end Workspace
end Transclude
