import Transclude.Proofs.HeaderRows
import Transclude.Proofs.ListBlocks

/-! What the collection of records makes of a document: its lines without the blocks, and one record
for each block. The lines that are left keep their classes, so nothing is collected from them again. -/

namespace Transclude

namespace Lists

theorem size_set (name : Text) (item : Item) (lists : Lists) :
    size (Fields.set name (items lists name ++ [item]) lists) = size lists + 1 := by
  induction lists with
  | nil => rfl
  | cons entry lists ih =>
    obtain ⟨other, held⟩ := entry
    rw [Fields.set]
    split_ifs with hname
    · subst hname
      simp [size, items, Nat.add_comm, Nat.add_left_comm]
    · have hitems : items ((other, held) :: lists) name = items lists name := by
        have hbeq : (name == other) = false := beq_false_of_ne fun h => hname h.symm
        simp [items, List.lookup_cons, hbeq]
      rw [hitems]
      simp only [size, List.flatMap_cons, List.length_append] at ih ⊢
      rw [ih, Nat.add_assoc]

theorem size_addAll (lists : Lists) (added : List (Text × Item)) :
    (addAll lists added).size = lists.size + added.length := by
  induction added generalizing lists with
  | nil => rfl
  | cons entry added ih =>
    obtain ⟨name, item⟩ := entry
    show (addAll (add lists name item) added).size = _
    rw [ih, add, size_set, List.length_cons, Nat.add_assoc, Nat.add_comm 1]

theorem items_addAll (lists : Lists) (added : List (Text × Item)) (name : Text) :
    (addAll lists added).items name =
      lists.items name ++ (added.filter (·.1 = name)).map (·.2) := by
  induction added generalizing lists with
  | nil => simp [addAll]
  | cons entry added ih =>
    obtain ⟨other, item⟩ := entry
    show (addAll (add lists other item) added).items name = _
    rw [ih, items_add]
    by_cases hname : name = other
    · subst hname
      simp
    · have hother : ¬ other = name := fun h => hname h.symm
      simp [hname, hother]

end Lists

namespace Harvest

variable {file standard s out : Text} {parts : List Part}

theorem map_yielded (standard : Text) (p : Position) (parts : List Part) :
    (yielded standard p parts).map (fun entry => (entry.1, entry.2.attributes)) =
      (blocks parts).map fun b => (b.list standard, b.attributes) := by
  induction parts generalizing p with
  | nil => rfl
  | cons part parts ih =>
    cases part with
    | kept line kind => exact ih _
    | block b => exact congrArg _ (ih _)

theorem length_yielded (standard : Text) (p : Position) (parts : List Part) :
    (yielded standard p parts).length = (blocks parts).length := by
  have hmap := congrArg List.length (map_yielded standard p parts)
  rwa [List.length_map, List.length_map] at hmap

theorem outcome_run_of_none {h : Harvest} (hnone : h.problem? = none) :
    h.run.outcome = .ok (Text.unlines h.kept) := by
  rw [run, hnone]

theorem outcome_run_of_some {h : Harvest} {problem : Problem} (hsome : h.problem? = some problem) :
    h.run.outcome = .error (.problem problem) := by
  rw [run, hsome]

theorem Divides.lines_unlines (h : Divides none s.lines parts) (hr : '\r' ∉ s)
    (hne : classed parts ≠ []) : (Text.unlines (keptLines parts)).lines = keptLines parts := by
  rw [Text.lines_eq_rows hr] at h
  have hreturn : '\r' ∉ Text.unlines (keptLines parts) := by
    apply Text.not_mem_unlines (by decide)
    intro l hl
    exact Text.not_mem_of_rows hr (h.mem_of_mem_keptLines hl)
  rw [Text.lines_eq_rows hreturn]
  apply Text.rows_unlines
  · exact fun hmap => hne (List.map_eq_nil_iff.1 hmap)
  · intro l hl
    exact Text.not_mem_of_mem_rows (h.mem_of_mem_keptLines hl)

theorem Divides.classify_unlines (h : Divides none s.lines parts) (hr : '\r' ∉ s)
    (hne : classed parts ≠ []) :
    Fence.classify (Text.unlines (keptLines parts)) = classed parts := by
  rw [Fence.classify, h.lines_unlines hr hne, h.classesFrom_keptLines]
  exact (List.zip_of_prod rfl rfl).symm

theorem blocks_of_kept (kept : List (Text × LineClass)) :
    blocks (kept.map fun line => .kept line.1 line.2) = [] := by
  induction kept with
  | nil => rfl
  | cons line kept ih => exact ih

theorem keptLines_of_kept (kept : List (Text × LineClass)) :
    keptLines (kept.map fun line => .kept line.1 line.2) = kept.map (·.1) := by
  induction kept with
  | nil => rfl
  | cons line kept ih => exact congrArg _ ih

theorem readFrom_of_kept {kept : List (Text × LineClass)} {lines : List Text} {p : Position}
    (h : Divides p.fence? lines (kept.map fun line => .kept line.1 line.2)) :
    readFrom file standard p none lines = ⟨kept.map (·.1), [], none⟩ := by
  have hsound : ∀ b ∈ blocks (kept.map fun line => Part.kept line.1 line.2), b.Sound := by
    rw [blocks_of_kept]
    nofun
  have hnone := length_yielded standard p (kept.map fun line => .kept line.1 line.2)
  rw [blocks_of_kept, List.length_nil, List.length_eq_zero_iff] at hnone
  rw [readFrom_of_sound _ _ h hsound, keptLines_of_kept, hnone]

theorem Divides.ofText_unlines (h : Divides none s.lines parts) (hr : '\r' ∉ s)
    (file standard : Text) :
    let out := Text.unlines (keptLines parts)
    (ofText file standard out).items = [] ∧ (ofText file standard out).run.outcome = .ok out := by
  intro out
  by_cases hne : classed parts = []
  · have hout : out = [] := by
      show Text.unlines ((classed parts).map _) = []
      rw [hne]
      rfl
    rw [hout]
    exact ⟨rfl, rfl⟩
  · have hread : ofText file standard out = ⟨keptLines parts, [], none⟩ := by
      rw [ofText, h.lines_unlines hr hne]
      exact readFrom_of_kept (p := .start) h.without_blocks
    rw [hread]
    exact ⟨rfl, rfl⟩

/-- What the harvest of a document that consists of `parts` comes to if it ends well with `out`. -/
structure Accounts (standard : Text) (parts : List Part) (out : Text) (h : Harvest) : Prop where
  output : out = Text.unlines (keptLines parts)
  classes : classed parts ≠ [] → Fence.classify out = classed parts
  records : h.items.map (fun entry => (entry.1, entry.2.attributes)) =
    (blocks parts).map fun b => (b.list standard, b.attributes)
  lists : ∀ name, (Lists.addAll [] h.items).items name =
    (h.items.filter (·.1 = name)).map (·.2)
  size : (Lists.addAll [] h.items).size = (blocks parts).length
  again : ∀ file standard, (ofText file standard out).items = [] ∧
    (ofText file standard out).run.outcome = .ok out

theorem accounts_of_sound (h : Divides none s.lines parts) (hr : '\r' ∉ s)
    (hs : ∀ b ∈ blocks parts, b.Sound) :
    Accounts standard parts (Text.unlines (keptLines parts)) (ofText file standard s) := by
  have hitems : (ofText file standard s).items = yielded standard .start parts :=
    congrArg items (readFrom_of_sound (p := .start) _ _ h hs)
  refine ⟨rfl, h.classify_unlines hr, ?_, fun name => ?_, ?_, h.ofText_unlines hr⟩
  · rw [hitems, map_yielded]
  · exact Lists.items_addAll [] _ name
  · rw [Lists.size_addAll, hitems, length_yielded]
    exact Nat.zero_add _

/-- A document without carriage returns consists of lines that stay and of blocks, in one way only.
The collection fails exactly if it reaches a block that nothing closes or with a faulty line in its
body. Otherwise it leaves the lines that stay, classed as they were, and for each block there is one
record, in the list that the block names; nothing is collected from what is left. -/
theorem ofText_takes_blocks_out (hr : '\r' ∉ s) (file standard : Text) :
    ∃ parts, (∀ others, Divides none s.lines others ↔ others = parts) ∧
      parts.flatMap Part.lines = s.lines ∧
      ((∃ fault, (ofText file standard s).run.outcome = .error fault) ↔
        ∃ front b back, parts = front ++ .block b :: back ∧ (∀ c ∈ blocks front, c.Sound) ∧
          (b.closer? = none ∨ ∃ line ∈ b.body, FaultyEntry line)) ∧
      ∀ out, (ofText file standard s).run.outcome = .ok out →
        Accounts standard parts out (ofText file standard s) := by
  obtain ⟨parts, honly⟩ := exists_only_division none s.lines
  have hparts := (honly parts).2 rfl
  refine ⟨parts, honly, hparts.flatMap_lines, ?_⟩
  rcases readFrom_of_divides (p := .start) file standard hparts with
    ⟨hsound, hread⟩ | ⟨front, b, back, problem, hfirst, hfront, hb, hread⟩
  · have hend : (ofText file standard s).run.outcome = .ok (Text.unlines (keptLines parts)) := by
      rw [ofText, outcome_run_of_none (congrArg problem? hread), hread]
    refine ⟨⟨?_, ?_⟩, ?_⟩
    · rintro ⟨fault, hfault⟩
      cases hend.symm.trans hfault
    · rintro ⟨front, b, back, rfl, -, hb⟩
      exact absurd (hsound b (by simp [blocks, Part.block?])) (ItemBlock.not_sound_iff.2 hb)
    · intro out hout
      obtain rfl := Except.ok.inj (hend.symm.trans hout)
      exact accounts_of_sound hparts hr hsound
  · have hend : (ofText file standard s).run.outcome = .error (.problem problem) :=
      outcome_run_of_some (congrArg problem? hread)
    refine ⟨⟨fun _ => ⟨front, b, back, hfirst, hfront, ItemBlock.not_sound_iff.1 hb⟩,
      fun _ => ⟨_, hend⟩⟩, ?_⟩
    intro out hout
    cases hend.symm.trans hout

def ledger : Text := (
  "# Work\n\x7b!list-add todo\n~~~: a\n# B: c\n !\x7d\n```\n\x7b!list-add!\x7d\n!\x7d\n```\n" ++
    "\x7b!list-add!\x7d\nname: x: y\n\n!\x7d\ntext").text

theorem ofText_takes_blocks_out_of_ledger :
    '\r' ∉ ledger ∧ ∃ parts, Divides none ledger.lines parts ∧ (blocks parts).length = 2 ∧
      Accounts "items".text parts
        "# Work\n```\n\x7b!list-add!\x7d\n!\x7d\n```\ntext".text (ofText [] "items".text ledger) := by
  have hr : '\r' ∉ ledger := by decide +kernel
  have hend : (ofText [] "items".text ledger).run.outcome =
      .ok "# Work\n```\n\x7b!list-add!\x7d\n!\x7d\n```\ntext".text :=
    Except.ok_of_toOption (by decide +kernel)
  obtain ⟨parts, hparts, -, -, haccounts⟩ := ofText_takes_blocks_out hr [] "items".text
  have hall := haccounts _ hend
  have hsize : (Lists.addAll [] (ofText [] "items".text ledger).items).size = 2 := by decide +kernel
  exact ⟨hr, parts, (hparts parts).2 rfl, hall.size.symm.trans hsize, hall⟩

end Harvest
end Transclude
