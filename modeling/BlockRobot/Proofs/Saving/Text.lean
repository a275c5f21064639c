import BlockRobot.Practice
import BlockRobot.Proofs.Compilation.Text
import BlockRobot.Proofs.Maze.Safety

/-!
# Games, levels, and vocabularies read back from their texts

What the page keeps between two visits are states of games, levels and vocabularies, all as texts.
Each is read back as it was: `MazeState.ofText_toText`, `PracticeState.ofText_toText`,
`Vocabulary.ofText_toText`, and, for levels, `Level.ofText_toText`, where the text of a level that
cannot be played is refused for the reason for which the level cannot be played.

The conditions are those of the types that the values are kept in.  Coordinates and sizes have 32
bits, and so has the count of moves.  The walls of a level and the tags of a role are sets, which
are kept in order here, so reading, which brings them in order, finds nothing to do
(`sortCells_eq`, `sortTags_eq`).  Texts are any texts at all.
-/

namespace BlockRobot

/-! ## Sets in order -/

/-- A cell that comes after all others is put at the end. -/
theorem putCell_of_forall_before {c : Cell} {cs : List Cell}
    (h : ∀ d ∈ cs, d.before c = true) : putCell c cs = cs ++ [c] := by
  induction cs with
  | nil => rfl
  | cons d ds ih =>
    have hbefore : d.x < c.x ∨ d.x = c.x ∧ d.y < c.y := by
      simpa [Cell.before] using h d (List.mem_cons_self ..)
    have hnot : ¬c.before d = true := by
      simp only [Cell.before, Bool.or_eq_true, Bool.and_eq_true, decide_eq_true_eq]
      omega
    have hne : c ≠ d := by
      rintro rfl
      omega
    rw [putCell, if_neg hnot, if_neg hne, ih fun e he => h e (List.mem_cons_of_mem _ he),
      List.cons_append]

/-- Cells in order are left as they are. -/
theorem sortCells_eq {cs : List Cell} (h : cs.Pairwise fun a b => a.before b = true) :
    sortCells cs = cs :=
  foldl_put_eq (fun _ _ hlast => putCell_of_forall_before hlast) h

/-- A tag that comes after all others is put at the end. -/
theorem putTag_of_forall_lt {tag : String} {tags : List String} (h : ∀ t ∈ tags, t < tag) :
    putTag tag tags = tags ++ [tag] := by
  induction tags with
  | nil => rfl
  | cons t ts ih =>
    have hlt : t < tag := h t (List.mem_cons_self ..)
    have hnot : ¬tag < t := fun hgt => String.lt_irrefl _ (String.lt_trans hlt hgt)
    have hne : tag ≠ t := by
      rintro rfl
      exact String.lt_irrefl _ hlt
    rw [putTag, if_neg hnot, if_neg hne, ih fun u hu => h u (List.mem_cons_of_mem _ hu),
      List.cons_append]

/-- Tags in order are left as they are. -/
theorem sortTags_eq {tags : List String} (h : tags.Pairwise (· < ·)) : sortTags tags = tags :=
  foldl_put_eq (fun _ _ hlast => putTag_of_forall_lt hlast) h

/-! ## Cells and names -/

section Parts

variable {limit : Nat}

namespace Cell

variable {c : Cell} {cs : List Cell}

theorem reads_reader (hc : c.Fits) : Reader.Reads limit reader c.toJson c := by
  obtain ⟨x, y⟩ := c
  have hmembers : Record.ReadsMembers limit record.fields [("x", .ofInt x), ("y", .ofInt y)]
      ⟨0, 0⟩ ⟨x, y⟩ :=
    .cons rfl (Reader.reads_integer32 hc.1) <| .cons rfl (Reader.reads_integer32 hc.2) <|
      Record.readsMembers_nil _
  have hnodup : ["x", "y"].Nodup := by decide
  have hneeded : ∀ name ∈ record.needed, name ∈ ["x", "y"] := by decide
  exact (hmembers.read hnodup hneeded).mono (Nat.le_succ limit)

theorem exact_toJson (hc : c.Fits) : c.toJson.Exact :=
  ⟨Op.exact_ofInt_of_storable hc.1.1 hc.1.2, Op.exact_ofInt_of_storable hc.2.1 hc.2.2, trivial⟩

theorem reads_list (hcs : ∀ c ∈ cs, c.Fits) :
    Reader.Reads limit (.list reader) (.array (cs.map toJson)) cs :=
  (Reader.reads_list fun c hc => reads_reader (hcs c hc)).mono (Nat.le_succ limit)

theorem exactItems_map_toJson (hcs : ∀ c ∈ cs, c.Fits) : Json.ExactItems (cs.map toJson) := by
  refine Json.exactItems_of_forall fun j hj => ?_
  obtain ⟨c, hc, rfl⟩ := List.mem_map.1 hj
  exact exact_toJson (hcs c hc)

theorem itemDepth_map_toJson_le (cs : List Cell) : Json.itemDepth (cs.map toJson) ≤ 1 := by
  refine Json.itemDepth_le_iff.2 fun j hj => ?_
  obtain ⟨c, -, rfl⟩ := List.mem_map.1 hj
  exact Nat.le_refl 1

end Cell

theorem Facing.reads_reader (f : Facing) : Reader.Reads limit reader f.toJson f := by
  cases f <;> exact Reader.reads_choice rfl

theorem Status.reads_reader (s : Status) : Reader.Reads limit reader s.toJson s := by
  cases s <;> exact Reader.reads_choice rfl

end Parts

/-! ## States of games -/

namespace MazeState

/-- A state that can be held in memory. -/
def Storable (s : MazeState) : Prop := s.position.Fits

/-- **A maze game that was written is read as it was.** -/
theorem ofText_toText {s : MazeState} (hs : s.Storable) : ofText s.toText = .ok s := by
  obtain ⟨levelId, position, facing, status, message⟩ := s
  have hmembers : Record.ReadsMembers Reader.depth record.fields
      [("levelId", .text levelId), ("position", position.toJson), ("facing", facing.toJson),
        ("status", status.toJson), ("message", .text message)]
      record.blank ⟨levelId, position, facing, status, message⟩ :=
    .cons rfl (Reader.reads_text levelId) <| .cons rfl (Cell.reads_reader hs) <|
      .cons rfl facing.reads_reader <| .cons rfl status.reads_reader <|
      .cons rfl (Reader.reads_text message) <| Record.readsMembers_nil _
  have hnodup : ["levelId", "position", "facing", "status", "message"].Nodup := by decide
  have hneeded : ∀ name ∈ record.needed,
      name ∈ ["levelId", "position", "facing", "status", "message"] := by decide
  refine ((hmembers.read hnodup hneeded).mono (Nat.le_succ _)).run_toText ?_ ?_
  · exact ⟨trivial, Cell.exact_toJson hs, trivial, trivial, trivial, trivial⟩
  · exact Nat.le_trans (Nat.le_refl 2) (by decide)

end MazeState

namespace PracticeState

/-- A state that can be held in memory. -/
structure Storable (s : PracticeState) : Prop where
  position : s.position.Fits
  trail : ∀ c ∈ s.trail, c.Fits
  moves : s.moves < 2 ^ 32

/-- **A practice game that was written is read as it was.** -/
theorem ofText_toText {s : PracticeState} (hs : s.Storable) : ofText s.toText = .ok s := by
  obtain ⟨position, facing, trail, moves, status, message⟩ := s
  obtain ⟨hposition, htrail, hmoves⟩ := hs
  have hmembers : Record.ReadsMembers Reader.depth record.fields
      [("position", position.toJson), ("facing", facing.toJson),
        ("trail", .array (trail.map Cell.toJson)), ("moves", .ofInt moves),
        ("status", status.toJson), ("message", .text message)]
      record.blank ⟨position, facing, trail, moves, status, message⟩ :=
    .cons rfl (Cell.reads_reader hposition) <| .cons rfl facing.reads_reader <|
      .cons rfl (Cell.reads_list htrail) <| .cons rfl (Reader.reads_natural hmoves _) <|
      .cons rfl status.reads_reader <| .cons rfl (Reader.reads_text message) <|
      Record.readsMembers_nil _
  have hnodup : ["position", "facing", "trail", "moves", "status", "message"].Nodup := by decide
  have hneeded : ∀ name ∈ record.needed,
      name ∈ ["position", "facing", "trail", "moves", "status", "message"] := by decide
  refine ((hmembers.read hnodup hneeded).mono (Nat.le_succ _)).run_toText ?_ ?_
  · have hbounds : -2 ^ 63 ≤ (moves : Int) ∧ (moves : Int) < 2 ^ 64 := by
      dsimp only at hmoves
      omega
    exact ⟨Cell.exact_toJson hposition, trivial, Cell.exactItems_map_toJson htrail, hbounds,
      trivial, trivial, trivial⟩
  · have htrail := Cell.itemDepth_map_toJson_le trail
    unfold Reader.depth
    simp only [Json.depth, Json.memberDepth, Cell.toJson, Facing.toJson, Status.toJson, Json.ofInt]
    omega

end PracticeState

/-! ## Levels -/

namespace Level

/-- A level that can be held in memory, whether it can be played or not. -/
structure Storable (l : Level) : Prop where
  width : Double.leastInteger ≤ l.width ∧ l.width ≤ Double.largestInteger
  height : Double.leastInteger ≤ l.height ∧ l.height ≤ Double.largestInteger
  start : l.start.Fits
  goal : l.goal.Fits
  walls : ∀ c ∈ l.walls, c.Fits
  sorted : l.walls.Pairwise fun a b => a.before b = true

/-- **A level that was written is read as it was**, and then checked. -/
theorem ofText_toText {l : Level} (hl : l.Storable) : ofText l.toText = l.checked := by
  have hread : record.read.run l.toText = .ok l := by
    obtain ⟨id, width, height, start, facing, goal, walls⟩ := l
    obtain ⟨hwidth, hheight, hstart, hgoal, hwalls, hsorted⟩ := hl
    have hmembers : Record.ReadsMembers Reader.depth record.fields
        [("id", .text id), ("width", .ofInt width), ("height", .ofInt height),
          ("start", start.toJson), ("facing", facing.toJson), ("goal", goal.toJson),
          ("walls", .array (walls.map Cell.toJson))]
        record.blank ⟨id, width, height, start, facing, goal, sortCells walls⟩ :=
      .cons rfl (Reader.reads_text id) <| .cons rfl (Reader.reads_integer32 hwidth) <|
        .cons rfl (Reader.reads_integer32 hheight) <| .cons rfl (Cell.reads_reader hstart) <|
        .cons rfl facing.reads_reader <| .cons rfl (Cell.reads_reader hgoal) <|
        .cons rfl (Cell.reads_list hwalls) <| Record.readsMembers_nil _
    have hnodup : ["id", "width", "height", "start", "facing", "goal", "walls"].Nodup := by decide
    have hneeded : ∀ name ∈ record.needed,
        name ∈ ["id", "width", "height", "start", "facing", "goal", "walls"] := by decide
    rw [sortCells_eq hsorted] at hmembers
    refine ((hmembers.read hnodup hneeded).mono (Nat.le_succ _)).run_toText ?_ ?_
    · exact ⟨trivial, Op.exact_ofInt_of_storable hwidth.1 hwidth.2,
        Op.exact_ofInt_of_storable hheight.1 hheight.2, Cell.exact_toJson hstart, trivial,
        Cell.exact_toJson hgoal, Cell.exactItems_map_toJson hwalls, trivial⟩
    · have hwalls := Cell.itemDepth_map_toJson_le walls
      unfold Reader.depth
      simp only [Json.depth, Json.memberDepth, Cell.toJson, Facing.toJson, Json.ofInt]
      omega
  rw [ofText, hread]

end Level

/-! ## Vocabularies -/

namespace Vocabulary

/-- A vocabulary that can be held in memory: the tags of each role are in order, each once. -/
def Storable (v : Vocabulary) : Prop := ∀ role ∈ v.roles, role.1.Pairwise (· < ·)

theorem mapM_textOf? (tags : List String) : (tags.map Json.text).mapM textOf? = some tags := by
  induction tags with
  | nil => rfl
  | cons tag tags ih =>
    rw [List.map_cons, List.mapM_cons, ih]
    rfl

theorem reads_tagsReader {limit : Nat} {tags : List String} (h : tags.Pairwise (· < ·)) :
    Reader.Reads limit tagsReader (tagsToJson tags) tags := by
  intro room _
  have htags : tagsOf? (tagsToJson tags) = some tags := by
    rw [tagsToJson, tagsOf?, mapM_textOf?, Option.map_some, sortTags_eq h]
  rw [tagsReader, Draft.value_draft]
  refine within_bind_ok _ _ _ ?_
  rw [htags]
  rfl

theorem exact_tagsToJson (tags : List String) : (tagsToJson tags).Exact := by
  refine Json.exactItems_of_forall fun j hj => ?_
  obtain ⟨tag, -, rfl⟩ := List.mem_map.1 hj
  exact trivial

theorem depth_tagsToJson_le (tags : List String) : (tagsToJson tags).depth ≤ 1 := by
  refine Nat.succ_le_succ (Json.itemDepth_le_iff.2 fun j hj => ?_)
  obtain ⟨tag, -, rfl⟩ := List.mem_map.1 hj
  exact Nat.le_refl 0

end Vocabulary

theorem FieldNames.reads_record {limit : Nat} (f : FieldNames) :
    Reader.Reads limit record.read f.toJson f := by
  obtain ⟨steps, times, ms, body⟩ := f
  have hmembers : Record.ReadsMembers limit record.fields
      [("steps", .text steps), ("times", .text times), ("ms", .text ms), ("body", .text body)]
      record.blank ⟨steps, times, ms, body⟩ :=
    .cons rfl (Reader.reads_text steps) <| .cons rfl (Reader.reads_text times) <|
      .cons rfl (Reader.reads_text ms) <| .cons rfl (Reader.reads_text body) <|
      Record.readsMembers_nil _
  have hnodup : ["steps", "times", "ms", "body"].Nodup := by decide
  exact (hmembers.read hnodup fun name hname => (List.not_mem_nil hname).elim).mono
    (Nat.le_succ limit)

namespace Vocabulary

/-- **A vocabulary that was written is read as it was.** -/
theorem ofText_toText {v : Vocabulary} (hv : v.Storable) : ofText v.toText = .ok v := by
  obtain ⟨start, move, back, turnLeft, turnRight, loop, wait, fields⟩ := v
  have hmembers : Record.ReadsMembers Reader.depth record.fields
      [("start", tagsToJson start), ("move", tagsToJson move), ("back", tagsToJson back),
        ("turnLeft", tagsToJson turnLeft), ("turnRight", tagsToJson turnRight),
        ("repeat", tagsToJson loop), ("wait", tagsToJson wait), ("fields", fields.toJson)]
      record.blank ⟨start, move, back, turnLeft, turnRight, loop, wait, fields⟩ := by
    simp only [Storable, roles, List.forall_mem_cons] at hv
    obtain ⟨hstart, hmove, hback, hleft, hright, hloop, hwait, -⟩ := hv
    exact .cons rfl (reads_tagsReader hstart) <| .cons rfl (reads_tagsReader hmove) <|
      .cons rfl (reads_tagsReader hback) <| .cons rfl (reads_tagsReader hleft) <|
      .cons rfl (reads_tagsReader hright) <| .cons rfl (reads_tagsReader hloop) <|
      .cons rfl (reads_tagsReader hwait) <| .cons rfl fields.reads_record <|
      Record.readsMembers_nil _
  have hnodup : ["start", "move", "back", "turnLeft", "turnRight", "repeat", "wait",
      "fields"].Nodup := by decide
  have hread := hmembers.read hnodup fun name hname => (List.not_mem_nil hname).elim
  refine (hread.mono (Nat.le_succ _)).run_toText ?_ ?_
  · exact ⟨exact_tagsToJson _, exact_tagsToJson _, exact_tagsToJson _, exact_tagsToJson _,
      exact_tagsToJson _, exact_tagsToJson _, exact_tagsToJson _,
      ⟨trivial, trivial, trivial, trivial, trivial⟩, trivial⟩
  · have hdepth : ∀ tags : List String, (tagsToJson tags).depth ≤ Reader.depth - 1 := fun tags =>
      Nat.le_trans (depth_tagsToJson_le tags) (by decide)
    have hfields : fields.toJson.depth ≤ Reader.depth - 1 :=
      Nat.le_trans (Nat.le_refl 1) (by decide)
    refine Nat.succ_le_succ (Json.memberDepth_le_iff.2 ?_)
    simp only [List.forall_mem_cons]
    exact ⟨hdepth _, hdepth _, hdepth _, hdepth _, hdepth _, hdepth _, hdepth _, hfields, nofun⟩

end Vocabulary

end BlockRobot
