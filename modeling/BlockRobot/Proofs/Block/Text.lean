import BlockRobot.Block.Text
import BlockRobot.Proofs.Json.Records

/-!
# Drawings read back from their texts

A drawing that was written is read as it was, provided that it is not nested too deep
(`Workspace.ofText_toText`).

What the editor holds in memory can be written, with few conditions, which are those of the
types it is kept in (`Workspace.Storable`): fields and inputs stand in the order of their
names, values in normal form, integers have 64 bits, and doubles are finite.

## Blocks in blocks

The reader of blocks is made in rounds, each of which reads blocks with the reader of the
round before for the blocks inside.  A block stands in a bracket of its own, so a block
inside is met with less room, and as many rounds as there is room are enough.  The induction
is on the block: if the blocks inside are read back with `n` rounds wherever there is room
for `n` brackets, then so are the links that hold them, and the block is with `n + 1`
(`Block.reads_nested`).
-/

namespace BlockRobot

namespace Block

mutual

/-- A block that can be held in memory and written. -/
def Storable : Block → Prop
  | ⟨_, _, x, y, fields, inputs, next⟩ =>
    x.isFinite = true ∧ y.isFinite = true ∧
      (SortedByName fields ∧ Json.ExactMembers fields ∧ ∀ e ∈ fields, e.2.normal = e.2) ∧
        (SortedByName inputs ∧ InputsStorable inputs) ∧ NextStorable next

/-- Inputs whose blocks can be held in memory and written. -/
def InputsStorable : List (String × Link Block) → Prop
  | [] => True
  | (_, ⟨block, shadow⟩) :: inputs =>
    (BlockStorable block ∧ BlockStorable shadow) ∧ InputsStorable inputs

/-- A link to the block below that can be held in memory and written. -/
def NextStorable : Option (Link Block) → Prop
  | none => True
  | some ⟨block, shadow⟩ => BlockStorable block ∧ BlockStorable shadow

/-- A block, or none, that can be held in memory and written. -/
def BlockStorable : Option Block → Prop
  | none => True
  | some b => Storable b

end

/-! ## Links as values -/

/-- A link as a value. -/
def linkToJson (l : Link Block) : Json :=
  .object (blockToJson "block" l.block ++ blockToJson "shadow" l.shadow)

theorem inputsToJson_eq_map (inputs : List (String × Link Block)) :
    inputsToJson inputs = inputs.map fun e => (e.1, linkToJson e.2) := by
  induction inputs with
  | nil => rfl
  | cons e inputs ih =>
    obtain ⟨name, block, shadow⟩ := e
    rw [inputsToJson, ih, List.map_cons]
    rfl

/-! ## Numbers that can be written -/

theorem exactMembers_objectMember (name : String) {ms : List (String × Json)}
    (hms : Json.ExactMembers ms) : Json.ExactMembers (objectMember name ms) := by
  cases ms with
  | nil => exact trivial
  | cons m ms => exact ⟨hms, trivial⟩

mutual

/-- The numbers in a block that is storable can be written. -/
theorem exact_toJson : ∀ {b : Block}, b.Storable → b.toJson.Exact
  | ⟨tag, id, x, y, fields, inputs, next⟩, ⟨hx, hy, hfields, hinputs, hnext⟩ => by
    refine Json.exactMembers_append ⟨trivial, trivial, hx, hy, trivial⟩ ?_
    refine Json.exactMembers_append (exactMembers_objectMember _ hfields.2.1) ?_
    refine Json.exactMembers_append (exactMembers_objectMember _ (exact_inputsToJson hinputs.2)) ?_
    exact exact_nextToJson hnext

theorem exact_inputsToJson : ∀ {inputs : List (String × Link Block)},
    InputsStorable inputs → Json.ExactMembers (inputsToJson inputs)
  | [], _ => trivial
  | (_, ⟨_, _⟩) :: _, ⟨⟨hblock, hshadow⟩, hinputs⟩ =>
    ⟨Json.exactMembers_append (exact_blockToJson _ hblock) (exact_blockToJson _ hshadow),
      exact_inputsToJson hinputs⟩

theorem exact_nextToJson : ∀ {next : Option (Link Block)},
    NextStorable next → Json.ExactMembers (nextToJson next)
  | none, _ => trivial
  | some ⟨_, _⟩, ⟨hblock, hshadow⟩ =>
    ⟨Json.exactMembers_append (exact_blockToJson _ hblock) (exact_blockToJson _ hshadow),
      trivial⟩

theorem exact_blockToJson (name : String) : ∀ {block : Option Block},
    BlockStorable block → Json.ExactMembers (blockToJson name block)
  | none, _ => trivial
  | some _, hb => ⟨exact_toJson hb, trivial⟩

end

/-! ## Reading blocks -/

/-- The body of the reader of blocks: a record with a reader for the blocks inside. -/
def body (block : Reader Block) : Reader Block := (record block).read

/-- A block that is read back may also be read where it can be absent. -/
theorem reads_option {limit : Nat} {r : Reader Block} {b : Block}
    (h : Reader.Reads limit r b.toJson b) : Reader.Reads limit (.option r) b.toJson (some b) := by
  obtain ⟨tag, id, x, y, fields, inputs, next⟩ := b
  exact h.option

theorem names_blockToJson (name : String) (block : Option Block) :
    ((blockToJson name block).map Prod.fst).Sublist [name] := by
  cases block with
  | none => exact List.nil_sublist _
  | some b => exact List.Sublist.refl _

/-- A link is read back if the blocks in it are. -/
theorem reads_link {limit : Nat} {r : Reader Block} {l : Link Block}
    (hblock : ∀ b, l.block = some b → Reader.Reads limit r b.toJson b)
    (hshadow : ∀ b, l.shadow = some b → Reader.Reads limit r b.toJson b) :
    Reader.Reads (limit + 1) (linkRecord r).read (linkToJson l) l := by
  obtain ⟨block, shadow⟩ := l
  have hfirst : Record.ReadsMembers limit (linkRecord r).fields (blockToJson "block" block)
      ⟨none, none⟩ ⟨block, none⟩ := by
    cases block with
    | none => exact Record.readsMembers_nil _
    | some b =>
      have hread := reads_option (hblock b rfl)
      exact Record.readsMembers_singleton rfl (hread.field _ _ _ _)
  have hsecond : Record.ReadsMembers limit (linkRecord r).fields (blockToJson "shadow" shadow)
      ⟨block, none⟩ ⟨block, shadow⟩ := by
    cases shadow with
    | none => exact Record.readsMembers_nil _
    | some b =>
      have hread := reads_option (hshadow b rfl)
      exact Record.readsMembers_singleton rfl (hread.field _ _ _ _)
  refine (hfirst.append hsecond).read ?_ fun name hname => (List.not_mem_nil hname).elim
  have hnames := (names_blockToJson "block" block).append (names_blockToJson "shadow" shadow)
  rw [← List.map_append] at hnames
  exact hnames.nodup (by decide)

theorem names_objectMember (name : String) (ms : List (String × Json)) :
    ((objectMember name ms).map Prod.fst).Sublist [name] := by
  cases ms with
  | nil => exact List.nil_sublist _
  | cons m ms => exact List.Sublist.refl _

theorem names_nextToJson (next : Option (Link Block)) :
    ((nextToJson next).map Prod.fst).Sublist ["next"] := by
  cases next with
  | none => exact List.nil_sublist _
  | some l => exact List.Sublist.refl _

/-- The members that every block has. -/
theorem readsMembers_head {limit : Nat} (r : Reader Block) (tag id : String) (x y : Double) :
    Record.ReadsMembers limit (record r).fields
      [("type", .text tag), ("id", .text id), ("x", .ofDouble x), ("y", .ofDouble y)]
      (bare "" "") ⟨tag, id, x, y, [], [], none⟩ :=
  .cons rfl (Reader.reads_text tag) <| .cons rfl (Reader.reads_text id) <|
    .cons rfl (Reader.reads_double x) <| .cons rfl (Reader.reads_double y) <|
    Record.readsMembers_nil _

theorem reads_fields {limit : Nat} {fields : List (String × Json)} (hsorted : SortedByName fields)
    (hnormal : ∀ e ∈ fields, e.2.normal = e.2) :
    Reader.Reads limit (.byName .json) (.object fields) fields := by
  have hread : Reader.Reads (limit + 1) (.byName .json)
      (.object (fields.map fun e => (e.1, e.2))) fields :=
    Reader.reads_byName (f := fun j => j) hsorted fun e he => Reader.reads_json (hnormal e he)
  rw [List.map_id'] at hread
  exact hread.mono (Nat.le_succ limit)

/-- The members that are left out if there is nothing in them. -/
theorem readsMembers_tail {limit : Nat} {r : Reader Block} (b : Block)
    (hfields : Reader.Reads limit (.byName .json) (.object b.fields) b.fields)
    (hinputs : Reader.Reads limit (.byName (linkRecord r).read) (.object (inputsToJson b.inputs))
      b.inputs)
    (hnext : ∀ l, b.next = some l → Reader.Reads limit (linkRecord r).read (linkToJson l) l) :
    Record.ReadsMembers limit (record r).fields
      (objectMember "fields" b.fields ++
        (objectMember "inputs" (inputsToJson b.inputs) ++ nextToJson b.next))
      ⟨b.tag, b.id, b.x, b.y, [], [], none⟩ b := by
  obtain ⟨tag, id, x, y, fields, inputs, next⟩ := b
  have hfieldsMember : Record.ReadsMembers limit (record r).fields (objectMember "fields" fields)
      ⟨tag, id, x, y, [], [], none⟩ ⟨tag, id, x, y, fields, [], none⟩ := by
    cases fields with
    | nil => exact Record.readsMembers_nil _
    | cons e es => exact Record.readsMembers_singleton rfl (hfields.field _ _ _ _)
  have hinputsMember : Record.ReadsMembers limit (record r).fields
      (objectMember "inputs" (inputsToJson inputs))
      ⟨tag, id, x, y, fields, [], none⟩ ⟨tag, id, x, y, fields, inputs, none⟩ := by
    cases inputs with
    | nil => exact Record.readsMembers_nil _
    | cons e es =>
      obtain ⟨name, block, shadow⟩ := e
      exact Record.readsMembers_singleton rfl (hinputs.field _ _ _ _)
  have hnextMember : Record.ReadsMembers limit (record r).fields (nextToJson next)
      ⟨tag, id, x, y, fields, inputs, none⟩ ⟨tag, id, x, y, fields, inputs, next⟩ := by
    cases next with
    | none => exact Record.readsMembers_nil _
    | some l =>
      exact Record.readsMembers_singleton rfl (((hnext l rfl).option).field _ _ _ _)
  exact hfieldsMember.append (hinputsMember.append hnextMember)

/-- A block is read back if the links in it are. -/
theorem reads_body {limit : Nat} {r : Reader Block} {b : Block} (hb : b.Storable)
    (hinputs : ∀ e ∈ b.inputs, Reader.Reads limit (linkRecord r).read (linkToJson e.2) e.2)
    (hnext : ∀ l, b.next = some l → Reader.Reads limit (linkRecord r).read (linkToJson l) l) :
    Reader.Reads (limit + 1) (body r) b.toJson b := by
  obtain ⟨tag, id, x, y, fields, inputs, next⟩ := b
  obtain ⟨-, -, ⟨hfieldsSorted, -, hnormal⟩, ⟨hinputsSorted, -⟩, -⟩ := hb
  have hlinks : Reader.Reads limit (.byName (linkRecord r).read)
      (.object (inputsToJson inputs)) inputs := by
    rw [inputsToJson_eq_map]
    exact (Reader.reads_byName hinputsSorted hinputs).mono (Nat.le_succ limit)
  have htail := readsMembers_tail ⟨tag, id, x, y, fields, inputs, next⟩
    (reads_fields hfieldsSorted hnormal) hlinks hnext
  refine ((readsMembers_head r tag id x y).append htail).read ?_ ?_
  · have hnames := (names_objectMember "fields" fields).append
      ((names_objectMember "inputs" (inputsToJson inputs)).append (names_nextToJson next))
    rw [← List.map_append, ← List.map_append] at hnames
    rw [List.map_append]
    exact ((List.Sublist.refl ["type", "id", "x", "y"]).append hnames).nodup (by decide)
  · intro name hname
    rw [List.mem_singleton.1 hname]
    exact List.mem_cons_self ..

mutual

/-- As many rounds as there is room are enough for a block. -/
theorem reads_nested : ∀ {b : Block}, b.Storable → ∀ rounds,
    Reader.Reads rounds (Reader.nested body rounds) b.toJson b
  | ⟨_, _, _, _, _, _, _⟩, _, 0 => by
    intro room hroom
    obtain rfl : room = 0 := Nat.le_zero.1 hroom
    rfl
  | ⟨tag, id, x, y, fields, inputs, next⟩, hb, rounds + 1 => by
    refine reads_body hb (fun e he => ?_) fun l hl => ?_
    · exact reads_inputs hb.2.2.2.1.2 rounds e he
    · exact reads_next hb.2.2.2.2 rounds l hl

theorem reads_inputs : ∀ {inputs : List (String × Link Block)}, InputsStorable inputs →
    ∀ rounds, ∀ e ∈ inputs, Reader.Reads rounds (linkRecord (Reader.nested body rounds)).read
      (linkToJson e.2) e.2
  | (_, ⟨_, _⟩) :: _, ⟨⟨hblock, hshadow⟩, hinputs⟩, rounds, e, he => by
    rcases List.mem_cons.1 he with rfl | he
    · exact (reads_link (reads_block hblock rounds) (reads_block hshadow rounds)).mono
        (Nat.le_succ rounds)
    · exact reads_inputs hinputs rounds e he

theorem reads_next : ∀ {next : Option (Link Block)}, NextStorable next →
    ∀ rounds, ∀ l, next = some l → Reader.Reads rounds
      (linkRecord (Reader.nested body rounds)).read (linkToJson l) l
  | some ⟨_, _⟩, ⟨hblock, hshadow⟩, rounds, _, rfl =>
    (reads_link (reads_block hblock rounds) (reads_block hshadow rounds)).mono (Nat.le_succ rounds)

theorem reads_block : ∀ {block : Option Block}, BlockStorable block → ∀ rounds, ∀ b,
    block = some b → Reader.Reads rounds (Reader.nested body rounds) b.toJson b
  | some _, hb, rounds, _, rfl => reads_nested hb rounds

end

/-- **A block is read back.** -/
theorem reads_reader {b : Block} (hb : b.Storable) (limit : Nat) :
    Reader.Reads limit reader b.toJson b :=
  fun room _ => reads_nested hb room room (Nat.le_refl room)

end Block

namespace Workspace

/-- A drawing that can be held in memory and written. -/
def Storable (w : Workspace) : Prop := w.languageVersion < 2 ^ 32 ∧ ∀ b ∈ w.heads, b.Storable

/-- The numbers in a drawing that is storable can be written. -/
theorem exact_toJson {w : Workspace} (hw : w.Storable) : w.toJson.Exact := by
  obtain ⟨hversion, hheads⟩ := hw
  have hbounds : -2 ^ 63 ≤ (w.languageVersion : Int) ∧ (w.languageVersion : Int) < 2 ^ 64 := by
    omega
  have hitems : Json.ExactItems (w.heads.map Block.toJson) := by
    refine Json.exactItems_of_forall fun j hj => ?_
    obtain ⟨b, hb, rfl⟩ := List.mem_map.1 hj
    exact Block.exact_toJson (hheads b hb)
  exact ⟨⟨hbounds, hitems, trivial⟩, trivial⟩

/-- The stacks of a drawing are read back. -/
theorem reads_stacksRecord {w : Workspace} (hw : w.Storable) (limit : Nat) :
    Reader.Reads (limit + 1) stacksRecord.read
      (.object [("languageVersion", .ofInt w.languageVersion),
        ("blocks", .array (w.heads.map Block.toJson))]) w := by
  obtain ⟨languageVersion, heads⟩ := w
  obtain ⟨hversion, hheads⟩ := hw
  have hlist : Reader.Reads limit (.list Block.reader) (.array (heads.map Block.toJson)) heads :=
    (Reader.reads_list fun b hb => Block.reads_reader (hheads b hb) limit).mono (Nat.le_succ limit)
  have hmembers : Record.ReadsMembers limit stacksRecord.fields
      [("languageVersion", .ofInt languageVersion), ("blocks", .array (heads.map Block.toJson))]
      stacksRecord.blank ⟨languageVersion, heads⟩ :=
    .cons rfl (Reader.reads_natural hversion _) <| .cons rfl hlist <| Record.readsMembers_nil _
  have hnodup : ["languageVersion", "blocks"].Nodup := by decide
  exact hmembers.read hnodup fun name hname => (List.not_mem_nil hname).elim

/-- A drawing is read back. -/
theorem reads_record {w : Workspace} (hw : w.Storable) (limit : Nat) :
    Reader.Reads limit record.read w.toJson w := by
  have hmember : Record.ReadsMembers (limit + 1) record.fields
      [("blocks", .object [("languageVersion", .ofInt w.languageVersion),
        ("blocks", .array (w.heads.map Block.toJson))])] ⟨0, []⟩ w :=
    Record.readsMembers_singleton rfl ((reads_stacksRecord hw limit).field _ _ _ _)
  have hnodup : ["blocks"].Nodup := by decide
  have hread : Reader.Reads (limit + 2) record.read w.toJson w :=
    hmember.read hnodup fun name hname => (List.not_mem_nil hname).elim
  exact hread.mono (Nat.le_add_right limit 2)

/-- **A drawing that was written is read as it was**, if there is room for its brackets. -/
theorem ofText_toText {w : Workspace} (hw : w.Storable) :
    ofText w.toText = within Reader.depth w.toJson.depth w := by
  rw [ofText, toText, Reader.run_toText record.read (exact_toJson hw)]
  exact reads_record hw Reader.depth Reader.depth (Nat.le_refl _)

end Workspace

end BlockRobot
