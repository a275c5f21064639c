import BlockRobot.Program.Text
import BlockRobot.Proofs.Json.Records
import BlockRobot.Proofs.Run.Walk

/-!
# Programs read back from their texts

A program that was written is read as it was, provided that it is not nested too deep
(`Program.ofText_toText`).  What is held in memory can be written if its integers have 32 bits
and its doubles are finite (`Op.Storable`).

An instruction of a program is read from the draft, but the instructions of a body are read
from values already taken, by a reader of their own.  Both first set the kind apart from the
other members and then fill in the parts of the kind, so one statement serves both: the parts
read from the members of an instruction make up the instruction (`Op.ofMembers_members`).  For a
loop it needs that the instructions in the body are read from their values, which is the
induction (`Op.listOfJson_listToJson`).
-/

namespace BlockRobot

namespace Op

/-! ## What can be written -/

mutual

/-- An instruction whose numbers can be held in memory and written. -/
def Storable : Op → Prop
  | start _ => True
  | move steps _ => Double.leastInteger ≤ steps ∧ steps ≤ Double.largestInteger
  | turn _ _ => True
  | loop times body _ => times.isFinite = true ∧ AllStorable body
  | wait ms _ => ms.isFinite = true

/-- Instructions whose numbers can be held in memory and written. -/
def AllStorable : List Op → Prop
  | [] => True
  | op :: ops => Storable op ∧ AllStorable ops

end

theorem allStorable_iff {ops : List Op} : AllStorable ops ↔ ∀ op ∈ ops, op.Storable := by
  induction ops with
  | nil => exact iff_of_true trivial nofun
  | cons op ops ih =>
    rw [AllStorable, ih, List.forall_mem_cons]

/-! ## Instructions as members -/

/-- The kind of an instruction. -/
def kind : Op → Kind
  | start _ => .start
  | move _ _ => .move
  | turn _ _ => .turn
  | loop _ _ _ => .loop
  | wait _ _ => .wait

/-- The members of an instruction behind the one for its kind. -/
def members : Op → List (String × Json)
  | start id => [("blockId", .text id)]
  | move steps id => [("steps", .ofInt steps), ("blockId", .text id)]
  | turn side id => [("direction", .text side.name), ("blockId", .text id)]
  | loop times body id =>
    [("times", .ofDouble times), ("body", .array (listToJson body)), ("blockId", .text id)]
  | wait ms id => [("ms", .ofDouble ms), ("blockId", .text id)]

theorem toJson_eq (op : Op) : op.toJson = .object (("type", .text op.kindName) :: op.members) := by
  cases op <;> rfl

theorem listToJson_eq_map (ops : List Op) : listToJson ops = ops.map toJson := by
  induction ops with
  | nil => rfl
  | cons op ops ih => rw [listToJson, ih, List.map_cons]

theorem pick_kindName (op : Op) : Reader.pick kinds op.kindName = .ok op.kind := by
  cases op <;> rfl

theorem type_notMem_names (op : Op) : "type" ∉ op.members.map Prod.fst := by
  cases op <;> simp [members]

/-! ## Filling in the parts -/

theorem sideOf_name (side : Side) : sideOf (.text side.name) = .ok side := by
  cases side <;> rfl

/-- A member that is a part not read before is filled in. -/
theorem ofMembers_cons {kind : Kind} {part : Part} {name : String} {value : Json}
    {ms : List (String × Json)} {parts filled : Parts}
    (hpart : kind.parts.find? (fun part => part.name = name) = some part)
    (hnew : parts.has part = false) (hfill : fill part value parts = .ok filled) :
    ofMembers kind ((name, value) :: ms) parts = ofMembers kind ms filled := by
  rw [ofMembers, hpart]
  dsimp only
  rw [hnew, if_neg Bool.false_ne_true, hfill]
  rfl

/-- **The parts of an instruction** are read from its members, and make it up, if those in its
body are read from their values. -/
theorem ofMembers_members {op : Op} (hop : op.Storable)
    (hbody : ∀ times body id, op = .loop times body id → listOfJson (listToJson body) = .ok body) :
    (ofMembers op.kind op.members {} >>= fun parts => parts.assemble op.kind) = .ok op := by
  cases op with
  | start id => rfl
  | move steps id =>
    have hsteps : stepsOf (.ofInt steps) = .ok steps := if_pos hop
    have hfill : fill .steps (.ofInt steps) {} = .ok { steps := some steps } := by
      rw [fill, hsteps]
      rfl
    rw [kind, members, ofMembers_cons rfl rfl hfill]
    rfl
  | turn side id =>
    have hfill : fill .side (.text side.name) {} = .ok { side := some side } := by
      rw [fill, sideOf_name]
      rfl
    rw [kind, members, ofMembers_cons rfl rfl hfill]
    rfl
  | loop times body id =>
    have htimes : fill .times (.ofDouble times) {} = .ok { times := some times } := rfl
    have hfill : fill .body (.array (listToJson body)) { times := some times } =
        .ok { times := some times, body := some body } := by
      rw [fill, hbody times body id rfl]
      rfl
    rw [kind, members, ofMembers_cons rfl rfl htimes, ofMembers_cons rfl rfl hfill]
    rfl
  | wait ms id => rfl

/-! ## Reading from values already taken -/

/-- The kind is set apart from the other members. -/
theorem splitKind_of_notMem {ms : List (String × Json)} (hms : "type" ∉ ms.map Prod.fst)
    (kind : Option Kind) : splitKind ms kind = .ok (kind, ms) := by
  induction ms with
  | nil => rfl
  | cons m ms ih =>
    obtain ⟨name, value⟩ := m
    rw [List.map_cons, List.mem_cons, not_or] at hms
    rw [splitKind.eq_def]
    dsimp only
    rw [if_neg (Ne.symm hms.1), ih hms.2]
    rfl

/-- The member for the kind is no part of an instruction. -/
theorem ofMembers_cons_type (kind : Kind) (value : Json) (ms : List (String × Json))
    (parts : Parts) : ofMembers kind (("type", value) :: ms) parts = ofMembers kind ms parts := by
  have hfind : (kind.parts.find? fun part => part.name = "type") = none := by
    cases kind <;> rfl
  rw [ofMembers, hfind]

/-- An instruction is read from its value, if those in its body are. -/
theorem ofJson_toJson_of_body {op : Op} (hop : op.Storable)
    (hbody : ∀ times body id, op = .loop times body id → listOfJson (listToJson body) = .ok body) :
    ofJson op.toJson = .ok op := by
  have hkind : kindOf (.text op.kindName) = .ok op.kind := pick_kindName op
  rw [toJson_eq, ofJson, splitKind, if_pos rfl]
  dsimp only
  rw [hkind]
  show (splitKind op.members (some op.kind) >>= _) = _
  rw [splitKind_of_notMem op.type_notMem_names]
  show (ofMembers op.kind (("type", .text op.kindName) :: op.members) {} >>= _) = _
  rw [ofMembers_cons_type]
  exact ofMembers_members hop hbody

/-- **Instructions are read from their values.** -/
theorem listOfJson_listToJson {ops : List Op} (hops : AllStorable ops) :
    listOfJson (listToJson ops) = .ok ops := by
  induction ops using listInduction (Q := fun op => op.Storable → ofJson op.toJson = .ok op) with
  | plain op hop hstorable =>
    refine ofJson_toJson_of_body hstorable fun times body id h => ?_
    rw [h] at hop
    cases hop
  | loop times body id ih hstorable =>
    refine ofJson_toJson_of_body hstorable fun times' body' id' h => ?_
    obtain ⟨-, rfl, -⟩ := Op.loop.inj h
    exact ih hstorable.2
  | nil => rfl
  | cons op ops ihop ihops =>
    rw [listToJson, listOfJson, ihop hops.1, ihops hops.2]
    rfl

/-! ## Reading from a text -/

/-- The kind is set apart from the other members, which are taken as they are. -/
theorem takeMembers_memberDrafts {ms : List (String × Json)} (hms : "type" ∉ ms.map Prod.fst)
    (room : Nat) (kind : Option Kind) :
    takeMembers room (Json.memberDrafts ms) kind = within room (Json.memberDepth ms) (kind, ms) := by
  induction ms with
  | nil => rfl
  | cons m ms ih =>
    obtain ⟨name, value⟩ := m
    rw [List.map_cons, List.mem_cons, not_or] at hms
    have hname : (Draft.scalar (.text name)).name = pure name := rfl
    rw [Json.memberDrafts, takeMembers.eq_def]
    dsimp only
    rw [hname, pure_bind, if_neg (Ne.symm hms.1), Draft.value_draft, Json.memberDepth, ih hms.2]
    exact within_bind _ _ _ _ (within_bind_ok _ _ _ rfl)

/-- **An instruction is read back.** -/
theorem reads_reader {op : Op} (hop : op.Storable) (limit : Nat) :
    Reader.Reads limit reader op.toJson op := by
  intro room _
  have hbody : ∀ times body id, op = .loop times body id →
      listOfJson (listToJson body) = .ok body := by
    rintro times body id rfl
    exact listOfJson_listToJson hop.2
  have hname : (Draft.scalar (.text "type")).name = pure "type" := rfl
  have hkind : Reader.identifier kinds (.scalar (.text op.kindName)) = .ok op.kind :=
    pick_kindName op
  rw [toJson_eq, Json.draft, Json.memberDrafts, Json.depth, Json.memberDepth]
  cases room with
  | zero => rfl
  | succ room =>
    have htake : takeMembers room
        ((.scalar (.text "type"), Json.draft (.text op.kindName)) :: Json.memberDrafts op.members)
        none = within room (Json.memberDepth op.members) (some op.kind, op.members) := by
      rw [takeMembers, hname, pure_bind, if_pos rfl, Json.draft]
      show (Reader.identifier kinds _ >>= _) = _
      rw [hkind]
      exact takeMembers_memberDrafts op.type_notMem_names room (some op.kind)
    rw [reader, htake, Json.depth, Nat.zero_max, within_succ]
    refine within_bind_ok _ _ _ ?_
    exact ofMembers_members hop hbody

/-! ## Numbers that can be written -/

theorem exact_ofInt_of_storable {steps : Int} (hleast : Double.leastInteger ≤ steps)
    (hlargest : steps ≤ Double.largestInteger) : (Json.ofInt steps).Exact := by
  unfold Double.leastInteger at hleast
  unfold Double.largestInteger at hlargest
  show -2 ^ 63 ≤ steps ∧ steps < 2 ^ 64
  omega

/-- The numbers in instructions that are storable can be written. -/
theorem exactItems_listToJson {ops : List Op} (hops : AllStorable ops) :
    Json.ExactItems (listToJson ops) := by
  induction ops using listInduction (Q := fun op => op.Storable → op.toJson.Exact) with
  | plain op hop hstorable =>
    cases op with
    | start id => exact ⟨trivial, trivial, trivial⟩
    | move steps id =>
      exact ⟨trivial, exact_ofInt_of_storable hstorable.1 hstorable.2, trivial, trivial⟩
    | turn side id => exact ⟨trivial, trivial, trivial, trivial⟩
    | wait ms id => exact ⟨trivial, hstorable, trivial, trivial⟩
    | loop times body id => cases hop
  | loop times body id ih hstorable =>
    exact ⟨trivial, hstorable.1, ih hstorable.2, trivial, trivial⟩
  | nil => exact trivial
  | cons op ops ihop ihops => exact ⟨ihop hops.1, ihops hops.2⟩

end Op

namespace Program

/-- A program whose numbers can be held in memory and written. -/
def Storable (p : Program) : Prop := Op.AllStorable p.ops

theorem exact_toJson {p : Program} (hp : p.Storable) : p.toJson.Exact :=
  ⟨Op.exactItems_listToJson hp, trivial⟩

/-- A program is read back. -/
theorem reads_record {p : Program} (hp : p.Storable) (limit : Nat) :
    Reader.Reads limit record.read p.toJson p := by
  obtain ⟨ops⟩ := p
  have hlist : Reader.Reads limit (.list Op.reader) (.array (Op.listToJson ops)) ops := by
    rw [Op.listToJson_eq_map]
    refine (Reader.reads_list fun op hop => ?_).mono (Nat.le_succ limit)
    exact Op.reads_reader (Op.allStorable_iff.1 hp op hop) limit
  have hmember : Record.ReadsMembers limit record.fields [("ops", .array (Op.listToJson ops))]
      ⟨[]⟩ ⟨ops⟩ := Record.readsMembers_singleton rfl (hlist.field _ _ _ _)
  have hneeded : ∀ name ∈ record.needed, name ∈ ["ops"] := by decide
  have hnodup : ["ops"].Nodup := by decide
  exact (hmember.read hnodup hneeded).mono (Nat.le_succ limit)

/-- **A program that was written is read as it was**, if there is room for its brackets. -/
theorem ofText_toText {p : Program} (hp : p.Storable) :
    ofText p.toText = within Reader.depth p.toJson.depth p := by
  rw [ofText, toText, Reader.run_toText record.read (exact_toJson hp)]
  exact reads_record hp Reader.depth Reader.depth (Nat.le_refl _)

end Program

end BlockRobot
