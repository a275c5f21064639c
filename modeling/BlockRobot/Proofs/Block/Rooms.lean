import BlockRobot.Proofs.Block.Text
import BlockRobot.Proofs.Json.Exactness
import BlockRobot.Proofs.Json.Rooms

/-!
# Drawings that have been read can be written

Texts may be nested `Reader.depth` deep.  A drawing that was read from a text can be written
again within that depth (`Workspace.depth_toJson_le_of_ofText`), whatever the text looked like,
so the reader of drawings does not refuse for its depth what it has read.

The reader of blocks is made in rounds, and one round is right if the round before it is
(`Block.fits_record`).  What a drawing shows is less deep the further it lies along links: each
block below costs two brackets, and each block in an input three (`Block.depth_below_le`,
`Block.depth_statement_le`).
-/

namespace BlockRobot

namespace Block

variable {r : Reader Block}

theorem memberDepth_objectMember_le {name : String} {ms : List (String × Json)} {n : Nat}
    (h : (Json.object ms).depth ≤ n) : Json.memberDepth (objectMember name ms) ≤ n := by
  cases ms with
  | nil => exact Nat.zero_le n
  | cons m ms => exact Nat.max_le.2 ⟨h, Nat.zero_le n⟩

theorem memberDepth_blockToJson_le (hr : r.Fits toJson) {name : String} {room : Nat} {d : Draft}
    {block : Option Block} (hread : Reader.option r room d = .ok block) :
    Json.memberDepth (blockToJson name block) ≤ room := by
  cases block with
  | none => exact Nat.zero_le room
  | some b => exact Nat.max_le.2 ⟨hr room d b (Reader.of_option hread), Nat.zero_le room⟩

/-- A link fits if the blocks in it do. -/
theorem fits_linkRecord (hr : r.Fits toJson) : (linkRecord r).read.Fits linkToJson := by
  intro room d l hread
  have hkept : Record.KeptBy (fun _ => True) (linkRecord r).fields fun n (l : Link Block) =>
      Json.memberDepth (blockToJson "block" l.block) ≤ n ∧
        Json.memberDepth (blockToJson "shadow" l.shadow) ≤ n := by
    refine .cons (.cons Record.keptBy_nil ?_) ?_
    · exact fun room d l block _ hl hblock => ⟨hl.1, memberDepth_blockToJson_le hr hblock⟩
    · exact fun room d l block _ hl hblock => ⟨memberDepth_blockToJson_le hr hblock, hl.2⟩
  obtain ⟨inner, rfl, hblock, hshadow⟩ := Record.invariant_of_read Draft.hereditary_true
    (fun room => ⟨Nat.zero_le room, Nat.zero_le room⟩) hkept room d l trivial hread
  refine Nat.succ_le_succ ?_
  rw [Json.memberDepth_append]
  exact Nat.max_le.2 ⟨hblock, hshadow⟩

/-- The members of a block that can be deep lie in some room. -/
structure Lies (n : Nat) (b : Block) : Prop where
  fields : Json.memberDepth (objectMember "fields" b.fields) ≤ n
  inputs : Json.memberDepth (objectMember "inputs" (inputsToJson b.inputs)) ≤ n
  next : Json.memberDepth (nextToJson b.next) ≤ n

theorem depth_toJson_le_iff {b : Block} {n : Nat} : b.toJson.depth ≤ n + 1 ↔ Lies n b := by
  obtain ⟨tag, id, x, y, fields, inputs, next⟩ := b
  have hhead : Json.memberDepth
      [("type", .text tag), ("id", .text id), ("x", .ofDouble x), ("y", .ofDouble y)] = 0 := rfl
  rw [toJson, Json.depth, Nat.succ_le_succ_iff, Json.memberDepth_append, Json.memberDepth_append,
    Json.memberDepth_append, hhead, Nat.zero_max, Nat.max_le, Nat.max_le]
  exact ⟨fun h => ⟨h.1, h.2.1, h.2.2⟩, fun h => ⟨h.fields, h.inputs, h.next⟩⟩

/-- **A block fits if the blocks inside do.** -/
theorem fits_record (hr : r.Fits toJson) : (record r).read.Fits toJson := by
  intro room d b hread
  have hfields : (Reader.byName .json).Fits Json.object := by
    have h := Reader.fits_byName Reader.fits_json
    simp only [id_eq, List.map_id'] at h
    exact h
  have hinputs : (Reader.byName (linkRecord r).read).Fits fun es => .object (inputsToJson es) := by
    have h := Reader.fits_byName (fits_linkRecord hr)
    simp only [← inputsToJson_eq_map] at h
    exact h
  have hnext : ∀ {room d next}, Reader.option (linkRecord r).read room d = .ok next →
      Json.memberDepth (nextToJson next) ≤ room := by
    intro room d next hread
    cases next with
    | none => exact Nat.zero_le room
    | some l =>
      exact Nat.max_le.2 ⟨fits_linkRecord hr room d l (Reader.of_option hread), Nat.zero_le room⟩
  have hkept : Record.KeptBy (fun _ => True) (record r).fields Lies := by
    refine .cons (.cons (.cons (.cons (.cons (.cons (.cons Record.keptBy_nil ?_) ?_) ?_) ?_) ?_) ?_)
      ?_
    case refine_1 => exact fun room d b next _ hb h => ⟨hb.fields, hb.inputs, hnext h⟩
    case refine_2 =>
      exact fun room d b inputs _ hb h =>
        ⟨hb.fields, memberDepth_objectMember_le (hinputs room d inputs h), hb.next⟩
    case refine_3 =>
      exact fun room d b fields _ hb h =>
        ⟨memberDepth_objectMember_le (hfields room d fields h), hb.inputs, hb.next⟩
    all_goals exact fun room d b x _ hb _ => ⟨hb.fields, hb.inputs, hb.next⟩
  have hblank : ∀ room, Lies room (record r).blank := fun room =>
    ⟨Nat.zero_le room, Nat.zero_le room, Nat.zero_le room⟩
  obtain ⟨inner, rfl, hlies⟩ :=
    Record.invariant_of_read Draft.hereditary_true hblank hkept room d b trivial hread
  exact depth_toJson_le_iff.2 hlies

/-- A block that was read can be written in the room that reading it had. -/
theorem fits_reader : reader.Fits toJson :=
  Reader.fits_recursive fun _ => fits_record

/-! ## Depths along links -/

theorem depth_toJson_pos (b : Block) : 0 < b.toJson.depth := by
  obtain ⟨tag, id, x, y, fields, inputs, next⟩ := b
  rw [toJson, Json.depth]
  exact Nat.succ_pos _

/-- What lies in a block, measured by the block. -/
theorem lies_depth_toJson (b : Block) : Lies (b.toJson.depth - 1) b := by
  have hpos := b.depth_toJson_pos
  exact depth_toJson_le_iff.1 (by omega)

theorem depth_le_linkToJson {l : Link Block} {c : Block} (hc : l.block = some c) :
    c.toJson.depth + 1 ≤ (linkToJson l).depth := by
  rw [linkToJson, hc, Json.depth, Json.memberDepth_append, blockToJson, Json.memberDepth]
  omega

theorem depth_below_le {b c : Block} (hc : b.below? = some c) :
    c.toJson.depth + 2 ≤ b.toJson.depth := by
  obtain ⟨l, hl, hlc⟩ := Option.bind_eq_some_iff.1 hc
  have hnext := b.lies_depth_toJson.next
  have hlink := depth_le_linkToJson hlc
  have hpos := b.depth_toJson_pos
  rw [hl] at hnext
  have hmember : (linkToJson l).depth ≤ b.toJson.depth - 1 :=
    Json.memberDepth_le_iff.1 hnext ("next", linkToJson l) (List.mem_cons_self ..)
  omega

theorem depth_statement_le {b c : Block} {name : String} (hc : b.statement? name = some c) :
    c.toJson.depth + 3 ≤ b.toJson.depth := by
  obtain ⟨l, hl, hlc⟩ := Option.bind_eq_some_iff.1 hc
  obtain ⟨e, he, rfl⟩ := Option.map_eq_some_iff.1 hl
  have hmem : e ∈ b.inputs := List.mem_of_find?_eq_some he
  have hinputs := b.lies_depth_toJson.inputs
  have hlink := depth_le_linkToJson hlc
  have hpos := b.depth_toJson_pos
  have hentry : (e.1, linkToJson e.2) ∈ inputsToJson b.inputs := by
    rw [inputsToJson_eq_map]
    exact List.mem_map_of_mem hmem
  have hobject : Json.memberDepth (objectMember "inputs" (inputsToJson b.inputs)) =
      Json.memberDepth (inputsToJson b.inputs) + 1 := by
    cases h : inputsToJson b.inputs with
    | nil => rw [h] at hentry; cases hentry
    | cons m ms => simp [objectMember, Json.memberDepth, Json.depth]
  have hmember : (linkToJson e.2).depth ≤ Json.memberDepth (inputsToJson b.inputs) :=
    Json.depth_le_memberDepth hentry
  omega

end Block

namespace Workspace

theorem depth_toJson (w : Workspace) :
    w.toJson.depth = Json.itemDepth (w.heads.map Block.toJson) + 3 := by
  simp only [toJson, Json.depth, Json.memberDepth, Json.ofInt]
  omega

/-- **A drawing that was read can be written** within the depth of texts. -/
theorem depth_toJson_le_of_ofText {text : String} {w : Workspace} (hw : ofText text = .ok w) :
    w.toJson.depth ≤ Reader.depth := by
  have hstacks : ∀ {room d} {w : Workspace}, stacksRecord.read room d = .ok w →
      ∀ b ∈ w.heads, b.toJson.depth + 2 ≤ room := by
    intro room d w hread
    have hkept : Record.KeptBy (fun _ => True) stacksRecord.fields fun n (w : Workspace) =>
        ∀ b ∈ w.heads, b.toJson.depth + 1 ≤ n := by
      refine .cons (.cons Record.keptBy_nil ?_) fun room d w version _ hw _ => hw
      intro room d w heads _ _ hheads
      obtain ⟨inner, rfl, hfits⟩ := Reader.exists_room_of_list Block.fits_reader hheads
      exact fun b hb => Nat.succ_le_succ (hfits b hb)
    obtain ⟨inner, rfl, hheads⟩ := Record.invariant_of_read Draft.hereditary_true
      (fun _ _ hb => by cases hb) hkept room d w trivial hread
    exact fun b hb => Nat.succ_le_succ (hheads b hb)
  obtain ⟨d, -, hread⟩ := Reader.exists_of_run_eq_ok hw
  have hkept : Record.KeptBy (fun _ => True) record.fields fun n (w : Workspace) =>
      ∀ b ∈ w.heads, b.toJson.depth + 2 ≤ n :=
    .cons Record.keptBy_nil fun room d _ w _ _ hread => hstacks hread
  obtain ⟨inner, hdepth, hheads⟩ := Record.invariant_of_read Draft.hereditary_true
    (fun _ _ hb => by cases hb) hkept Reader.depth d w trivial hread
  have hitems : Json.itemDepth (w.heads.map Block.toJson) ≤ inner - 2 := by
    refine Json.itemDepth_le_iff.2 fun j hj => ?_
    obtain ⟨b, hb, rfl⟩ := List.mem_map.1 hj
    exact Nat.le_sub_of_add_le (hheads b hb)
  unfold Reader.depth at hdepth ⊢
  rw [depth_toJson]
  omega

end Workspace

end BlockRobot
