import BlockRobot.Proofs.Block.Places
import BlockRobot.Proofs.Block.Rooms
import BlockRobot.Proofs.Compilation.Numbers
import BlockRobot.Proofs.Program.Text

/-!
# Outcomes read back from their texts

The outcome of a compilation that was written is read as it was, provided that it is not
nested too deep (`Compilation.read_toText`).  For the outcome of a drawing two things have to
be seen to.

* *The numbers can be written.*  A block may hold any text for a number, but only finite doubles
  count, and numbers of cells are brought into the range of 32 bits (`Block.allStorable_compile`).
* *The program is not too deep.*  The texts of drawings and of programs have the same bound, and
  a loop inside a loop costs two brackets of a program.  In a drawing it costs three, so the
  program of a stack is no deeper than the stack (`Block.itemDepth_compile_le`), and what is
  written around a program is no more than what is written around a stack.
-/

namespace BlockRobot

/-! ## Numbers in instructions -/

namespace Block

variable {v : Vocabulary}

/-- The numbers in the instruction of a block can be written if those in its body can. -/
theorem storable_of_compileWith {body : List Op} (hbody : Op.AllStorable body) {b : Block} {op : Op}
    (hop : compileWith v body b = some op) : op.Storable := by
  obtain ⟨role, -, rfl⟩ := Option.map_eq_some_iff.1 hop
  cases role with
  | start => exact trivial
  | move => exact v.stepsOf_bounds b
  | back => exact v.stepsBackOf_bounds b
  | turnLeft => exact trivial
  | turnRight => exact trivial
  | loop => exact ⟨v.isFinite_timesOf b, hbody⟩
  | wait => exact v.isFinite_msOf b

/-- What holds of no instructions and of those of the stack on a link, if there is one, holds of
what the link compiles to. -/
theorem of_compile_link {P : List Op → Prop} {first : Option Block} (hnil : P [])
    (hfirst : ∀ c, first = some c → P (c.compile v)) : P ((first.map (compile v)).getD []) := by
  cases first with
  | none => exact hnil
  | some c => exact hfirst c rfl

/-- **The numbers in a compiled stack can be written.** -/
theorem allStorable_compile (v : Vocabulary) (b : Block) : Op.AllStorable (b.compile v) := by
  induction b using linkInduction with
  | step b hbelow hinputs =>
    have hbody := of_compile_link trivial (hinputs v.fields.body)
    have hrest := of_compile_link trivial hbelow
    rw [compile_eq, Op.allStorable_iff]
    intro op hop
    rcases List.mem_append.1 hop with hop | hop
    · exact storable_of_compileWith hbody (Option.mem_toList.1 hop)
    · exact Op.allStorable_iff.1 hrest op hop

/-! ## Depths -/

/-- An instruction is one bracket deep, and a loop one bracket deeper than its body. -/
theorem depth_of_compileWith {body : List Op} {b : Block} {op : Op}
    (hop : compileWith v body b = some op) :
    op.toJson.depth ≤ Json.itemDepth (Op.listToJson body) + 2 := by
  obtain ⟨role, -, rfl⟩ := Option.map_eq_some_iff.1 hop
  cases role with
  | loop =>
    have hloop : (Op.toJson (.loop (v.timesOf b) body b.id)).depth =
        Json.itemDepth (Op.listToJson body) + 2 := by
      simp only [Op.toJson, Json.depth, Json.memberDepth, Json.ofDouble]
      omega
    exact Nat.le_of_eq hloop
  | _ =>
    refine Nat.le_trans (Nat.le_of_eq (rfl : _ = 1)) ?_
    omega

/-- **The program of a stack is no deeper than the stack**, but for a loop without a body. -/
theorem itemDepth_compile_le (v : Vocabulary) (b : Block) :
    Json.itemDepth (Op.listToJson (b.compile v)) ≤ max 2 b.toJson.depth := by
  induction b using linkInduction with
  | step b hbelow hinputs =>
    have hbody : Json.itemDepth (Op.listToJson
        (((b.statement? v.fields.body).map (compile v)).getD [])) + 2 ≤ max 2 b.toJson.depth := by
      refine of_compile_link (P := fun ops => Json.itemDepth (Op.listToJson ops) + 2 ≤ _)
        (Nat.le_max_left 2 _) fun c hc => ?_
      have hcompile := hinputs v.fields.body c hc
      have hdepth := depth_statement_le hc
      have hpos := c.depth_toJson_pos
      omega
    have hrest : Json.itemDepth (Op.listToJson ((b.below?.map (compile v)).getD [])) ≤
        max 2 b.toJson.depth := by
      refine of_compile_link (P := fun ops => Json.itemDepth (Op.listToJson ops) ≤ _)
        (Nat.zero_le _) fun c hc => ?_
      have hcompile := hbelow c hc
      have hdepth := depth_below_le hc
      omega
    rw [Op.listToJson_eq_map, Json.itemDepth_le_iff] at hrest
    rw [compile_eq, Op.listToJson_eq_map, Json.itemDepth_le_iff]
    intro j hj
    obtain ⟨op, hop, rfl⟩ := List.mem_map.1 hj
    rcases List.mem_append.1 hop with hop | hop
    · exact Nat.le_trans (depth_of_compileWith (Option.mem_toList.1 hop)) hbody
    · exact hrest op.toJson (List.mem_map_of_mem hop)

end Block

namespace Workspace

variable {w : Workspace} {v : Vocabulary}

/-- Every instruction at the top of a program comes from a stack of the drawing. -/
theorem exists_head_of_mem_compile {op : Op} (hop : op ∈ (w.compile v).ops) :
    ∃ head ∈ w.heads, op ∈ head.compile v := by
  have hmem : ∀ head, head ∈ w.inOrder → head ∈ w.heads := fun head hhead =>
    (List.mergeSort_perm _ _).mem_iff.1 hhead
  unfold compile at hop
  split at hop
  · rename_i head hhead
    exact ⟨head, hmem head (List.mem_of_find?_eq_some hhead), hop⟩
  · split at hop
    · cases hop
    · rename_i head rest horder
      exact ⟨head, hmem head (horder ▸ List.mem_cons_self ..), (List.mem_filter.1 hop).1⟩

/-- The numbers in the program of a drawing can be written. -/
theorem storable_compile (w : Workspace) (v : Vocabulary) : (w.compile v).Storable := by
  refine Op.allStorable_iff.2 fun op hop => ?_
  obtain ⟨head, -, hop⟩ := exists_head_of_mem_compile hop
  exact Op.allStorable_iff.1 (head.allStorable_compile v) op hop

/-- The program of a drawing that can be read back is a bracket less deep than texts may be. -/
theorem depth_compile_lt (hw : w.toJson.depth ≤ Reader.depth) :
    (w.compile v).toJson.depth < Reader.depth := by
  have hitems : Json.itemDepth (Op.listToJson (w.compile v).ops) ≤ Reader.depth - 3 := by
    rw [Op.listToJson_eq_map, Json.itemDepth_le_iff]
    intro j hj
    obtain ⟨op, hop, rfl⟩ := List.mem_map.1 hj
    obtain ⟨head, hhead, hop⟩ := exists_head_of_mem_compile hop
    have hstack := head.itemDepth_compile_le v
    rw [Op.listToJson_eq_map, Json.itemDepth_le_iff] at hstack
    have hdepth := hstack op.toJson (List.mem_map_of_mem hop)
    have hdrawn : head.toJson.depth ≤ Json.itemDepth (w.heads.map Block.toJson) :=
      Json.depth_le_itemDepth (List.mem_map_of_mem hhead)
    rw [depth_toJson] at hw
    unfold Reader.depth at *
    omega
  have hprogram : (w.compile v).toJson.depth =
      Json.itemDepth (Op.listToJson (w.compile v).ops) + 2 := by
    simp only [Program.toJson, Json.depth, Json.memberDepth]
    omega
  unfold Reader.depth at *
  omega

end Workspace

/-! ## Reading back -/

namespace Reader

variable {α : Type} {limit : Nat}

theorem reads_bool (b : Bool) : Reads limit bool (.bool b) b := fun _ _ => rfl

theorem reads_null (r : Reader α) : Reads limit (option r) .null none := fun _ _ => rfl

theorem reads_choice {known : List (String × α)} {name : String} {a : α}
    (h : pick known name = .ok a) : Reads limit (choice known) (.text name) a := fun _ _ => h

end Reader

namespace Diagnostic

/-- A diagnostic is read back if its code has 16 bits. -/
theorem reads_record {d : Diagnostic} (hd : d.code < 2 ^ 16) (limit : Nat) :
    Reader.Reads limit record.read d.toJson d := by
  obtain ⟨code, category, message⟩ := d
  have hcategory : Reader.pick Category.known category.name = .ok category := by
    cases category <;> rfl
  have hmembers : Record.ReadsMembers limit record.fields
      [("code", .ofInt code), ("category", .text category.name), ("message", .text message)]
      record.blank ⟨code, category, message⟩ :=
    .cons rfl (Reader.reads_natural hd _) <| .cons rfl (Reader.reads_choice hcategory) <|
      .cons rfl (Reader.reads_text message) <| Record.readsMembers_nil _
  have hnodup : ["code", "category", "message"].Nodup := by decide
  have hneeded : ∀ name ∈ record.needed, name ∈ ["code", "category", "message"] := by decide
  exact (hmembers.read hnodup hneeded).mono (Nat.le_succ limit)

theorem exact_toJson {d : Diagnostic} (hd : d.code < 2 ^ 16) : d.toJson.Exact := by
  have hcode : -2 ^ 63 ≤ (d.code : Int) ∧ (d.code : Int) < 2 ^ 64 := by omega
  exact ⟨hcode, trivial, trivial, trivial⟩

theorem depth_toJson (d : Diagnostic) : d.toJson.depth = 1 := rfl

end Diagnostic

namespace Compilation

/-- An outcome whose numbers can be held in memory and written. -/
structure Storable (c : Compilation) : Prop where
  program : ∀ p, c.program = some p → p.Storable
  errors : ∀ d ∈ c.errors, d.code < 2 ^ 16

theorem exact_toJson {c : Compilation} (hc : c.Storable) : c.toJson.Exact := by
  obtain ⟨success, program, errors⟩ := c
  have hprogram : ((program.map Program.toJson).getD .null).Exact := by
    cases program with
    | none => exact trivial
    | some p => exact Program.exact_toJson (hc.program p rfl)
  have herrors : Json.ExactItems (errors.map Diagnostic.toJson) := by
    refine Json.exactItems_of_forall fun j hj => ?_
    obtain ⟨d, hd, rfl⟩ := List.mem_map.1 hj
    exact Diagnostic.exact_toJson (hc.errors d hd)
  exact ⟨trivial, hprogram, herrors, trivial⟩

theorem reads_record {c : Compilation} (hc : c.Storable) (limit : Nat) :
    Reader.Reads limit record.read c.toJson c := by
  obtain ⟨success, program, errors⟩ := c
  have hprogram : Reader.Reads limit (.option Program.record.read)
      ((program.map Program.toJson).getD .null) program := by
    cases program with
    | none => exact Reader.reads_null _
    | some p => exact (Program.reads_record (hc.program p rfl) limit).option
  have herrors : Reader.Reads limit (.list Diagnostic.record.read)
      (.array (errors.map Diagnostic.toJson)) errors :=
    (Reader.reads_list fun d hd => Diagnostic.reads_record (hc.errors d hd) limit).mono
      (Nat.le_succ limit)
  have hmembers : Record.ReadsMembers limit record.fields
      [("success", .bool success), ("program", (program.map Program.toJson).getD .null),
        ("errors", .array (errors.map Diagnostic.toJson))]
      record.blank ⟨success, program, errors⟩ :=
    .cons rfl (Reader.reads_bool success) <| .cons rfl hprogram <| .cons rfl herrors <|
      Record.readsMembers_nil _
  have hnodup : ["success", "program", "errors"].Nodup := by decide
  have hneeded : ∀ name ∈ record.needed, name ∈ ["success", "program", "errors"] := by decide
  exact (hmembers.read hnodup hneeded).mono (Nat.le_succ limit)

/-- **An outcome that was written is read as it was**, if there is room for its brackets. -/
theorem read_toText {c : Compilation} (hc : c.Storable) :
    read c.toText = within Reader.depth c.toJson.depth c := by
  rw [read, toText, Reader.run_toText record.read (exact_toJson hc)]
  exact reads_record hc Reader.depth Reader.depth (Nat.le_refl _)

/-- An outcome is a bracket deeper than its program, and three brackets deep if there is none. -/
theorem depth_toJson_le {c : Compilation} {n : Nat} (hn : 2 ≤ n)
    (hprogram : ∀ p, c.program = some p → p.toJson.depth ≤ n) : c.toJson.depth ≤ n + 1 := by
  obtain ⟨success, program, errors⟩ := c
  have hjson : ((program.map Program.toJson).getD .null).depth ≤ n := by
    cases program with
    | none => exact Nat.zero_le n
    | some p => exact hprogram p rfl
  have hitems : Json.itemDepth (errors.map Diagnostic.toJson) ≤ 1 := by
    refine Json.itemDepth_le_iff.2 fun j hj => ?_
    obtain ⟨d, -, rfl⟩ := List.mem_map.1 hj
    exact Nat.le_of_eq d.depth_toJson
  simp only [toJson, Json.depth, Json.memberDepth]
  omega

end Compilation

end BlockRobot
