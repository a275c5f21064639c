import BlockRobot.Compilation
import BlockRobot.Proofs.Block.Rooms

/-!
# The normal form of a drawing

There are many texts for one drawing: members in any order, members that nobody knows, arrays
for objects, nulls for what is absent, numbers spelled in many ways.  Writing a drawing that was
read picks one of them, and reading that one gives the same drawing back
(`Workspace.rewriting_is_lossless`).

Two halves meet here.  One is known: a drawing that can be held in memory and written is read
back, if its brackets fit (`Workspace.ofText_toText`), and the brackets of a drawing that was read
do fit (`Workspace.depth_toJson_le_of_ofText`).  The other is that whatever was read can be written
(`Workspace.storable_of_ofText`): its numbers are finite, its fields and inputs are in order and
have no name twice, and the values in its fields are in normal form.
-/

namespace BlockRobot

namespace Block

variable {r : Reader Block}

/-! ## Storable links -/

/-- A link whose blocks can be held in memory and written. -/
def LinkStorable (l : Link Block) : Prop := BlockStorable l.block ∧ BlockStorable l.shadow

theorem inputsStorable_iff {inputs : List (String × Link Block)} :
    InputsStorable inputs ↔ ∀ e ∈ inputs, LinkStorable e.2 := by
  induction inputs with
  | nil => exact iff_of_true trivial nofun
  | cons e inputs ih => rw [InputsStorable, ih, List.forall_mem_cons, LinkStorable]

theorem nextStorable_of_forall {next : Option (Link Block)}
    (h : ∀ l, next = some l → LinkStorable l) : NextStorable next := by
  cases next with
  | none => exact trivial
  | some l => exact h l rfl

theorem blockStorable_of_forall {block : Option Block}
    (h : ∀ b, block = some b → b.Storable) : BlockStorable block := by
  cases block with
  | none => exact trivial
  | some b => exact h b rfl

/-! ## What is read can be written -/

/-- A link can be written if the blocks in it can. -/
theorem yields_linkRecord (hr : Reader.Yields Draft.Exact r fun _ b => b.Storable) :
    Reader.Yields Draft.Exact (linkRecord r).read fun _ l => LinkStorable l := by
  have hkept : Record.KeptBy Draft.Exact (linkRecord r).fields fun _ l => LinkStorable l := by
    refine .cons (.cons Record.keptBy_nil ?_) ?_
    · exact fun room d l shadow hd hl hread =>
        ⟨hl.1, blockStorable_of_forall (hr.option room d shadow hd hread)⟩
    · exact fun room d l block hd hl hread =>
        ⟨blockStorable_of_forall (hr.option room d block hd hread), hl.2⟩
  intro room d l hd hread
  obtain ⟨_, -, hl⟩ := Record.invariant_of_read Draft.hereditary_exact
    (fun _ => ⟨trivial, trivial⟩) hkept room d l hd hread
  exact hl

/-- **A block can be written if the blocks inside can.** -/
theorem yields_record (hr : Reader.Yields Draft.Exact r fun _ b => b.Storable) :
    Reader.Yields Draft.Exact (record r).read fun _ b => b.Storable := by
  have hfields := Reader.yields_json.byName Draft.hereditary_exact
  have hinputs := (yields_linkRecord hr).byName Draft.hereditary_exact
  have hnext := (yields_linkRecord hr).option
  have hkept : Record.KeptBy Draft.Exact (record r).fields fun _ b => b.Storable := by
    refine .cons (.cons (.cons (.cons (.cons (.cons (.cons Record.keptBy_nil ?_) ?_) ?_) ?_) ?_) ?_)
      ?_
    case refine_1 =>
      rintro room d ⟨⟩ next hd ⟨hx, hy, hf, hi, -⟩ hread
      exact ⟨hx, hy, hf, hi, nextStorable_of_forall (hnext room d next hd hread)⟩
    case refine_2 =>
      rintro room d ⟨⟩ inputs hd ⟨hx, hy, hf, -, hn⟩ hread
      obtain ⟨_, -, hsorted, hlinks⟩ := hinputs room d inputs hd hread
      exact ⟨hx, hy, hf, ⟨hsorted, inputsStorable_iff.2 hlinks⟩, hn⟩
    case refine_3 =>
      rintro room d ⟨⟩ fields hd ⟨hx, hy, -, hi, hn⟩ hread
      obtain ⟨_, -, hsorted, hvalues⟩ := hfields room d fields hd hread
      have hexact : Json.ExactMembers fields :=
        Json.exactMembers_iff.2 fun e he => (hvalues e he).1
      exact ⟨hx, hy, ⟨hsorted, hexact, fun e he => (hvalues e he).2⟩, hi, hn⟩
    case refine_4 =>
      rintro room d ⟨⟩ y hd ⟨hx, -, hrest⟩ hread
      exact ⟨hx, Reader.yields_double room d y hd hread, hrest⟩
    case refine_5 =>
      rintro room d ⟨⟩ x hd ⟨-, hrest⟩ hread
      exact ⟨Reader.yields_double room d x hd hread, hrest⟩
    all_goals
      rintro room d ⟨⟩ name - hb -
      exact hb
  have hblank : (bare "" "").Storable :=
    ⟨rfl, rfl, ⟨.nil, trivial, nofun⟩, ⟨.nil, trivial⟩, trivial⟩
  intro room d b hd hread
  obtain ⟨_, -, hb⟩ := Record.invariant_of_read Draft.hereditary_exact
    (fun _ => hblank) hkept room d b hd hread
  exact hb

/-- A block that was read can be written. -/
theorem yields_reader : Reader.Yields Draft.Exact reader fun _ b => b.Storable :=
  Reader.yields_recursive fun _ => yields_record

end Block

namespace Workspace

/-- **A drawing that was read can be written.** -/
theorem storable_of_ofText {text : String} {w : Workspace} (hw : ofText text = .ok w) :
    w.Storable := by
  have hblank : (⟨0, []⟩ : Workspace).Storable := ⟨by decide, nofun⟩
  have hstacks : Reader.Yields Draft.Exact stacksRecord.read fun _ w => w.Storable := by
    have hkept : Record.KeptBy Draft.Exact stacksRecord.fields fun _ w => w.Storable := by
      refine .cons (.cons Record.keptBy_nil ?_) ?_
      · intro room d w heads hd hw hread
        obtain ⟨_, -, hheads⟩ :=
          Block.yields_reader.list Draft.hereditary_exact room d heads hd hread
        exact ⟨hw.1, hheads⟩
      · exact fun room d w version hd hw hread =>
          ⟨Reader.yields_natural room d version hd hread, hw.2⟩
    intro room d w hd hread
    obtain ⟨_, -, hw⟩ := Record.invariant_of_read Draft.hereditary_exact (fun _ => hblank) hkept
      room d w hd hread
    exact hw
  have hkept : Record.KeptBy Draft.Exact record.fields fun _ w => w.Storable :=
    .cons Record.keptBy_nil fun room d _ w hd _ hread => hstacks room d w hd hread
  obtain ⟨d, hd, hread⟩ := Reader.exists_of_run_eq_ok hw
  obtain ⟨_, -, hw⟩ := Record.invariant_of_read Draft.hereditary_exact (fun _ => hblank) hkept
    Reader.depth d w hd hread
  exact hw

/-- **A drawing that was read and is written is read as it was**, so that it compiles to the same
outcome in every vocabulary. -/
theorem rewriting_is_lossless {text : String} {w : Workspace} (hw : ofText text = .ok w) :
    ofText w.toText = .ok w ∧
      ∀ v : Vocabulary, Compilation.ofText w.toText v = Compilation.ofText text v := by
  have hread : ofText w.toText = .ok w := by
    rw [ofText_toText (storable_of_ofText hw), within,
      if_pos (depth_toJson_le_of_ofText hw)]
  refine ⟨hread, fun v => ?_⟩
  rw [Compilation.ofText, Compilation.ofText, hread, hw]

/-- A drawing whose stacks are an array and whose only block has its members in any order, with a
member that nobody knows and an integer for a double. -/
def looseText : String :=
  "\x7b\"z\":[],\"blocks\":[1,[\x7b\"y\":2,\"next\":\x7b\x7d,\"type\":\"b\"," ++
    "\"fields\":\x7b\"k\":1e0,\"a\":null\x7d\x7d]]\x7d"

/-- The same drawing as it is written. -/
def tidyText : String :=
  "\x7b\"blocks\":\x7b\"languageVersion\":1,\"blocks\":[\x7b\"type\":\"b\",\"id\":\"\"," ++
    "\"x\":0.0,\"y\":2.0,\"fields\":\x7b\"a\":null,\"k\":1.0\x7d,\"next\":\x7b\x7d\x7d]\x7d\x7d"

/-- The loose text is read, its drawing is written as the tidy text, and the two texts have the
same drawing and the same outcomes. -/
theorem tidyText_is_lossless : ∃ w, ofText looseText = .ok w ∧ ofText tidyText = .ok w ∧
    ∀ v : Vocabulary, Compilation.ofText tidyText v = Compilation.ofText looseText v := by
  have hwritten : (ofText looseText).toOption.map toText = some tidyText := by decide +kernel
  obtain ⟨w, hloose, htidy⟩ := exists_of_toOption_map_eq_some hwritten
  obtain ⟨hread, hsame⟩ := rewriting_is_lossless hloose
  rw [htidy] at hread hsame
  exact ⟨w, hloose, hread, hsame⟩

end Workspace

end BlockRobot
