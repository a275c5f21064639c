import BlockRobot.Proofs.Json.Exactness
import BlockRobot.Proofs.Json.Rooms
import BlockRobot.Proofs.Program.Text

/-!
# Programs that have been read can be written

Whatever a text looked like, the program read from it has integers of 32 bits and finite
doubles, and it is nested no deeper than the text (`Op.yields_reader`), so that it is read back
when it is written (`Program.ofText_toText_of_ofText`).

An instruction can be spelled in many ways, and no two spellings need be equally deep.  What is
written for it is never the deepest: an instruction comes from an array or an object, which is one
bracket, and a body from an array, which is one bracket more.  A side that was spelled as an
object, and members that are no parts of the instruction, are not written at all.

The induction goes along the value that an instruction is read from
(`Op.of_ofJson` and its companions).  What it carries from part to part is that the parts known
so far can be written in the room behind the bracket (`Op.Parts.Within`).
-/

namespace BlockRobot

namespace Op

/-! ## Single parts -/

theorem bounds_of_stepsOf {j : Json} {steps : Int} (h : stepsOf j = .ok steps) :
    Double.leastInteger ≤ steps ∧ steps ≤ Double.largestInteger := by
  unfold stepsOf at h
  split at h
  · split at h
    · rename_i hbounds
      obtain rfl := Except.ok.inj h
      exact hbounds
    · cases h
  · cases h

theorem isFinite_of_doubleOf {j : Json} {x : Double} (hj : j.Exact) (h : doubleOf j = .ok x) :
    x.isFinite = true := by
  unfold doubleOf at h
  split at h
  · obtain rfl := Except.ok.inj h
    exact Number.Exact.isFinite_toDouble hj
  · cases h

namespace Parts

/-- Parts that can be written, with `room` brackets for those that need brackets. -/
structure Within (room : Nat) (p : Parts) : Prop where
  steps : ∀ i, p.steps = some i → Double.leastInteger ≤ i ∧ i ≤ Double.largestInteger
  times : ∀ x, p.times = some x → x.isFinite = true
  body : ∀ ops, p.body = some ops →
    AllStorable ops ∧ (Json.array (listToJson ops)).depth ≤ room
  ms : ∀ x, p.ms = some x → x.isFinite = true

theorem within_none (room : Nat) : Within room {} := ⟨nofun, nofun, nofun, nofun⟩

theorem eq_some_of_need {α : Type} {part : Part} {found : Option α} {a : α}
    (h : need part found = .ok a) : found = some a := by
  cases found with
  | none => cases h
  | some b => exact congrArg some (Except.ok.inj h)

/-- **An instruction can be written if its parts can**, with one bracket around them. -/
theorem Within.assemble {room : Nat} {p : Parts} (hp : p.Within room) {kind : Kind} {op : Op}
    (h : p.assemble kind = .ok op) : op.Storable ∧ op.toJson.depth ≤ room + 1 := by
  have hflat : 1 ≤ room + 1 := Nat.succ_le_succ (Nat.zero_le room)
  cases kind with
  | start =>
    obtain ⟨id, -, h⟩ := exists_of_bind_eq_ok h
    obtain rfl := Except.ok.inj h
    exact ⟨trivial, hflat⟩
  | move =>
    obtain ⟨steps, hsteps, h⟩ := exists_of_bind_eq_ok h
    obtain ⟨id, -, h⟩ := exists_of_bind_eq_ok h
    obtain rfl := Except.ok.inj h
    exact ⟨hp.steps steps (eq_some_of_need hsteps), hflat⟩
  | turn =>
    obtain ⟨side, -, h⟩ := exists_of_bind_eq_ok h
    obtain ⟨id, -, h⟩ := exists_of_bind_eq_ok h
    obtain rfl := Except.ok.inj h
    exact ⟨trivial, hflat⟩
  | loop =>
    obtain ⟨times, htimes, h⟩ := exists_of_bind_eq_ok h
    obtain ⟨body, hbody, h⟩ := exists_of_bind_eq_ok h
    obtain ⟨id, -, h⟩ := exists_of_bind_eq_ok h
    obtain rfl := Except.ok.inj h
    obtain ⟨hstorable, hdepth⟩ := hp.body body (eq_some_of_need hbody)
    refine ⟨⟨hp.times times (eq_some_of_need htimes), hstorable⟩, ?_⟩
    have hloop : (toJson (.loop times body id)).depth =
        (Json.array (listToJson body)).depth + 1 := by
      simp only [toJson, Json.depth, Json.memberDepth, Json.ofDouble]
      omega
    exact hloop ▸ Nat.succ_le_succ hdepth
  | wait =>
    obtain ⟨ms, hms, h⟩ := exists_of_bind_eq_ok h
    obtain ⟨id, -, h⟩ := exists_of_bind_eq_ok h
    obtain rfl := Except.ok.inj h
    exact ⟨hp.ms ms (eq_some_of_need hms), hflat⟩

/-- **A part that is read can be written**, if a body that is read can. -/
theorem Within.fill {room : Nat} {p q : Parts} (hp : p.Within room) {part : Part} {value : Json}
    (hvalue : value.Exact)
    (hbody : ∀ {items ops}, value = .array items → listOfJson items = .ok ops →
      AllStorable ops ∧ (Json.array (listToJson ops)).depth ≤ room)
    (h : Op.fill part value p = .ok q) : q.Within room := by
  unfold Op.fill at h
  split at h
  · obtain ⟨steps, hsteps, h⟩ := exists_of_bind_eq_ok h
    obtain rfl := Except.ok.inj h
    refine { hp with steps := ?_ }
    rintro _ ⟨⟩
    exact bounds_of_stepsOf hsteps
  · obtain ⟨side, -, h⟩ := exists_of_bind_eq_ok h
    obtain rfl := Except.ok.inj h
    exact { hp with }
  · obtain ⟨times, htimes, h⟩ := exists_of_bind_eq_ok h
    obtain rfl := Except.ok.inj h
    refine { hp with times := ?_ }
    rintro _ ⟨⟩
    exact isFinite_of_doubleOf hvalue htimes
  · obtain ⟨ms, hms, h⟩ := exists_of_bind_eq_ok h
    obtain rfl := Except.ok.inj h
    refine { hp with ms := ?_ }
    rintro _ ⟨⟩
    exact isFinite_of_doubleOf hvalue hms
  · obtain ⟨id, -, h⟩ := exists_of_bind_eq_ok h
    obtain rfl := Except.ok.inj h
    exact { hp with }
  · obtain ⟨ops, hops, h⟩ := exists_of_bind_eq_ok h
    obtain rfl := Except.ok.inj h
    refine { hp with body := ?_ }
    rintro _ ⟨⟩
    exact hbody rfl hops
  · cases h

end Parts

/-! ## Values already taken -/

mutual

/-- **An instruction read from a value** can be written, and no deeper than the value. -/
theorem of_ofJson : ∀ {j : Json} {op : Op}, j.Exact → ofJson j = .ok op →
    op.Storable ∧ op.toJson.depth ≤ j.depth
  | .null, _, _, h | .bool _, _, _, h | .number _, _, _, h | .text _, _, _, h
  | .array [], _, _, h => by
    rw [ofJson.eq_def] at h
    cases h
  | .array (tag :: fields), op, hj, h => by
    have hfields : Json.itemDepth fields ≤ Json.itemDepth (tag :: fields) := Nat.le_max_right _ _
    rw [ofJson] at h
    obtain ⟨kind, -, h⟩ := exists_of_bind_eq_ok h
    obtain ⟨parts, hparts, h⟩ := exists_of_bind_eq_ok h
    exact (within_of_ofItems hj.2 hfields (Parts.within_none _) hparts).assemble h
  | .object members, op, hj, h => by
    rw [ofJson] at h
    obtain ⟨⟨kind, rest⟩, -, h⟩ := exists_of_bind_eq_ok h
    cases kind with
    | none => cases h
    | some kind =>
      obtain ⟨parts, hparts, h⟩ := exists_of_bind_eq_ok h
      exact (within_of_ofMembers hj (Nat.le_refl _) (Parts.within_none _) hparts).assemble h

theorem within_of_ofMembers : ∀ {members : List (String × Json)} {kind : Kind} {room : Nat}
    {p q : Parts}, Json.ExactMembers members → Json.memberDepth members ≤ room → p.Within room →
    ofMembers kind members p = .ok q → q.Within room
  | [], _, _, _, _, _, _, hp, h => by
    rw [ofMembers] at h
    exact Except.ok.inj h ▸ hp
  | (name, value) :: members, kind, room, p, q, ⟨hvalue, hmembers⟩, hdepth, hp, h => by
    obtain ⟨hfirst, hrest⟩ := Nat.max_le.1 hdepth
    rw [ofMembers] at h
    split at h
    · exact within_of_ofMembers hmembers hrest hp h
    · split at h
      · cases h
      · obtain ⟨filled, hfilled, h⟩ := exists_of_bind_eq_ok h
        exact within_of_ofMembers hmembers hrest (hp.fill hvalue (of_body hvalue hfirst) hfilled) h

theorem within_of_ofItems : ∀ {values : List Json} {due : List Part} {kind : Kind} {index : Nat}
    {room : Nat} {p q : Parts}, Json.ExactItems values → Json.itemDepth values ≤ room →
    p.Within room → ofItems kind due values index p = .ok q → q.Within room
  | [], [], _, _, _, _, _, _, _, hp, h => by
    rw [ofItems] at h
    exact Except.ok.inj h ▸ hp
  | [], _ :: _, _, _, _, _, _, _, _, _, h => by
    rw [ofItems] at h
    cases h
  | _ :: _, [], _, _, _, _, _, _, _, _, h => by
    rw [ofItems.eq_def] at h
    cases h
  | value :: values, part :: due, kind, index, room, p, q, ⟨hvalue, hvalues⟩, hdepth, hp, h => by
    obtain ⟨hfirst, hrest⟩ := Nat.max_le.1 hdepth
    rw [ofItems] at h
    obtain ⟨filled, hfilled, h⟩ := exists_of_bind_eq_ok h
    exact within_of_ofItems hvalues hrest (hp.fill hvalue (of_body hvalue hfirst) hfilled) h

/-- A body is read from an array, which is a bracket that it is written with. -/
theorem of_body : ∀ {value : Json} {room : Nat} {items : List Json} {ops : List Op}, value.Exact →
    value.depth ≤ room → value = .array items → listOfJson items = .ok ops →
    AllStorable ops ∧ (Json.array (listToJson ops)).depth ≤ room
  | .null, _, _, _, _, _, heq, _ | .bool _, _, _, _, _, _, heq, _
  | .number _, _, _, _, _, _, heq, _ | .text _, _, _, _, _, _, heq, _
  | .object _, _, _, _, _, _, heq, _ => by cases heq
  | .array values, _, _, _, hvalue, hdepth, heq, h => by
    obtain rfl := Json.array.inj heq
    obtain ⟨hops, hbody⟩ := of_listOfJson hvalue h
    exact ⟨hops, Nat.le_trans (Nat.succ_le_succ hbody) hdepth⟩

theorem of_listOfJson : ∀ {items : List Json} {ops : List Op}, Json.ExactItems items →
    listOfJson items = .ok ops →
    AllStorable ops ∧ Json.itemDepth (listToJson ops) ≤ Json.itemDepth items
  | [], ops, _, h => by
    rw [listOfJson] at h
    obtain rfl := Except.ok.inj h
    exact ⟨trivial, Nat.le_refl 0⟩
  | item :: items, ops, ⟨hitem, hitems⟩, h => by
    rw [listOfJson] at h
    obtain ⟨op, hop, h⟩ := exists_of_bind_eq_ok h
    obtain ⟨rest, hops, h⟩ := exists_of_bind_eq_ok h
    obtain rfl := Except.ok.inj h
    obtain ⟨hopStorable, hopDepth⟩ := of_ofJson hitem hop
    obtain ⟨hopsStorable, hopsDepth⟩ := of_listOfJson hitems hops
    refine ⟨⟨hopStorable, hopsStorable⟩, ?_⟩
    rw [listToJson, Json.itemDepth, Json.itemDepth]
    omega

end

/-! ## Drafts -/

/-- The members of an instruction that are taken as they are can be written. -/
theorem of_takeMembers {room : Nat} : ∀ {members : List (Draft × Draft)} {kind : Option Kind}
    {taken : Option Kind × List (String × Json)}, (∀ m ∈ members, m.2.Exact) →
    takeMembers room members kind = .ok taken →
    Json.ExactMembers taken.2 ∧ Json.memberDepth taken.2 ≤ room
  | [], _, _, _, h => by
    rw [takeMembers] at h
    obtain rfl := Except.ok.inj h
    exact ⟨trivial, Nat.zero_le room⟩
  | (key, d) :: members, kind, taken, hmembers, h => by
    obtain ⟨hd, hmembers⟩ := List.forall_mem_cons.1 hmembers
    rw [takeMembers.eq_def] at h
    obtain ⟨name, -, h⟩ := exists_of_bind_eq_ok h
    split at h
    · split at h
      · cases h
      · obtain ⟨found, -, h⟩ := exists_of_bind_eq_ok h
        exact of_takeMembers hmembers h
    · obtain ⟨value, hvalue, h⟩ := exists_of_bind_eq_ok h
      obtain ⟨⟨found, rest⟩, hrest, h⟩ := exists_of_bind_eq_ok h
      obtain rfl := Except.ok.inj h
      obtain ⟨hexact, hdepth⟩ := of_takeMembers hmembers hrest
      refine ⟨⟨Draft.exact_of_value hd hvalue, hexact⟩, ?_⟩
      exact Nat.max_le.2 ⟨Draft.depth_le_of_value hvalue, hdepth⟩

/-- **An instruction that was read can be written** in the room that reading it had. -/
theorem yields_reader : Reader.Yields Draft.Exact reader fun room op =>
    op.Storable ∧ op.toJson.depth ≤ room := by
  intro room d op hd h
  rw [reader.eq_def] at h
  split at h
  · cases h
  · cases h
  · obtain ⟨_, -, h⟩ := exists_of_bind_eq_ok h
    cases h
  · rename_i room tag fields close
    have hfields : ∀ d ∈ fields, d.Exact := fun d hmem =>
      Draft.hereditary_exact.items hd d (List.mem_cons_of_mem tag hmem)
    obtain ⟨kind, -, h⟩ := exists_of_bind_eq_ok h
    obtain ⟨values, hvalues, h⟩ := exists_of_bind_eq_ok h
    obtain ⟨_, hclose, h⟩ := exists_of_bind_eq_ok h
    obtain rfl := eq_of_closing_eq_ok hclose
    obtain ⟨parts, hparts, h⟩ := exists_of_bind_eq_ok h
    have hexact := Draft.exactItems_of_valueItems hfields hvalues
    have hdepth := Draft.itemDepth_le_of_valueItems hvalues
    exact (within_of_ofItems hexact hdepth (Parts.within_none room) hparts).assemble h
  · rename_i room members close
    obtain ⟨taken, htaken, h⟩ := exists_of_bind_eq_ok h
    obtain ⟨_, hclose, h⟩ := exists_of_bind_eq_ok h
    obtain rfl := eq_of_closing_eq_ok hclose
    obtain ⟨hexact, hdepth⟩ := of_takeMembers (Draft.hereditary_exact.values hd) htaken
    obtain ⟨kind, rest⟩ := taken
    cases kind with
    | none => cases h
    | some kind =>
      obtain ⟨parts, hparts, h⟩ := exists_of_bind_eq_ok h
      exact (within_of_ofMembers hexact hdepth (Parts.within_none room) hparts).assemble h
  · cases h

end Op

namespace Program

/-- What is written for a program is two brackets at least, however it was read. -/
theorem yields_record : Reader.Yields Draft.Exact record.read fun room p =>
    p.Storable ∧ p.toJson.depth ≤ max 2 room := by
  have hops := Op.yields_reader.list Draft.hereditary_exact
  have hkept : Record.KeptBy Draft.Exact record.fields fun room (p : Program) =>
      p.Storable ∧ Json.itemDepth (Op.listToJson p.ops) ≤ room - 1 := by
    refine .cons Record.keptBy_nil ?_
    intro room d p ops hd _ hread
    obtain ⟨inner, rfl, hops⟩ := hops room d ops hd hread
    refine ⟨Op.allStorable_iff.2 fun op hop => (hops op hop).1, ?_⟩
    rw [Op.listToJson_eq_map, Json.itemDepth_le_iff]
    intro j hj
    obtain ⟨op, hop, rfl⟩ := List.mem_map.1 hj
    exact (hops op hop).2
  intro room d p hd hread
  obtain ⟨inner, rfl, hp, hdepth⟩ := Record.invariant_of_read Draft.hereditary_exact
    (fun room => ⟨trivial, Nat.zero_le _⟩) hkept room d p hd hread
  have htotal : p.toJson.depth = Json.itemDepth (Op.listToJson p.ops) + 2 := by
    simp only [toJson, Json.depth, Json.memberDepth]
    omega
  exact ⟨hp, by omega⟩

/-- **A program that was read and is written is read as it was.** -/
theorem ofText_toText_of_ofText {text : String} {p : Program} (hp : ofText text = .ok p) :
    ofText p.toText = .ok p := by
  obtain ⟨d, hd, hread⟩ := Reader.exists_of_run_eq_ok hp
  obtain ⟨hstorable, hdepth⟩ := yields_record Reader.depth d p hd hread
  rw [ofText_toText hstorable]
  exact if_pos hdepth

end Program

end BlockRobot
