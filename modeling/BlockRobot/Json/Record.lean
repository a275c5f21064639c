import BlockRobot.Json.Reader

/-!
# Records

A record is read from an object or from an array.

*From an object*, the members may stand in any order.  A member of another name is
skipped; a field that comes a second time is refused as soon as its name is met,
and fields that do not come at all are missed at the closing bracket, in the order
of the record.

*From an array*, the items are the fields in the order of the record.  An array may
be too short if the fields it lacks can be absent, and must not be too long.

A field knows how to read its value *into* the record.  Reading begins with a blank
record that holds what absent fields are taken to be.
-/

namespace BlockRobot

/-- When a field must be there. -/
inductive Need where
  | always
  /-- An array must hold it, an object need not. -/
  | inArrays
  | never
deriving DecidableEq

/-- A field of a record of type `ρ`. -/
structure Field (ρ : Type) where
  name : String
  need : Need
  /-- Reads the value of the field and puts it into the record. -/
  fill : (room : Nat) → Draft → ρ → Except ReadError ρ

/-- A field with a reader for its value and a way to put it into the record. -/
def Field.of {ρ α : Type} (name : String) (need : Need) (r : Reader α) (put : ρ → α → ρ) :
    Field ρ :=
  ⟨name, need, fun room d record => (r room d).map (put record)⟩

/-- A sort of record: what it is called where it is expected, its fields in order,
and a record in which all of them are absent. -/
structure Record (ρ : Type) where
  name : String
  fields : List (Field ρ)
  blank : ρ

namespace Record

variable {ρ : Type}

/-- What is expected where such a record should stand. -/
def expected (record : Record ρ) : String := "struct " ++ record.name

/-- Reads members into a record and notes which fields they were. -/
def readMembers (fields : List (Field ρ)) (room : Nat) :
    List (Draft × Draft) → (seen : List String) → ρ → Except ReadError (List String × ρ)
  | [], seen, a => .ok (seen, a)
  | (key, d) :: members, seen, a => do
    let name ← key.name
    match fields.find? fun field => field.name = name with
    | none =>
      match d.skip with
      | some f => .error (.fault f)
      | none => readMembers fields room members seen a
    | some field =>
      if seen.contains name then .error (.duplicateField name)
      else do
        let a ← field.fill room d a
        readMembers fields room members (name :: seen) a

/-- The first field that has to be in an object and was not seen. -/
def missing? (fields : List (Field ρ)) (seen : List String) : Option String :=
  (fields.find? fun field => field.need = .always && !seen.contains field.name).map (·.name)

/-- Reads items into the fields of a record, in order.  `index` counts the fields
already read. -/
def readItems (tooShort : Nat → ReadError) (close : Option Fault) (room : Nat) :
    List (Field ρ) → List Draft → (index : Nat) → ρ → Except ReadError ρ
  | [], [], _, a => closing close a
  | [], _ :: _, _, _ => .error (.fault .broken)
  | field :: fields, [], index, a =>
    match close with
    | some f => .error (.fault f)
    | none =>
      if field.need = .never then readItems tooShort close room fields [] (index + 1) a
      else .error (tooShort index)
  | field :: fields, d :: ds, index, a => do
    let a ← field.fill room d a
    readItems tooShort close room fields ds (index + 1) a

/-- Reads a record. -/
def read (record : Record ρ) : Reader ρ
  | 0, .array _ _ => .error (.fault .broken)
  | 0, .object _ _ => .error (.fault .broken)
  | room + 1, .array ds close =>
    let tooShort index :=
      .invalidLength index (record.expected ++ " with " ++ elementCount record.fields.length)
    readItems tooShort close room record.fields ds 0 record.blank
  | room + 1, .object members close => do
    let (seen, a) ← readMembers record.fields room members [] record.blank
    let a ← closing close a
    match missing? record.fields seen with
    | some name => .error (.missingField name)
    | none => return a
  | _, d => .error (d.mismatch record.expected)

end Record

end BlockRobot
