import BlockRobot.Double.Shortest
import BlockRobot.Text.Quoted

/-!
# JSON values and their text

`Json` keeps an object as the list of its members, in order and with repetitions,
because several readers care about both.  Where a value is stored and not merely
passed through, it is stored in *normal form* (`Json.normal`): members sorted by
name, of a repeated name the last one, at every depth.

`Json.render` writes the compact text: no blanks, integers as integers, doubles by
their shortest digits with a point or a power of ten so that they read back as
doubles, and `null` for the doubles that JSON cannot write.
-/

namespace BlockRobot

/-! ## Lists sorted by name -/

/-- Puts `a` under `name` into a list sorted by name, replacing what stands there. -/
def putByName {α : Type} (name : String) (a : α) : List (String × α) → List (String × α)
  | [] => [(name, a)]
  | (key, b) :: rest =>
    if name < key then (name, a) :: (key, b) :: rest
    else if name = key then (name, a) :: rest
    else (key, b) :: putByName name a rest

/-- The list sorted by name in which, of several entries of one name, the last is
kept. -/
def sortByName {α : Type} (entries : List (String × α)) : List (String × α) :=
  entries.foldl (fun sorted entry => putByName entry.1 entry.2 sorted) []

/-- The first entry under a name. -/
def getByName? {α : Type} (name : String) (entries : List (String × α)) : Option α :=
  (entries.find? fun entry => entry.1 = name).map (·.2)

@[simp] theorem getByName?_nil {α : Type} (name : String) :
    getByName? name ([] : List (String × α)) = none := rfl

theorem getByName?_cons {α : Type} (name key : String) (a : α) (rest : List (String × α)) :
    getByName? name ((key, a) :: rest) = if key = name then some a else getByName? name rest := by
  by_cases h : key = name <;> simp [getByName?, h]

/-- What was put under a name is found under it. -/
theorem getByName?_putByName_self {α : Type} (name : String) (a : α)
    (entries : List (String × α)) : getByName? name (putByName name a entries) = some a := by
  induction entries with
  | nil => simp [putByName, getByName?_cons]
  | cons entry rest ih =>
    obtain ⟨key, b⟩ := entry
    simp only [putByName]
    split
    · simp [getByName?_cons]
    · split
      · simp [getByName?_cons]
      · rename_i h
        rw [getByName?_cons, if_neg fun e => h e.symm, ih]

/-! ## Values -/

/-- A number of a JSON text: an integer of at most 64 bits, or a double. -/
inductive Number where
  | integer (i : Int)
  | double (d : Double)
deriving DecidableEq

/-- A JSON value, the members of an object in the order of the text. -/
inductive Json where
  | null
  | bool (b : Bool)
  | number (n : Number)
  | text (s : String)
  | array (items : List Json)
  | object (members : List (String × Json))

namespace Number

/-- The double a number stands for; integers beyond 53 binary digits are rounded. -/
def toDouble : Number → Double
  | .integer i => .ofInt i
  | .double d => d

/-- The text of a number. -/
def render : Number → List Char
  | .integer i => (if i < 0 then ['-'] else []) ++ Nat.toDigits 10 i.natAbs
  | .double d => if d.isFinite then d.text else ['n', 'u', 'l', 'l']

end Number

namespace Json

instance : Inhabited Json := ⟨null⟩

mutual

/-- A value with the members of every object sorted and without repetitions. -/
def normal : Json → Json
  | null => null
  | bool b => bool b
  | number n => number n
  | text s => text s
  | array items => array (normalItems items)
  | object members => object (sortByName (normalMembers members))

/-- The items of an array, each in normal form. -/
def normalItems : List Json → List Json
  | [] => []
  | item :: items => normal item :: normalItems items

/-- The members of an object, each value in normal form. -/
def normalMembers : List (String × Json) → List (String × Json)
  | [] => []
  | (name, value) :: members => (name, normal value) :: normalMembers members

end

/-! ## Text -/

mutual

/-- The compact text of a value. -/
def render : Json → List Char
  | null => ['n', 'u', 'l', 'l']
  | bool true => ['t', 'r', 'u', 'e']
  | bool false => ['f', 'a', 'l', 's', 'e']
  | number n => n.render
  | text s => Quoted.quote s.toList
  | array [] => ['[', ']']
  | array (item :: items) => '[' :: render item ++ renderItems items
  | object [] => ['\x7b', '\x7d']
  | object ((name, value) :: members) =>
    '\x7b' :: Quoted.quote name.toList ++ ':' :: render value ++ renderMembers members

/-- The items after the first, and the end of their array. -/
def renderItems : List Json → List Char
  | [] => [']']
  | item :: items => ',' :: render item ++ renderItems items

/-- The members after the first, and the end of their object. -/
def renderMembers : List (String × Json) → List Char
  | [] => ['\x7d']
  | (name, value) :: members =>
    ',' :: Quoted.quote name.toList ++ ':' :: render value ++ renderMembers members

end

/-- The compact text of a value, as a string. -/
def toText (j : Json) : String := .ofList j.render

/-- An integer as a value. -/
def ofInt (i : Int) : Json := number (.integer i)

/-- A double as a value. -/
def ofDouble (d : Double) : Json := number (.double d)

end Json

end BlockRobot
