import BlockRobot.Proofs.Compilation.Transparency
import BlockRobot.Proofs.Json.Solitary

/-!
# A number counts as it is spelled

A field may hold a number, or a text that spells it.  Whichever of the two it holds, the same is
read from it (`Number.SpelledBy.asDouble?_eq`), so either may stand for the other anywhere in a
drawing, and the program stays the same (`Workspace.compile_eq_of_respelled`).

* A text spells a number if it is a JSON text of that number with blanks around it.  So whoever
  reads the drawing and whoever reads the field go by different grammars, and round at different
  times.  That they come to one double is a matter of numerals alone
  (`Reader.exists_numeral_of_run`).
* `Block.Respelled` says where one value can be exchanged: in a field of any block, in a stack, in
  an input or in a shadow, also where the compiler never looks.
* A block is asked for numbers under names, by those that look at it and by the block it is plugged
  into.  What they can see of its fields is `Block.numbers`, and that is what an exchange keeps
  (`Block.Respelled.head_eq`).
-/

namespace BlockRobot

/-! ## Spelling a number -/

/-- A text spells a number if a JSON text of the number is left when the blanks around it are taken
off. -/
inductive Number.SpelledBy (n : Number) : String → Prop
  | mk {before after : List Char} {literal : String} (hbefore : ∀ c ∈ before, isBlank c = true)
      (hafter : ∀ c ∈ after, isBlank c = true)
      (hread : Reader.json.run literal = .ok (.number n)) :
      SpelledBy n (.ofList (before ++ literal.toList ++ after))

/-- **A number and a text that spells it count as one finite double.** -/
theorem Number.SpelledBy.asDouble?_eq {n : Number} {s : String} (h : n.SpelledBy s) :
    (Json.number n).asDouble? = some n.toDouble ∧ (Json.text s).asDouble? = some n.toDouble := by
  cases h with
  | @mk before after literal hbefore hafter hread =>
    obtain ⟨front, cs, back, k, hliteral, hfront, hback, hlaid, hk⟩ :=
      Reader.exists_numeral_of_run hread
    constructor
    · exact if_pos (hk.toDouble_eq ▸ hk.isFinite)
    · have hsplit : before ++ literal.toList ++ after =
          (before ++ front) ++ cs ++ (back ++ after) := by
        rw [hliteral]
        simp
      rw [Json.asDouble?, String.toList_ofList, hsplit]
      exact hk.ofText?_trimBlanks hlaid (List.forall_mem_append.2 ⟨hbefore, hfront⟩)
        (List.forall_mem_append.2 ⟨hback, hafter⟩)

/-! ## One entry of a list of names -/

section Entries

variable {α : Type}

/-- Under a name one finds the entry that is exchanged, or the same before and after. -/
theorem getByName?_exchange (before after : List (String × α)) (name other : String) (a a' : α) :
    getByName? other (before ++ (name, a') :: after) =
        getByName? other (before ++ (name, a) :: after) ∨
      getByName? other (before ++ (name, a) :: after) = some a ∧
        getByName? other (before ++ (name, a') :: after) = some a' := by
  induction before with
  | nil =>
    rw [List.nil_append, List.nil_append, getByName?_cons, getByName?_cons]
    by_cases hname : name = other
    · exact Or.inr ⟨if_pos hname, if_pos hname⟩
    · exact Or.inl (by rw [if_neg hname, if_neg hname])
  | cons entry before ih =>
    obtain ⟨key, b⟩ := entry
    rw [List.cons_append, List.cons_append, getByName?_cons, getByName?_cons]
    by_cases hkey : key = other
    · exact Or.inl (by rw [if_pos hkey, if_pos hkey])
    · rw [if_neg hkey, if_neg hkey]
      exact ih

theorem getByName?_map {β : Type} (f : α → β) (name : String) (entries : List (String × α)) :
    getByName? name (entries.map fun entry => (entry.1, f entry.2)) =
      (getByName? name entries).map f := by
  induction entries with
  | nil => rfl
  | cons entry entries ih =>
    obtain ⟨key, a⟩ := entry
    rw [List.map_cons, getByName?_cons, getByName?_cons, ih]
    split <;> rfl

/-- Whatever is put under a name stands at the same place. -/
theorem exists_putByName_eq_append (name : String) (entries : List (String × α)) :
    ∃ before after, ∀ a, putByName name a entries = before ++ (name, a) :: after := by
  induction entries with
  | nil => exact ⟨[], [], fun a => rfl⟩
  | cons entry entries ih =>
    obtain ⟨key, b⟩ := entry
    simp only [putByName]
    split
    · exact ⟨[], (key, b) :: entries, fun a => rfl⟩
    · split
      · exact ⟨[], entries, fun a => rfl⟩
      · obtain ⟨before, after, hput⟩ := ih
        exact ⟨(key, b) :: before, after, fun a => by rw [hput, List.cons_append]⟩

end Entries

namespace Block

/-- A block with a value put into a field. -/
def withField (b : Block) (name : String) (value : Json) : Block :=
  { b with fields := putByName name value b.fields }

/-- A block with a link put into an input. -/
def withInput (b : Block) (name : String) (link : Link Block) : Block :=
  { b with inputs := putByName name link b.inputs }

/-- A number that is put into a field is read from it, whatever is plugged in. -/
theorem number?_withField (b : Block) (field : String) {value : Json} {d : Double}
    (hvalue : value.asDouble? = some d) : (b.withField field value).number? field = some d := by
  rw [number?, withField, getByName?_putByName_self, Option.bind_some, hvalue]

/-! ## Exchanging a number for its spelling -/

/-- A text that spells a number takes the place of the number, in a field of a block or of anything
that hangs on it. -/
inductive Respelled : Block → Block → Prop
  /-- The block itself holds the number. -/
  | here {b : Block} {n : Number} {s field : String} {before after : List (String × Json)}
      (hs : n.SpelledBy s) (hfields : b.fields = before ++ (field, .number n) :: after) :
      Respelled b { b with fields := before ++ (field, .text s) :: after }
  /-- A block holds the number that hangs somewhere on the next one. -/
  | withinNext {b c c' : Block} {link link' : Link Block} (hc : Respelled c c')
      (hlink : Link.Exchanged c c' link link') (hnext : b.next = some link) :
      Respelled b { b with next := some link' }
  /-- A block holds the number that hangs somewhere on what is plugged into an input. -/
  | withinInput {b c c' : Block} {name : String} {link link' : Link Block}
      {before after : List (String × Link Block)} (hc : Respelled c c')
      (hlink : Link.Exchanged c c' link link')
      (hinputs : b.inputs = before ++ (name, link) :: after) :
      Respelled b { b with inputs := before ++ (name, link') :: after }

theorem respelled_withField {n : Number} {s : String} (hs : n.SpelledBy s) (b : Block)
    (field : String) :
    Respelled (b.withField field (.number n)) (b.withField field (.text s)) := by
  obtain ⟨before, after, hput⟩ := exists_putByName_eq_append field b.fields
  rw [withField, withField, hput (.text s)]
  exact .here hs (hput (.number n))

theorem Respelled.withInput {c c' : Block} {link link' : Link Block} (hc : Respelled c c')
    (hlink : Link.Exchanged c c' link link') (b : Block) (input : String) :
    Respelled (b.withInput input link) (b.withInput input link') := by
  obtain ⟨before, after, hput⟩ := exists_putByName_eq_append input b.inputs
  rw [Block.withInput, Block.withInput, hput link']
  exact .withinInput hc hlink (hput link)

/-! ## What is seen of a block -/

/-- The fields of a block as far as numbers are read from them. -/
def numbers (b : Block) : List (String × Option Double) :=
  b.fields.map fun field => (field.1, field.2.asDouble?)

/-- Under a name a block has the number of its field, or else the first number of what is plugged
in. -/
theorem number?_eq (b : Block) (name : String) :
    b.number? name = (getByName? name b.numbers).join.or
      ((((getByName? name b.inputs).bind Link.target?).map numbers).bind fun fields =>
        fields.findSome? Prod.snd) := by
  have hplugged : (((getByName? name b.inputs).bind Link.target?).bind fun value =>
        value.fields.findSome? fun field => field.2.asDouble?) =
      (((getByName? name b.inputs).bind Link.target?).map numbers).bind fun fields =>
        fields.findSome? Prod.snd := by
    cases (getByName? name b.inputs).bind Link.target? with
    | none => rfl
    | some value =>
      show _ = (value.numbers).findSome? Prod.snd
      rw [numbers, List.findSome?_map]
      rfl
  have hown : (getByName? name b.fields).bind Json.asDouble? =
      (getByName? name b.numbers).join := by
    rw [numbers, getByName?_map]
    cases getByName? name b.fields <;> rfl
  rw [number?, hplugged, hown]
  cases (getByName? name b.numbers).join <;> rfl

/-- What is seen of a block in passing is not changed by a spelling. -/
theorem Respelled.head_eq {b b' : Block} (h : Respelled b b') :
    b'.tag = b.tag ∧ b'.id = b.id ∧ b'.x = b.x ∧ b'.y = b.y ∧ b'.numbers = b.numbers := by
  cases h with
  | here hs hfields =>
    obtain ⟨hnumber, htext⟩ := hs.asDouble?_eq
    refine ⟨rfl, rfl, rfl, rfl, ?_⟩
    rw [numbers, numbers, hfields]
    simp only [List.map_append, List.map_cons, hnumber, htext]
  | withinNext hc hlink hnext => exact ⟨rfl, rfl, rfl, rfl, rfl⟩
  | withinInput hc hlink hinputs => exact ⟨rfl, rfl, rfl, rfl, rfl⟩

/-- The same numbers are read from a link if the block exchanged has the same numbers. -/
theorem numbers_of_exchanged {c c' : Block} {link link' : Link Block}
    (h : Link.Exchanged c c' link link') (hnumbers : c'.numbers = c.numbers) :
    link'.target?.map numbers = link.target?.map numbers := by
  cases h with
  | block shadow => exact congrArg some hnumbers
  | shadow block =>
    cases block with
    | none => exact congrArg some hnumbers
    | some _ => rfl

/-- What is read from what is plugged in is not changed by a spelling. -/
theorem Respelled.plugged_eq {b b' : Block} (h : Respelled b b') (name : String) :
    ((getByName? name b'.inputs).bind Link.target?).map numbers =
      ((getByName? name b.inputs).bind Link.target?).map numbers := by
  cases h with
  | here hs hfields => rfl
  | withinNext hc hlink hnext => rfl
  | @withinInput _ c c' input link link' before after hc hlink hinputs =>
    rw [hinputs]
    dsimp only
    rcases getByName?_exchange before after input name link link' with hsame | ⟨hlink₁, hlink₂⟩
    · rw [hsame]
    · rw [hlink₁, hlink₂]
      exact numbers_of_exchanged hlink hc.head_eq.2.2.2.2

/-- **A block has the same numbers however they are spelled.** -/
theorem Respelled.number?_eq {b b' : Block} (h : Respelled b b') (name : String) :
    b'.number? name = b.number? name := by
  rw [Block.number?_eq, Block.number?_eq, h.head_eq.2.2.2.2, h.plugged_eq name]

variable {v : Vocabulary}

/-- **A stack compiles to the same however its numbers are spelled.** -/
theorem Respelled.compile_eq {b b' : Block} (h : Respelled b b') :
    b'.compile v = b.compile v := by
  have hop : ∀ {b b' : Block}, Respelled b b' → ∀ body,
      compileWith v body b' = compileWith v body b := fun h =>
    compileWith_congr h.head_eq.1 h.head_eq.2.1 h.number?_eq
  induction h with
  | here hs hfields => exact compile_congr (hop (.here hs hfields)) rfl rfl
  | @withinNext b c c' link link' hc hlink hnext ih =>
    refine compile_congr (hop (.withinNext hc hlink hnext)) rfl ?_
    show compileBlock v link'.block = compileBlock v b.below?
    rw [compileBlock_of_exchanged hlink ih, below?, hnext]
    rfl
  | @withinInput b c c' name link link' before after hc hlink hinputs ih =>
    refine compile_congr (hop (.withinInput hc hlink hinputs)) ?_ rfl
    show compileBlock v
        ((getByName? v.fields.body (before ++ (name, link') :: after)).bind Link.block) =
      compileBlock v (b.statement? v.fields.body)
    rw [statement?, hinputs]
    rcases getByName?_exchange before after name v.fields.body link link' with
      hsame | ⟨hlink₁, hlink₂⟩
    · rw [hsame]
    · rw [hlink₁, hlink₂]
      exact compileBlock_of_exchanged hlink ih

end Block

/-! ## Drawings -/

namespace Workspace

/-- In one stack of a drawing a text that spells a number takes the place of the number. -/
inductive Respelled : Workspace → Workspace → Prop
  | stack (version : Nat) (before : List Block) {b b' : Block} (after : List Block)
      (hb : Block.Respelled b b') :
      Respelled ⟨version, before ++ b :: after⟩ ⟨version, before ++ b' :: after⟩

theorem Respelled.compile_eq {v : Vocabulary} {w w' : Workspace} (h : Respelled w w') :
    w'.compile v = w.compile v := by
  cases h with
  | @stack version before b b' after hb =>
    obtain ⟨htag, -, hx, hy, -⟩ := hb.head_eq
    have hsight : sight v b' = sight v b := by
      rw [sight, sight, hb.compile_eq, hx, hy, Vocabulary.isStart, htag]
      rfl
    refine compile_eq_of_sights ?_
    rw [List.map_append, List.map_append, List.map_cons, List.map_cons, hsight]

/-- A drawing compiles to the same program however its numbers are spelled. -/
theorem compile_eq_of_respelled {v : Vocabulary} {w w' : Workspace}
    (h : Relation.EqvGen Respelled w w') : w'.compile v = w.compile v := by
  induction h with
  | rel w w' h => exact h.compile_eq
  | refl w => rfl
  | symm w w' _ ih => exact ih.symm
  | trans w w' w'' _ _ ih ih' => exact ih'.trans ih

end Workspace

/-- **A number counts as it is spelled.**  A number and a text that spells it, with any blanks
around it, give the same finite double where they stand in a field that is asked for it.  Where they
stand in a field of a block or a shadow that is plugged into an input, the same numbers are read,
from this input as from all others.  So a drawing compiles to the same program after any number of
exchanges of the two, at any depth. -/
theorem numbers_count_as_spelled :
    (∀ (n : Number) (s : String), n.SpelledBy s → ∀ (b : Block) (field : String),
      (b.withField field (.number n)).number? field = some n.toDouble ∧
        (b.withField field (.text s)).number? field = some n.toDouble) ∧
    (∀ (n : Number) (s : String), n.SpelledBy s → ∀ (value : Block) (field : String)
      (link link' : Link Block), Link.Exchanged (value.withField field (.number n))
        (value.withField field (.text s)) link link' → ∀ (b : Block) (input name : String),
          (b.withInput input link').number? name = (b.withInput input link).number? name) ∧
      ∀ (v : Vocabulary) (w w' : Workspace), Relation.EqvGen Workspace.Respelled w w' →
        w'.compile v = w.compile v := by
  refine ⟨fun n s hs b field => ?_, fun n s hs value field link link' hlink b input name => ?_,
    fun v w w' h => Workspace.compile_eq_of_respelled h⟩
  · obtain ⟨hnumber, htext⟩ := hs.asDouble?_eq
    exact ⟨Block.number?_withField b field hnumber, Block.number?_withField b field htext⟩
  · exact ((Block.respelled_withField hs value field).withInput hlink b input).number?_eq name

namespace Workspace

/-- A loop over a move, and a shadow for the number of its rounds in which a value stands. -/
def counted (value : Json) : Block :=
  { Block.bare "maze_repeat" "r" with inputs := [("DO", ⟨some move, none⟩)] }.withInput "TIMES"
    ⟨none, some ((Block.bare "math_number" "n").withField "NUM" value)⟩

/-- An integer of 64 bits between two doubles. -/
def oddNumber : Number := .integer 9007199254740993

/-- The same number behind a blank of ideographs and in front of one that does not break a line. -/
def oddText : String := "\u30009007199254740993\u00a0"

/-- In either form the integer is rounded to the even one below it. -/
theorem oddNumber_counts_as_spelled :
    oddNumber.SpelledBy oddText ∧
      (move.withField "VALUE" (.number oddNumber)).number? "VALUE" =
        some (.ofInt 9007199254740992) ∧
      (move.withField "VALUE" (.text oddText)).number? "VALUE" = some (.ofInt 9007199254740992) ∧
      (counted (.text oddText)).number? "TIMES" = (counted (.number oddNumber)).number? "TIMES" ∧
      (counted (.number oddNumber)).number? "TIMES" = some (.ofInt 9007199254740992) ∧
      (begun (counted (.text oddText))).compile .maze =
        (begun (counted (.number oddNumber))).compile .maze := by
  have hrounded : oddNumber.toDouble = .ofInt 9007199254740992 := by decide +kernel
  have hspelled : oddNumber.SpelledBy oddText := by
    have hexact : (Json.number oddNumber).Exact := ⟨by decide, by decide⟩
    have hread : Reader.json.run (Json.number oddNumber).toText = .ok (.number oddNumber) := by
      rw [Reader.run_toText _ hexact]
      rfl
    have htext : oddText =
        .ofList (['\u3000'] ++ (Json.number oddNumber).toText.toList ++ ['\u00a0']) := by
      decide +kernel
    rw [htext]
    exact .mk (List.forall_mem_singleton.2 (by decide +kernel))
      (List.forall_mem_singleton.2 (by decide +kernel)) hread
  obtain ⟨hdirect, hplugged, hcompile⟩ := numbers_count_as_spelled
  have hvalue := hdirect oddNumber oddText hspelled move "VALUE"
  rw [hrounded] at hvalue
  have hrespelled : Block.Respelled (counted (.number oddNumber)) (counted (.text oddText)) :=
    (Block.respelled_withField hspelled _ "NUM").withInput (.shadow none) _ "TIMES"
  have hdrawing : Respelled (begun (counted (.number oddNumber)))
      (begun (counted (.text oddText))) :=
    .stack 0 [] [] (.withinNext hrespelled (.block none) rfl)
  exact ⟨hspelled, hvalue.1, hvalue.2,
    hplugged oddNumber oddText hspelled _ "NUM" _ _ (.shadow none) _ "TIMES" "TIMES",
    by decide +kernel, hcompile .maze _ _ (.rel _ _ hdrawing)⟩

end Workspace

end BlockRobot
