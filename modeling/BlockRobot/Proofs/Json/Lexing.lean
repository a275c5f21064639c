import BlockRobot.Proofs.Json.Numbers

/-!
# The tokens of a text that was written

The text of a value falls into the tokens one would expect (`Token.ofText_render`),
provided that its numbers can be written: integers of 64 bits and finite doubles
(`Json.Exact`).

Tokens are told apart from what follows by what they are, except for numbers, which end
where something stands that cannot be a part of them.  So the statement for a part of a text
speaks of any rest that stops a number, and behind every value that is a part of another one
there stands a comma or a bracket, which does.
-/

namespace BlockRobot

namespace Json

mutual

/-- The tokens of a value. -/
def tokens : Json → List Token
  | null => [.scalar .null]
  | bool b => [.scalar (.bool b)]
  | number n => [.scalar (.number n)]
  | text s => [.scalar (.text s)]
  | array [] => [.openArray, .closeArray]
  | array (item :: items) => .openArray :: tokens item ++ itemTokens items
  | object [] => [.openObject, .closeObject]
  | object ((name, value) :: members) =>
    .openObject :: .scalar (.text name) :: .colon :: tokens value ++ memberTokens members

/-- The tokens of the items after the first, and of the end of their array. -/
def itemTokens : List Json → List Token
  | [] => [.closeArray]
  | item :: items => .comma :: tokens item ++ itemTokens items

/-- The tokens of the members after the first, and of the end of their object. -/
def memberTokens : List (String × Json) → List Token
  | [] => [.closeObject]
  | (name, value) :: members =>
    .comma :: .scalar (.text name) :: .colon :: tokens value ++ memberTokens members

end

end Json

/-- A number that can be written: an integer of 64 bits, or a finite double. -/
def Number.Exact : Number → Prop
  | .integer i => -2 ^ 63 ≤ i ∧ i < 2 ^ 64
  | .double d => d.isFinite = true

namespace Json

mutual

/-- A value all of whose numbers can be written. -/
def Exact : Json → Prop
  | null => True
  | bool _ => True
  | number n => n.Exact
  | text _ => True
  | array items => ExactItems items
  | object members => ExactMembers members

/-- Items all of whose numbers can be written. -/
def ExactItems : List Json → Prop
  | [] => True
  | item :: items => Exact item ∧ ExactItems items

/-- Members all of whose numbers can be written. -/
def ExactMembers : List (String × Json) → Prop
  | [] => True
  | (_, value) :: members => Exact value ∧ ExactMembers members

end

theorem exactItems_of_forall {items : List Json} (h : ∀ j ∈ items, j.Exact) :
    ExactItems items := by
  induction items with
  | nil => exact trivial
  | cons item items ih =>
    exact ⟨h item (List.mem_cons_self ..), ih fun j hj => h j (List.mem_cons_of_mem item hj)⟩

theorem exactMembers_append {as bs : List (String × Json)} (has : ExactMembers as)
    (hbs : ExactMembers bs) : ExactMembers (as ++ bs) := by
  induction as with
  | nil => exact hbs
  | cons a as ih => exact ⟨has.1, ih has.2⟩

end Json

namespace Token

/-! ## Texts and their tokens -/

/-- A text falls into some tokens, however many are asked for. -/
def Lexes (cs : List Char) (tokens : List Token) : Prop :=
  ∀ bound, cs.length ≤ bound → listWithin bound cs = tokens

theorem lexes_nil : Lexes [] [] := by
  intro bound _
  cases bound <;> rfl

theorem Lexes.ofText {cs : List Char} {tokens : List Token} (h : Lexes cs tokens) :
    ofText cs = tokens :=
  h cs.length (Nat.le_refl _)

/-- A token in front of a text. -/
theorem Leads.lexes {token : Token} {cs rest : List Char} {tokens : List Token}
    (hcs : Leads token cs rest) (hrest : Lexes rest tokens) : Lexes cs (token :: tokens) := by
  obtain ⟨c, tail, rfl, hspace, hstart, hlength⟩ := hcs
  intro bound hbound
  cases bound with
  | zero => simp at hbound
  | succ bound =>
    rw [List.length_cons] at hbound
    rw [listWithin, if_neg (by simp [hspace]), hstart]
    exact congrArg (token :: ·) (hrest bound (by omega))

/-- A character that is a token. -/
theorem leads_char {c : Char} {token : Token} (hspace : isSpace c = false)
    (hstart : ∀ cs, startingWith c cs = (token, cs)) (rest : List Char) :
    Leads token (c :: rest) rest :=
  ⟨c, rest, rfl, hspace, hstart rest, Nat.le_refl _⟩

theorem leads_openArray (rest : List Char) : Leads .openArray ('[' :: rest) rest :=
  leads_char rfl (fun _ => rfl) rest

theorem leads_closeArray (rest : List Char) : Leads .closeArray (']' :: rest) rest :=
  leads_char rfl (fun _ => rfl) rest

theorem leads_openObject (rest : List Char) : Leads .openObject ('\x7b' :: rest) rest :=
  leads_char rfl (fun _ => rfl) rest

theorem leads_closeObject (rest : List Char) : Leads .closeObject ('\x7d' :: rest) rest :=
  leads_char rfl (fun _ => rfl) rest

theorem leads_comma (rest : List Char) : Leads .comma (',' :: rest) rest :=
  leads_char rfl (fun _ => rfl) rest

theorem leads_colon (rest : List Char) : Leads .colon (':' :: rest) rest :=
  leads_char rfl (fun _ => rfl) rest

theorem leads_null (rest : List Char) :
    Leads (.scalar .null) ('n' :: 'u' :: 'l' :: 'l' :: rest) rest :=
  ⟨'n', _, rfl, rfl, rfl, by simp; omega⟩

theorem leads_true (rest : List Char) :
    Leads (.scalar (.bool true)) ('t' :: 'r' :: 'u' :: 'e' :: rest) rest :=
  ⟨'t', _, rfl, rfl, rfl, by simp; omega⟩

theorem leads_false (rest : List Char) :
    Leads (.scalar (.bool false)) ('f' :: 'a' :: 'l' :: 's' :: 'e' :: rest) rest :=
  ⟨'f', _, rfl, rfl, rfl, by simp; omega⟩

/-- A quoted text is read as it was. -/
theorem leads_quote (s : String) (rest : List Char) :
    Leads (.scalar (.text s)) (Quoted.quote s.toList ++ rest) rest := by
  have htail : Quoted.quote s.toList ++ rest =
      '"' :: (s.toList.flatMap Quoted.escape ++ '"' :: rest) := by
    simp [Quoted.quote]
  refine ⟨'"', s.toList.flatMap Quoted.escape ++ '"' :: rest, htail, rfl, ?_, by simp; omega⟩
  have hquoted := quoted_flatMap_escape s.toList rest
  rw [String.ofList_toList] at hquoted
  exact congrArg (fun r : Scalar × List Char => (scalar r.1, r.2)) hquoted

/-- A number is read as it was. -/
theorem leads_numeral {n : Number} (hn : n.Exact) {rest : List Char} (hrest : Stops rest) :
    Leads (.scalar (.number n)) (n.render ++ rest) rest := by
  cases n with
  | integer i => exact leads_integer hn hrest
  | double d => exact leads_double hn hrest

/-! ## The text of a value -/

theorem stops_renderItems (items : List Json) (rest : List Char) :
    Stops (Json.renderItems items ++ rest) := by
  cases items <;> rw [Json.renderItems] <;> exact stops_cons (by simp) _

theorem stops_renderMembers (members : List (String × Json)) (rest : List Char) :
    Stops (Json.renderMembers members ++ rest) := by
  rcases members with _ | ⟨⟨name, value⟩, members⟩ <;> rw [Json.renderMembers] <;>
    exact stops_cons (by simp) _

/-- A name and a colon in front of a text. -/
theorem lexes_key (name : String) {rest : List Char} {ts : List Token} (h : Lexes rest ts) :
    Lexes (Quoted.quote name.toList ++ ':' :: rest) (.scalar (.text name) :: .colon :: ts) :=
  (leads_quote name _).lexes ((leads_colon rest).lexes h)

mutual

/-- **The text of a value falls into the tokens of the value.** -/
theorem lexes_render : ∀ {j : Json}, j.Exact → ∀ {rest : List Char} {ts : List Token},
    Stops rest → Lexes rest ts → Lexes (j.render ++ rest) (j.tokens ++ ts)
  | .null, _, rest, _, _, hrest => (leads_null rest).lexes hrest
  | .bool true, _, rest, _, _, hrest => (leads_true rest).lexes hrest
  | .bool false, _, rest, _, _, hrest => (leads_false rest).lexes hrest
  | .number _, hn, _, _, hstops, hrest => (leads_numeral hn hstops).lexes hrest
  | .text s, _, rest, _, _, hrest => (leads_quote s rest).lexes hrest
  | .array [], _, rest, _, _, hrest =>
    (leads_openArray _).lexes ((leads_closeArray rest).lexes hrest)
  | .array (item :: items), ⟨hitem, hitems⟩, rest, ts, _, hrest => by
    have htail := lexes_render hitem (stops_renderItems items rest)
      (lexes_renderItems hitems hrest)
    rw [Json.render, Json.tokens, List.append_assoc, List.append_assoc]
    exact (leads_openArray _).lexes htail
  | .object [], _, rest, _, _, hrest =>
    (leads_openObject _).lexes ((leads_closeObject rest).lexes hrest)
  | .object ((name, value) :: members), ⟨hvalue, hmembers⟩, rest, ts, _, hrest => by
    have htail := lexes_render hvalue (stops_renderMembers members rest)
      (lexes_renderMembers hmembers hrest)
    rw [Json.render, Json.tokens]
    simp only [List.append_assoc, List.cons_append]
    exact (leads_openObject _).lexes (lexes_key name htail)

theorem lexes_renderItems : ∀ {items : List Json}, Json.ExactItems items →
    ∀ {rest : List Char} {ts : List Token}, Lexes rest ts →
      Lexes (Json.renderItems items ++ rest) (Json.itemTokens items ++ ts)
  | [], _, rest, _, hrest => (leads_closeArray rest).lexes hrest
  | item :: items, ⟨hitem, hitems⟩, rest, ts, hrest => by
    have htail := lexes_render hitem (stops_renderItems items rest)
      (lexes_renderItems hitems hrest)
    rw [Json.renderItems, Json.itemTokens, List.append_assoc, List.append_assoc]
    exact (leads_comma _).lexes htail

theorem lexes_renderMembers : ∀ {members : List (String × Json)}, Json.ExactMembers members →
    ∀ {rest : List Char} {ts : List Token}, Lexes rest ts →
      Lexes (Json.renderMembers members ++ rest) (Json.memberTokens members ++ ts)
  | [], _, rest, _, hrest => (leads_closeObject rest).lexes hrest
  | (name, value) :: members, ⟨hvalue, hmembers⟩, rest, ts, hrest => by
    have htail := lexes_render hvalue (stops_renderMembers members rest)
      (lexes_renderMembers hmembers hrest)
    rw [Json.renderMembers, Json.memberTokens]
    simp only [List.append_assoc, List.cons_append]
    exact (leads_comma _).lexes (lexes_key name htail)

end

theorem ofText_render {j : Json} (hj : j.Exact) : ofText j.render = j.tokens := by
  have hlexes := lexes_render hj stops_nil lexes_nil
  rw [List.append_nil, List.append_nil] at hlexes
  exact hlexes.ofText

end Token

end BlockRobot
