import BlockRobot.Json.Reader
import BlockRobot.Proofs.Json.Lexing

/-!
# The draft of a text that was written

The text of a value builds the draft of that value, without faults (`Json.draft`), and
nothing is left over (`Reading.ofText_render`).  So what a reader makes of a text that was
written is what it makes of that draft (`Reader.run_toText`), and readers can be understood
without a look at characters.

The builder goes along the tokens with a stack of open brackets.  What it does with the
tokens of a value is to accept the draft of the value at the place where it stands
(`ofTokens_tokens`), whatever brackets are open around it and whatever comes after.
-/

namespace BlockRobot

namespace Json

mutual

/-- The draft of a value, all of whose brackets close. -/
def draft : Json → Draft
  | null => .scalar .null
  | bool b => .scalar (.bool b)
  | number n => .scalar (.number n)
  | text s => .scalar (.text s)
  | array items => .array (itemDrafts items) none
  | object members => .object (memberDrafts members) none

/-- The drafts of items. -/
def itemDrafts : List Json → List Draft
  | [] => []
  | item :: items => draft item :: itemDrafts items

/-- The drafts of members, keys included. -/
def memberDrafts : List (String × Json) → List (Draft × Draft)
  | [] => []
  | (name, value) :: members => (.scalar (.text name), draft value) :: memberDrafts members

end

end Json

namespace Reading

/-- What is made of some tokens after a step. -/
def after (step : Step) (tokens : List Token) : Reading :=
  match step with
  | .on c => ofTokens c tokens
  | .whole d => ⟨d, !tokens.isEmpty⟩
  | .stuck d => ⟨d, false⟩

theorem ofTokens_cons (c : Cursor) (token : Token) (tokens : List Token) :
    ofTokens c (token :: tokens) = after (c.step token) tokens := rfl

/-- Whether a value is due, be it only that it may be. -/
def ValueDue (due : Due) : Prop := due = .value ∨ due = .itemOrEnd

/-- Where a value is due, a scalar is one. -/
theorem step_scalar {due : Due} (hdue : ValueDue due) (frames : List Frame) {s : Scalar}
    (hs : Draft.stopOf s = none) :
    Cursor.step ⟨frames, due⟩ (.scalar s) = Cursor.accept (.scalar s) frames := by
  rcases hdue with rfl | rfl <;> simp [Cursor.step, Cursor.takeValue, hs]

theorem step_openArray {due : Due} (hdue : ValueDue due) (frames : List Frame) :
    Cursor.step ⟨frames, due⟩ .openArray = .on ⟨.array [] :: frames, .itemOrEnd⟩ := by
  rcases hdue with rfl | rfl <;> rfl

theorem step_openObject {due : Due} (hdue : ValueDue due) (frames : List Frame) :
    Cursor.step ⟨frames, due⟩ .openObject = .on ⟨.object [] :: frames, .keyOrEnd⟩ := by
  rcases hdue with rfl | rfl <;> rfl

/-- Where a name is due, a name and a colon lead to the value. -/
theorem ofTokens_key {due : Due} (hdue : due = .key ∨ due = .keyOrEnd)
    (members : List (Draft × Draft)) (frames : List Frame) (name : String)
    (tokens : List Token) :
    ofTokens ⟨.object members :: frames, due⟩ (.scalar (.text name) :: .colon :: tokens) =
      ofTokens ⟨.member members (.scalar (.text name)) :: frames, .value⟩ tokens := by
  rcases hdue with rfl | rfl <;> rfl

mutual

/-- **What is made of the tokens of a value** where one is due: its draft is accepted. -/
theorem ofTokens_tokens : ∀ (j : Json) {due : Due}, ValueDue due →
    ∀ (frames : List Frame) (ts : List Token),
      ofTokens ⟨frames, due⟩ (j.tokens ++ ts) = after (Cursor.accept j.draft frames) ts
  | .null, _, hdue, frames, ts => by
    rw [Json.tokens, List.singleton_append, ofTokens_cons, step_scalar hdue frames rfl]
    rfl
  | .bool b, _, hdue, frames, ts => by
    rw [Json.tokens, List.singleton_append, ofTokens_cons, step_scalar hdue frames rfl]
    rfl
  | .number n, _, hdue, frames, ts => by
    rw [Json.tokens, List.singleton_append, ofTokens_cons, step_scalar hdue frames rfl]
    rfl
  | .text s, _, hdue, frames, ts => by
    rw [Json.tokens, List.singleton_append, ofTokens_cons, step_scalar hdue frames rfl]
    rfl
  | .array [], _, hdue, frames, ts => by
    rw [Json.tokens, List.cons_append, ofTokens_cons, step_openArray hdue frames]
    rfl
  | .array (item :: items), _, hdue, frames, ts => by
    rw [Json.tokens, List.append_assoc, List.cons_append, ofTokens_cons,
      step_openArray hdue frames]
    show ofTokens ⟨.array [] :: frames, .itemOrEnd⟩ _ = _
    rw [ofTokens_tokens item (Or.inr rfl)]
    exact ofTokens_itemTokens items [item.draft] frames ts
  | .object [], _, hdue, frames, ts => by
    rw [Json.tokens, List.cons_append, ofTokens_cons, step_openObject hdue frames]
    rfl
  | .object ((name, value) :: members), _, hdue, frames, ts => by
    rw [Json.tokens, List.append_assoc, List.cons_append, List.cons_append, List.cons_append,
      ofTokens_cons, step_openObject hdue frames]
    show ofTokens ⟨.object [] :: frames, .keyOrEnd⟩ _ = _
    rw [ofTokens_key (Or.inr rfl), ofTokens_tokens value (Or.inl rfl)]
    exact ofTokens_memberTokens members [(.scalar (.text name), value.draft)] frames ts

theorem ofTokens_itemTokens : ∀ (items : List Json) (before : List Draft) (frames : List Frame)
    (ts : List Token),
      ofTokens ⟨.array before :: frames, .separator⟩ (Json.itemTokens items ++ ts) =
        after (Cursor.accept (.array (before.reverse ++ Json.itemDrafts items) none) frames) ts
  | [], before, frames, ts => by
    rw [Json.itemDrafts, List.append_nil]
    rfl
  | item :: items, before, frames, ts => by
    rw [Json.itemTokens, List.append_assoc, List.cons_append]
    show ofTokens ⟨.array before :: frames, .value⟩ _ = _
    rw [ofTokens_tokens item (Or.inl rfl)]
    show ofTokens ⟨.array (item.draft :: before) :: frames, .separator⟩ _ = _
    rw [ofTokens_itemTokens items, List.reverse_cons, List.append_assoc, Json.itemDrafts,
      List.singleton_append]

theorem ofTokens_memberTokens : ∀ (members : List (String × Json))
    (before : List (Draft × Draft)) (frames : List Frame) (ts : List Token),
      ofTokens ⟨.object before :: frames, .separator⟩ (Json.memberTokens members ++ ts) =
        after (Cursor.accept (.object (before.reverse ++ Json.memberDrafts members) none) frames) ts
  | [], before, frames, ts => by
    rw [Json.memberDrafts, List.append_nil]
    rfl
  | (name, value) :: members, before, frames, ts => by
    rw [Json.memberTokens, List.append_assoc, List.cons_append, List.cons_append,
      List.cons_append]
    show ofTokens ⟨.object before :: frames, .key⟩ _ = _
    rw [ofTokens_key (Or.inl rfl), ofTokens_tokens value (Or.inl rfl)]
    show ofTokens ⟨.object ((.scalar (.text name), value.draft) :: before) :: frames,
      .separator⟩ _ = _
    rw [ofTokens_memberTokens members, List.reverse_cons, List.append_assoc, Json.memberDrafts,
      List.singleton_append]

end

/-- **The text of a value builds its draft, and nothing is left over.** -/
theorem ofText_render {j : Json} (hj : j.Exact) : ofText j.render = ⟨j.draft, false⟩ := by
  have hread := ofTokens_tokens j (Or.inl rfl) [] []
  rw [List.append_nil] at hread
  rw [ofText, Token.ofText_render hj, Cursor.start, hread]
  rfl

end Reading

/-- **What a reader makes of a text that was written** is what it makes of the draft. -/
theorem Reader.run_toText {α : Type} (r : Reader α) {j : Json} (hj : j.Exact) :
    r.run j.toText = r Reader.depth j.draft := by
  rw [Reader.run, Json.toText, String.toList_ofList, Reading.ofText_render hj]
  cases r Reader.depth j.draft <;> rfl

end BlockRobot
