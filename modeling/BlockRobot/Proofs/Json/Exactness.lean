import BlockRobot.Proofs.Json.Building
import BlockRobot.Proofs.Json.Yields

/-!
# The numbers of a text can be written

A text can name a number in many ways, and numbers that no double comes near.  What a reader
gets to see is always an integer of 64 bits or a finite double, so it can be written again
(`Number.Exact`), whatever the text looked like.

The property goes the way a text goes.  Every token of a text has it
(`Token.exact_of_mem_ofText`), and so has the draft that the tokens build, because building
only puts scalars in their places (`Reading.exact_ofText`).  From an exact draft a reader
yields exact values (`Reader.yields_json`), finite doubles (`Reader.yields_double`), and natural
numbers of their size (`Reader.yields_natural`).

Values are kept in normal form, and this form has no further one (`Json.normal_normal`).
-/

namespace BlockRobot

/-! ## Tokens -/

/-- A scalar that can be written if it is a number. -/
def Scalar.Exact : Scalar → Prop
  | .number n => n.Exact
  | _ => True

namespace Token

/-- A token that can be written if it is a number. -/
def Exact : Token → Prop
  | scalar s => s.Exact
  | _ => True

theorem exact_word {value : Scalar} (hvalue : value.Exact) (due cs : List Char) :
    (word value due cs).1.Exact := by
  induction due generalizing cs with
  | nil => exact hvalue
  | cons d due ih =>
    cases cs with
    | nil => exact trivial
    | cons c cs =>
      rw [word]
      split
      · exact ih cs
      · exact trivial

theorem exact_digitDue (cs : List Char) : (digitDue cs).1.Exact := by
  cases cs <;> exact trivial

/-- A double that is too large is no number. -/
theorem exact_doubleScalar (n : Numeral) : (doubleScalar n).Exact := by
  rw [doubleScalar]
  split
  · rename_i hfinite
    exact hfinite
  · exact trivial

/-- An integer that 64 bits do not hold is taken as a double. -/
theorem exact_wholeScalar (negative : Bool) (whole : List Char) :
    (wholeScalar negative whole).Exact := by
  rw [wholeScalar]
  split
  · split
    · rename_i hbounds
      refine ⟨?_, ?_⟩ <;> omega
    · exact exact_doubleScalar _
  · split
    · rename_i hbound
      refine ⟨?_, ?_⟩ <;> omega
    · exact exact_doubleScalar _

theorem exact_exponentPart (negative : Bool) (whole fraction cs : List Char) :
    (exponentPart negative whole fraction cs).1.Exact := by
  unfold exponentPart
  dsimp only
  split
  · exact exact_digitDue _
  · exact exact_doubleScalar _

theorem exact_afterWhole (negative : Bool) (whole cs : List Char) :
    (afterWhole negative whole cs).1.Exact := by
  cases cs with
  | nil => exact exact_wholeScalar negative whole
  | cons c cs =>
    rw [afterWhole]
    split
    · split
      · exact exact_digitDue _
      · exact exact_doubleScalar _
      · split
        · exact exact_exponentPart ..
        · exact exact_doubleScalar _
    · split
      · exact exact_exponentPart ..
      · exact exact_wholeScalar negative whole

/-- **Whatever is read of a number can be written.** -/
theorem exact_number (negative : Bool) (cs : List Char) : (number negative cs).1.Exact := by
  unfold number
  split
  · exact exact_digitDue _
  · exact exact_afterWhole ..
  · exact trivial
  · exact exact_afterWhole ..

theorem exact_quoted (cs : List Char) : (quoted cs).1.Exact := by
  unfold quoted
  dsimp only
  split <;> exact trivial

theorem exact_ite {p : Prop} [Decidable p] {found other : Token × List Char}
    (hfound : found.1.Exact) (hother : other.1.Exact) : (if p then found else other).1.Exact := by
  split
  · exact hfound
  · exact hother

theorem exact_startingWith (c : Char) (cs : List Char) : (startingWith c cs).1.Exact := by
  -- the brackets and marks first, then the scalars in the order of their first characters
  refine exact_ite trivial <| exact_ite trivial <| exact_ite trivial <| exact_ite trivial <|
    exact_ite trivial <| exact_ite trivial ?_
  refine exact_ite (exact_quoted cs) <| exact_ite (exact_number true cs) <|
    exact_ite (exact_number false (c :: cs)) <| exact_ite ?_ <| exact_ite ?_ <|
    exact_ite ?_ trivial
  all_goals exact exact_word (by exact trivial) _ cs

/-- **The tokens of a text can be written.** -/
theorem exact_of_mem_ofText {cs : List Char} : ∀ t ∈ ofText cs, t.Exact := by
  have hlist : ∀ (bound : Nat) (cs : List Char), ∀ t ∈ listWithin bound cs, t.Exact := by
    intro bound
    induction bound with
    | zero => exact fun _ _ ht => (List.not_mem_nil ht).elim
    | succ bound ih =>
      intro cs t ht
      cases cs with
      | nil => exact (List.not_mem_nil ht).elim
      | cons c cs =>
        rw [listWithin] at ht
        split at ht
        · exact ih cs t ht
        · rcases List.mem_cons.1 ht with rfl | ht
          · exact exact_startingWith c cs
          · exact ih _ t ht
  exact hlist cs.length cs

end Token

/-! ## Drafts -/

namespace Draft

/-- A draft all of whose numbers can be written. -/
inductive Exact : Draft → Prop
  | missing (f : Fault) : Exact (.missing f)
  | scalar {s : Scalar} (exact : s.Exact) : Exact (.scalar s)
  | array {items : List Draft} {close : Option Fault} (exact : ∀ d ∈ items, Exact d) :
      Exact (.array items close)
  | object {members : List (Draft × Draft)} {close : Option Fault}
      (exact : ∀ m ∈ members, Exact m.2) : Exact (.object members close)

/-- The parts of an exact draft are exact. -/
theorem hereditary_exact : Hereditary Exact where
  items := by
    rintro items close ⟨⟩
    assumption
  values := by
    rintro members close ⟨⟩
    assumption

end Draft

namespace Frame

/-- A bracket in which all numbers can be written. -/
def Exact : Frame → Prop
  | array items => ∀ d ∈ items, d.Exact
  | object members => ∀ m ∈ members, m.2.Exact
  | member members _ => ∀ m ∈ members, m.2.Exact

theorem Exact.closed {frame : Frame} (h : frame.Exact) (close : Option Fault) :
    (frame.closed close).Exact := by
  cases frame with
  | array items => exact .array fun d hd => h d (List.mem_reverse.1 hd)
  | object members => exact .object fun m hm => h m (List.mem_reverse.1 hm)
  | member members key =>
    refine .object fun m hm => ?_
    rcases List.mem_cons.1 (List.mem_reverse.1 hm) with rfl | hm
    · exact .missing _
    · exact h m hm

theorem Exact.holding {frame : Frame} (h : frame.Exact) {d : Draft} (hd : d.Exact) :
    (frame.holding d).Exact := by
  cases frame with
  | array items => exact List.forall_mem_cons.2 ⟨hd, h⟩
  | object members => exact List.forall_mem_cons.2 ⟨.missing _, h⟩
  | member members key => exact List.forall_mem_cons.2 ⟨hd, h⟩

theorem exact_enclose {d : Draft} (hd : d.Exact) {frames : List Frame}
    (h : ∀ frame ∈ frames, frame.Exact) : (enclose d frames).Exact := by
  induction frames generalizing d with
  | nil => exact hd
  | cons frame frames ih =>
    obtain ⟨hframe, hframes⟩ := List.forall_mem_cons.1 h
    exact ih ((hframe.holding hd).closed _) hframes

end Frame

/-- A step after which all numbers can be written. -/
def Step.Exact : Step → Prop
  | .on c => ∀ frame ∈ c.frames, frame.Exact
  | .whole d => d.Exact
  | .stuck d => d.Exact

namespace Cursor

variable {frames : List Frame} (h : ∀ frame ∈ frames, frame.Exact)

include h

theorem exact_accept {d : Draft} (hd : d.Exact) : (accept d frames).Exact := by
  cases frames with
  | nil => exact hd
  | cons frame frames =>
    obtain ⟨hframe, hframes⟩ := List.forall_mem_cons.1 h
    cases frame with
    | array items =>
      exact List.forall_mem_cons.2 ⟨List.forall_mem_cons.2 ⟨hd, hframe⟩, hframes⟩
    | object members => exact List.forall_mem_cons.2 ⟨hframe, hframes⟩
    | member members key =>
      exact List.forall_mem_cons.2 ⟨List.forall_mem_cons.2 ⟨hd, hframe⟩, hframes⟩

theorem exact_close : (close frames).Exact := by
  cases frames with
  | nil => exact .missing _
  | cons frame frames =>
    obtain ⟨hframe, hframes⟩ := List.forall_mem_cons.1 h
    exact exact_accept hframes (hframe.closed none)

theorem exact_giveUpValue (f : Fault) : (giveUpValue f frames).Exact :=
  Frame.exact_enclose (.missing f) h

theorem exact_giveUpClose (f : Fault) : (giveUpClose f frames).Exact := by
  cases frames with
  | nil => exact .missing f
  | cons frame frames =>
    obtain ⟨hframe, hframes⟩ := List.forall_mem_cons.1 h
    exact Frame.exact_enclose (hframe.closed _) hframes

end Cursor

/-- **Building keeps all numbers exact.** -/
theorem Cursor.keeps_exact :
    Keeps Scalar.Exact (fun frames => ∀ frame ∈ frames, frame.Exact) Draft.Exact Step.Exact where
  on := Iff.rfl
  whole := Iff.rfl
  stuck := Iff.rfl
  openArray h := List.forall_mem_cons.2 ⟨List.forall_mem_nil _, h⟩
  openObject h := List.forall_mem_cons.2 ⟨List.forall_mem_nil _, h⟩
  accept h _ hs := exact_accept h (.scalar hs)
  close h := exact_close h
  enclose h _ hs := Frame.exact_enclose (.scalar hs) h
  giveUpValue h f := exact_giveUpValue h f
  giveUpClose h f := exact_giveUpClose h f

/-- **The draft of a text is exact.** -/
theorem Reading.exact_ofText (cs : List Char) : (ofText cs).draft.Exact :=
  Cursor.keeps_exact.ofTokens (fun s hs => Token.exact_of_mem_ofText (.scalar s) hs) nofun

/-- What was read from a text was read from an exact draft, with all the room there is. -/
theorem Reader.exists_of_run_eq_ok {α : Type} {r : Reader α} {text : String} {a : α}
    (h : r.run text = .ok a) : ∃ d, d.Exact ∧ r Reader.depth d = .ok a := by
  unfold run at h
  obtain ⟨b, hb, h⟩ := exists_of_bind_eq_ok h
  split at h
  · cases h
  · exact ⟨_, Reading.exact_ofText _, Except.ok.inj h ▸ hb⟩

/-! ## Values -/

namespace Json

theorem exactMembers_iff {members : List (String × Json)} :
    ExactMembers members ↔ ∀ m ∈ members, m.2.Exact := by
  induction members with
  | nil => exact iff_of_true trivial nofun
  | cons m members ih => rw [ExactMembers, ih, List.forall_mem_cons]

mutual

/-- A value is as exact in normal form. -/
theorem exact_normal : ∀ {j : Json}, j.Exact → j.normal.Exact
  | .null, _ => trivial
  | .bool _, _ => trivial
  | .number _, h => h
  | .text _, _ => trivial
  | .array _, h => exactItems_normalItems h
  | .object _, h =>
    exactMembers_iff.2 fun m hm =>
      exactMembers_iff.1 (exactMembers_normalMembers h) m (mem_of_mem_sortByName hm)

theorem exactItems_normalItems : ∀ {items : List Json}, ExactItems items →
    ExactItems (normalItems items)
  | [], _ => trivial
  | _ :: _, ⟨hitem, hitems⟩ => ⟨exact_normal hitem, exactItems_normalItems hitems⟩

theorem exactMembers_normalMembers : ∀ {members : List (String × Json)}, ExactMembers members →
    ExactMembers (normalMembers members)
  | [], _ => trivial
  | (_, _) :: _, ⟨hvalue, hmembers⟩ => ⟨exact_normal hvalue, exactMembers_normalMembers hmembers⟩

end

/-- Members whose values are in normal form are left as they are. -/
theorem normalMembers_eq_self {members : List (String × Json)}
    (h : ∀ m ∈ members, m.2.normal = m.2) : normalMembers members = members := by
  induction members with
  | nil => rfl
  | cons m members ih =>
    obtain ⟨hm, hmembers⟩ := List.forall_mem_cons.1 h
    obtain ⟨name, value⟩ := m
    rw [normalMembers, ih hmembers]
    exact congrArg (fun v => (name, v) :: members) hm

mutual

/-- **A normal form has no further normal form.** -/
theorem normal_normal : ∀ j : Json, j.normal.normal = j.normal
  | .null => rfl
  | .bool _ => rfl
  | .number _ => rfl
  | .text _ => rfl
  | .array items => congrArg array (normalItems_normalItems items)
  | .object members => by
    have hvalues : ∀ m ∈ sortByName (normalMembers members), m.2.normal = m.2 :=
      fun m hm => normal_of_mem_normalMembers members m (mem_of_mem_sortByName hm)
    rw [normal, normal, normalMembers_eq_self hvalues,
      (sortedByName_sortByName _).sortByName_eq]

theorem normalItems_normalItems : ∀ items : List Json,
    normalItems (normalItems items) = normalItems items
  | [] => rfl
  | item :: items => by
    rw [normalItems, normalItems, normal_normal item, normalItems_normalItems items]

theorem normal_of_mem_normalMembers : ∀ (members : List (String × Json)),
    ∀ m ∈ normalMembers members, m.2.normal = m.2
  | [], _, hm => (List.not_mem_nil hm).elim
  | (_, value) :: members, m, hm => by
    rcases List.mem_cons.1 hm with rfl | hm
    · exact normal_normal value
    · exact normal_of_mem_normalMembers members m hm

end

end Json

namespace Draft

mutual

/-- A value that is read as it is can be written. -/
theorem exact_of_value : ∀ {d : Draft} {room : Nat} {j : Json},
    d.Exact → d.value room = .ok j → j.Exact
  | .scalar .null, _, _, _, h => by cases h; exact trivial
  | .scalar (.bool _), _, _, _, h => by cases h; exact trivial
  | .scalar (.number _), _, _, .scalar hn, h => by cases h; exact hn
  | .scalar (.text _), _, _, _, h => by cases h; exact trivial
  | .array items close, room + 1, j, .array hitems, h => by
    rw [value] at h
    obtain ⟨values, hvalues, hclose⟩ := exists_of_bind_eq_ok h
    rw [← eq_of_closing_eq_ok hclose]
    exact exactItems_of_valueItems hitems hvalues
  | .object members close, room + 1, j, .object hmembers, h => by
    rw [value] at h
    obtain ⟨values, hvalues, hclose⟩ := exists_of_bind_eq_ok h
    rw [← eq_of_closing_eq_ok hclose]
    exact exactMembers_of_valueMembers hmembers hvalues

theorem exactItems_of_valueItems : ∀ {items : List Draft} {room : Nat} {js : List Json},
    (∀ d ∈ items, d.Exact) → valueItems room items = .ok js → Json.ExactItems js
  | [], _, _, _, h => by cases h; exact trivial
  | item :: items, room, js, hitems, h => by
    obtain ⟨hitem, hitems⟩ := List.forall_mem_cons.1 hitems
    rw [valueItems] at h
    obtain ⟨j, hj, h⟩ := exists_of_bind_eq_ok h
    obtain ⟨rest, hrest, h⟩ := exists_of_bind_eq_ok h
    obtain rfl := Except.ok.inj h
    exact ⟨exact_of_value hitem hj, exactItems_of_valueItems hitems hrest⟩

theorem exactMembers_of_valueMembers : ∀ {members : List (Draft × Draft)} {room : Nat}
    {js : List (String × Json)}, (∀ m ∈ members, m.2.Exact) →
    valueMembers room members = .ok js → Json.ExactMembers js
  | [], _, _, _, h => by cases h; exact trivial
  | (key, d) :: members, room, js, hmembers, h => by
    obtain ⟨hd, hmembers⟩ := List.forall_mem_cons.1 hmembers
    rw [valueMembers] at h
    obtain ⟨name, -, h⟩ := exists_of_bind_eq_ok h
    obtain ⟨j, hj, h⟩ := exists_of_bind_eq_ok h
    obtain ⟨rest, hrest, h⟩ := exists_of_bind_eq_ok h
    obtain rfl := Except.ok.inj h
    exact ⟨exact_of_value hd hj, exactMembers_of_valueMembers hmembers hrest⟩

end

end Draft

/-! ## What readers yield from exact drafts -/

/-- The double a number stands for is finite if the number can be written. -/
theorem Number.Exact.isFinite_toDouble {n : Number} (hn : n.Exact) :
    n.toDouble.isFinite = true := by
  cases n with
  | integer i => exact Double.isFinite_ofInt hn
  | double d => exact hn

namespace Reader

/-- Values come in normal form, and their numbers can be written. -/
theorem yields_json : Yields Draft.Exact json fun _ j => j.Exact ∧ j.normal = j := by
  intro room d j hd h
  obtain ⟨value, hvalue, rfl⟩ := exists_of_map_eq_ok h
  exact ⟨Json.exact_normal (Draft.exact_of_value hd hvalue), Json.normal_normal value⟩

/-- Doubles are finite. -/
theorem yields_double : Yields Draft.Exact double fun _ x => x.isFinite = true := by
  intro room d x hd h
  unfold double at h
  split at h
  · obtain rfl := Except.ok.inj h
    obtain ⟨⟩ := hd
    exact Number.Exact.isFinite_toDouble ‹_›
  · cases h

/-- Integers lie between their bounds. -/
theorem yields_integer {least largest : Int} {expected : String} {D : Draft → Prop} :
    Yields D (integer least largest expected) fun _ i => least ≤ i ∧ i ≤ largest := by
  intro room d i _ h
  unfold integer at h
  split at h
  · split at h
    · rename_i hbounds
      obtain rfl := Except.ok.inj h
      exact hbounds
    · cases h
  · cases h

/-- Natural numbers are below their bound. -/
theorem yields_natural {bits : Nat} {expected : String} {D : Draft → Prop} :
    Yields D (natural bits expected) fun _ n => n < 2 ^ bits := by
  intro room d n hd h
  obtain ⟨i, hi, rfl⟩ := exists_of_map_eq_ok h
  obtain ⟨hleast, hlargest⟩ := yields_integer room d i hd hi
  have hcast : ((2 ^ bits : Nat) : Int) = 2 ^ bits := Int.natCast_pow 2 bits
  omega

end Reader

end BlockRobot
