import BlockRobot.Json.Record
import BlockRobot.Proofs.Json.Drafting

/-!
# Readers that read what was written

A reader reads a value back (`Reader.Reads`) if from the draft of what was written it makes
the value that was meant, whenever there is room for the brackets, and finds the text broken
where there is not.  Nothing else can happen to a text that was written, and how much room is
needed is the depth of the value that was written (`Json.depth`).

The statement is about room because readers are put together by it: an array needs one
bracket more than the deepest of its items, and if one of them is too deep the text is broken
at that item, after everything before it was read without objection.  So `Reads` goes from
parts to wholes, for arrays and for objects with names of any sort.
-/

namespace BlockRobot

namespace Json

mutual

/-- How deep the brackets of a value are nested. -/
def depth : Json → Nat
  | null => 0
  | bool _ => 0
  | number _ => 0
  | text _ => 0
  | array items => itemDepth items + 1
  | object members => memberDepth members + 1

/-- How deep the brackets of items are nested. -/
def itemDepth : List Json → Nat
  | [] => 0
  | item :: items => max (depth item) (itemDepth items)

/-- How deep the brackets of the values of members are nested. -/
def memberDepth : List (String × Json) → Nat
  | [] => 0
  | (_, value) :: members => max (depth value) (memberDepth members)

end

end Json

/-! ## Room -/

section Room

variable {α β : Type}

/-- A value if there is room for so many brackets; otherwise the text is broken. -/
def within (room depth : Nat) (a : α) : Except ReadError α :=
  if depth ≤ room then .ok a else .error (.fault .broken)

@[simp] theorem within_succ (room depth : Nat) (a : α) :
    within (room + 1) (depth + 1) a = within room depth a := by
  simp [within]

theorem within_map (room depth : Nat) (a : α) (f : α → β) :
    (within room depth a).map f = within room depth (f a) := by
  rw [within, within]
  split <;> rfl

/-- Two parts one after the other need the room of the deeper one. -/
theorem within_bind (room m n : Nat) (a : α) {f : α → Except ReadError β} {b : β}
    (hf : f a = within room n b) : (within room m a >>= f) = within room (max m n) b := by
  rw [within, within]
  by_cases hm : m ≤ room
  · rw [if_pos hm]
    show f a = _
    rw [hf, within]
    by_cases hn : n ≤ room
    · rw [if_pos hn, if_pos (Nat.max_le.2 ⟨hm, hn⟩)]
    · rw [if_neg hn, if_neg fun h => hn (Nat.max_le.1 h).2]
  · rw [if_neg hm, if_neg fun h => hm (Nat.max_le.1 h).1]
    rfl

/-- A part and something that needs no room. -/
theorem within_bind_ok (room n : Nat) (a : α) {f : α → Except ReadError β} {b : β}
    (hf : f a = .ok b) : (within room n a >>= f) = within room n b := by
  have hbind := within_bind room n 0 a (f := f) (b := b) hf
  rwa [Nat.max_zero] at hbind

end Room

namespace Draft

mutual

/-- Everything is read as it was written, if there is room. -/
theorem value_draft : ∀ (j : Json) (room : Nat), j.draft.value room = within room j.depth j
  | .null, _ => rfl
  | .bool _, _ => rfl
  | .number _, _ => rfl
  | .text _, _ => rfl
  | .array _, 0 => rfl
  | .array items, room + 1 => by
    rw [Json.draft, value, valueItems_itemDrafts items room, Json.depth, within_succ]
    exact within_bind_ok _ _ _ rfl
  | .object _, 0 => rfl
  | .object members, room + 1 => by
    rw [Json.draft, value, valueMembers_memberDrafts members room, Json.depth, within_succ]
    exact within_bind_ok _ _ _ rfl

theorem valueItems_itemDrafts : ∀ (items : List Json) (room : Nat),
    valueItems room (Json.itemDrafts items) = within room (Json.itemDepth items) items
  | [], _ => rfl
  | item :: items, room => by
    rw [Json.itemDrafts, valueItems, value_draft item room, valueItems_itemDrafts items room]
    exact within_bind _ _ _ _ (within_bind_ok _ _ _ rfl)

theorem valueMembers_memberDrafts : ∀ (members : List (String × Json)) (room : Nat),
    valueMembers room (Json.memberDrafts members) = within room (Json.memberDepth members) members
  | [], _ => rfl
  | (name, v) :: members, room => by
    rw [Json.memberDrafts, valueMembers, value_draft v room, valueMembers_memberDrafts members room]
    exact within_bind _ _ _ _ (within_bind_ok _ _ _ rfl)

end

end Draft

/-! ## Reading back -/

namespace Reader

variable {α β : Type}

/-- A reader reads a value back from what was written for it, wherever there are no more than
`limit` brackets of room. -/
def Reads (limit : Nat) (r : Reader α) (j : Json) (a : α) : Prop :=
  ∀ room ≤ limit, r room j.draft = within room j.depth a

variable {limit : Nat} {r : Reader α}

theorem Reads.mono {j : Json} {a : α} (h : Reads limit r j a) {smaller : Nat}
    (hle : smaller ≤ limit) : Reads smaller r j a :=
  fun room hroom => h room (Nat.le_trans hroom hle)

/-- What was written for a value is read back from its text, if it can be written and is not too
deep. -/
theorem Reads.run_toText {j : Json} {a : α} (h : Reads depth r j a) (hj : j.Exact)
    (hdepth : j.depth ≤ depth) : r.run j.toText = .ok a := by
  rw [Reader.run_toText r hj, h depth (Nat.le_refl _)]
  exact if_pos hdepth

theorem reads_text (s : String) : Reads limit text (.text s) s := fun _ _ => rfl

theorem reads_double (d : Double) : Reads limit double (.ofDouble d) d := fun _ _ => rfl

theorem reads_natural {bits n : Nat} (hn : n < 2 ^ bits) (expected : String) :
    Reads limit (natural bits expected) (.ofInt n) n := by
  intro room _
  have hbounds : (0 : Int) ≤ n ∧ (n : Int) ≤ 2 ^ bits - 1 := by
    have hcast : ((2 ^ bits : Nat) : Int) = 2 ^ bits := Int.natCast_pow 2 bits
    omega
  have hread : integer 0 (2 ^ bits - 1) expected room (Json.ofInt n).draft = .ok (n : Int) :=
    if_pos hbounds
  rw [natural, hread]
  rfl

theorem reads_integer32 {i : Int} (hi : Double.leastInteger ≤ i ∧ i ≤ Double.largestInteger) :
    Reads limit integer32 (.ofInt i) i := fun _ _ => if_pos hi

/-- A value in normal form is read as it was written. -/
theorem reads_json {j : Json} (hj : j.normal = j) : Reads limit json j j := by
  intro room _
  rw [json, Draft.value_draft, within_map, hj]

/-- What was written for an object may also be read where nothing may stand. -/
theorem Reads.option {members : List (String × Json)} {a : α}
    (h : Reads limit r (.object members) a) :
    Reads limit (option r) (.object members) (some a) := by
  intro room hroom
  have hread := h room hroom
  rw [Json.draft] at hread ⊢
  rw [Reader.option, hread, within_map]
  rintro ⟨⟩

theorem items_map {f : α → Json} {as : List α} (h : ∀ a ∈ as, Reads limit r (f a) a) {room : Nat}
    (hroom : room ≤ limit) :
    items r room (Json.itemDrafts (as.map f)) = within room (Json.itemDepth (as.map f)) as := by
  induction as with
  | nil => rfl
  | cons a as ih =>
    rw [List.map_cons, Json.itemDrafts, items, h a (List.mem_cons_self ..) room hroom,
      ih fun b hb => h b (List.mem_cons_of_mem a hb)]
    exact within_bind _ _ _ _ (within_bind_ok _ _ _ rfl)

/-- An array is read back if its items are. -/
theorem reads_list {f : α → Json} {as : List α} (h : ∀ a ∈ as, Reads limit r (f a) a) :
    Reads (limit + 1) (list r) (.array (as.map f)) as := by
  intro room hroom
  cases room with
  | zero => rfl
  | succ room =>
    rw [Json.draft, list, items_map h (Nat.le_of_succ_le_succ hroom), Json.depth, within_succ]
    exact within_bind_ok _ _ _ rfl

theorem entries_map {f : α → Json} {es : List (String × α)}
    (h : ∀ e ∈ es, Reads limit r (f e.2) e.2) {room : Nat} (hroom : room ≤ limit) :
    entries r room (Json.memberDrafts (es.map fun e => (e.1, f e.2))) =
      within room (Json.memberDepth (es.map fun e => (e.1, f e.2))) es := by
  induction es with
  | nil => rfl
  | cons e es ih =>
    obtain ⟨name, a⟩ := e
    rw [List.map_cons, Json.memberDrafts, entries, h (name, a) (List.mem_cons_self ..) room hroom,
      ih fun b hb => h b (List.mem_cons_of_mem _ hb)]
    exact within_bind _ _ _ _ (within_bind_ok _ _ _ rfl)

end Reader

/-! ### Names in order -/

/-- The entries of a list stand in the order of their names, each name once. -/
def SortedByName {α : Type} (entries : List (String × α)) : Prop :=
  entries.Pairwise fun a b => a.1 < b.1

/-- An entry whose name comes after all others is put at the end. -/
theorem putByName_of_forall_lt {α : Type} {name : String} (a : α) {entries : List (String × α)}
    (h : ∀ e ∈ entries, e.1 < name) : putByName name a entries = entries ++ [(name, a)] := by
  induction entries with
  | nil => rfl
  | cons e entries ih =>
    obtain ⟨key, b⟩ := e
    have hlt : key < name := h (key, b) (List.mem_cons_self ..)
    have hnot : ¬name < key := fun hgt =>
      List.lt_asymm (String.lt_iff.1 hlt) (String.lt_iff.1 hgt)
    have hne : name ≠ key := by
      rintro rfl
      exact List.lt_irrefl _ (String.lt_iff.1 hlt)
    rw [putByName, if_neg hnot, if_neg hne, ih fun e he => h e (List.mem_cons_of_mem _ he),
      List.cons_append]

/-- If what comes after all others is put at the end, putting in what stands in order leaves it as
it is. -/
theorem foldl_put_eq {α : Type} {R : α → α → Prop} {f : α → List α → List α}
    (hput : ∀ a as, (∀ b ∈ as, R b a) → f a as = as ++ [a]) {as : List α} (h : as.Pairwise R) :
    as.foldl (fun sorted a => f a sorted) [] = as := by
  have hfold : ∀ before : List α, (before ++ as).Pairwise R →
      as.foldl (fun sorted a => f a sorted) before = before ++ as := by
    clear h
    induction as with
    | nil => exact fun before _ => (List.append_nil _).symm
    | cons a as ih =>
      intro before hsorted
      have hlast : ∀ b ∈ before, R b a := fun b hb =>
        (List.pairwise_append.1 hsorted).2.2 b hb a (List.mem_cons_self ..)
      rw [List.foldl_cons, hput a before hlast, ih, List.append_assoc, List.singleton_append]
      rwa [List.append_assoc, List.singleton_append]
  exact hfold [] h

/-- Entries in order are left as they are. -/
theorem SortedByName.sortByName_eq {α : Type} {entries : List (String × α)}
    (h : SortedByName entries) : sortByName entries = entries :=
  foldl_put_eq (f := fun e entries => putByName e.1 e.2 entries)
    (fun e _ hlast => putByName_of_forall_lt e.2 hlast) h

/-- An object with names of any sort is read back if the values are, and the names stand in
order. -/
theorem Reader.reads_byName {α : Type} {limit : Nat} {r : Reader α} {f : α → Json}
    {es : List (String × α)} (hsorted : SortedByName es)
    (h : ∀ e ∈ es, Reads limit r (f e.2) e.2) :
    Reads (limit + 1) (byName r) (.object (es.map fun e => (e.1, f e.2))) es := by
  intro room hroom
  cases room with
  | zero => rfl
  | succ room =>
    rw [Json.draft, byName, entries_map h (Nat.le_of_succ_le_succ hroom), Json.depth, within_succ]
    refine within_bind_ok _ _ _ ?_
    rw [hsorted.sortByName_eq]
    rfl

end BlockRobot
