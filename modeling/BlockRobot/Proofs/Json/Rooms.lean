import BlockRobot.Proofs.Json.Yields

/-!
# What is read fits into its room

A reader is given room for so many brackets and never looks deeper.  So whatever it reads can
be written again in the same room, provided that writing opens no bracket that reading did not
meet (`Reader.Fits`).

This is a matter of what readers yield, from any draft (`Reader.fits_iff_yields`), so it goes
from parts to wholes like everything that is yielded.  For records, whose members are written
each in its own way, there is no lemma here: the measure is a property that the blank record
has and that every field keeps.
-/

namespace BlockRobot

/-! ## Depths -/

namespace Json

theorem itemDepth_le_iff {items : List Json} {n : Nat} :
    itemDepth items ≤ n ↔ ∀ j ∈ items, j.depth ≤ n := by
  induction items with
  | nil => exact iff_of_true (Nat.zero_le n) nofun
  | cons item items ih => rw [itemDepth, Nat.max_le, ih, List.forall_mem_cons]

theorem memberDepth_le_iff {members : List (String × Json)} {n : Nat} :
    memberDepth members ≤ n ↔ ∀ m ∈ members, m.2.depth ≤ n := by
  induction members with
  | nil => exact iff_of_true (Nat.zero_le n) nofun
  | cons m members ih => rw [memberDepth, Nat.max_le, ih, List.forall_mem_cons]

/-- An array is deeper than its items. -/
theorem depth_le_itemDepth {j : Json} {items : List Json} (h : j ∈ items) :
    j.depth ≤ itemDepth items :=
  itemDepth_le_iff.1 (Nat.le_refl _) j h

/-- An object is deeper than the values in it. -/
theorem depth_le_memberDepth {m : String × Json} {members : List (String × Json)}
    (h : m ∈ members) : m.2.depth ≤ memberDepth members :=
  memberDepth_le_iff.1 (Nat.le_refl _) m h

end Json

namespace Json

mutual

/-- A value is no deeper in normal form. -/
theorem depth_normal_le : ∀ j : Json, j.normal.depth ≤ j.depth
  | .null => Nat.le_refl _
  | .bool _ => Nat.le_refl _
  | .number _ => Nat.le_refl _
  | .text _ => Nat.le_refl _
  | .array items => Nat.succ_le_succ (itemDepth_normalItems_le items)
  | .object members => by
    refine Nat.succ_le_succ (memberDepth_le_iff.2 fun m hm => ?_)
    exact memberDepth_le_iff.1 (memberDepth_normalMembers_le members) m (mem_of_mem_sortByName hm)

theorem itemDepth_normalItems_le : ∀ items : List Json,
    itemDepth (normalItems items) ≤ itemDepth items
  | [] => Nat.le_refl _
  | item :: items => by
    have hitem := depth_normal_le item
    have hitems := itemDepth_normalItems_le items
    rw [normalItems, itemDepth, itemDepth]
    omega

theorem memberDepth_normalMembers_le : ∀ members : List (String × Json),
    memberDepth (normalMembers members) ≤ memberDepth members
  | [] => Nat.le_refl _
  | (name, value) :: members => by
    have hvalue := depth_normal_le value
    have hmembers := memberDepth_normalMembers_le members
    rw [normalMembers, memberDepth, memberDepth]
    omega

end

end Json

namespace Draft

mutual

/-- A value that is read as it is fits into its room. -/
theorem depth_le_of_value : ∀ {d : Draft} {room : Nat} {j : Json},
    d.value room = .ok j → j.depth ≤ room
  | .scalar .null, _, _, h => by cases h; exact Nat.zero_le _
  | .scalar (.bool _), _, _, h => by cases h; exact Nat.zero_le _
  | .scalar (.number _), _, _, h => by cases h; exact Nat.zero_le _
  | .scalar (.text _), _, _, h => by cases h; exact Nat.zero_le _
  | .array items close, room + 1, j, h => by
    rw [value] at h
    obtain ⟨values, hvalues, hclose⟩ := exists_of_bind_eq_ok h
    rw [← eq_of_closing_eq_ok hclose]
    exact Nat.succ_le_succ (itemDepth_le_of_valueItems hvalues)
  | .object members close, room + 1, j, h => by
    rw [value] at h
    obtain ⟨values, hvalues, hclose⟩ := exists_of_bind_eq_ok h
    rw [← eq_of_closing_eq_ok hclose]
    exact Nat.succ_le_succ (memberDepth_le_of_valueMembers hvalues)

theorem itemDepth_le_of_valueItems : ∀ {items : List Draft} {room : Nat} {js : List Json},
    valueItems room items = .ok js → Json.itemDepth js ≤ room
  | [], _, _, h => by cases h; exact Nat.zero_le _
  | item :: items, room, js, h => by
    rw [valueItems] at h
    obtain ⟨j, hj, h⟩ := exists_of_bind_eq_ok h
    obtain ⟨rest, hrest, h⟩ := exists_of_bind_eq_ok h
    obtain rfl := Except.ok.inj h
    exact Nat.max_le.2 ⟨depth_le_of_value hj, itemDepth_le_of_valueItems hrest⟩

theorem memberDepth_le_of_valueMembers : ∀ {members : List (Draft × Draft)} {room : Nat}
    {js : List (String × Json)}, valueMembers room members = .ok js → Json.memberDepth js ≤ room
  | [], _, _, h => by cases h; exact Nat.zero_le _
  | (key, d) :: members, room, js, h => by
    rw [valueMembers] at h
    obtain ⟨name, -, h⟩ := exists_of_bind_eq_ok h
    obtain ⟨j, hj, h⟩ := exists_of_bind_eq_ok h
    obtain ⟨rest, hrest, h⟩ := exists_of_bind_eq_ok h
    obtain rfl := Except.ok.inj h
    exact Nat.max_le.2 ⟨depth_le_of_value hj, memberDepth_le_of_valueMembers hrest⟩

end

end Draft

/-! ## Readers -/

namespace Reader

variable {α : Type} {r : Reader α} {f : α → Json}

/-- Whatever a reader reads fits into its room when it is written. -/
def Fits (r : Reader α) (f : α → Json) : Prop :=
  ∀ room d a, r room d = .ok a → (f a).depth ≤ room

theorem fits_iff_yields :
    r.Fits f ↔ Yields (fun _ => True) r fun room a => (f a).depth ≤ room :=
  ⟨fun h room d a _ => h room d a, fun h room d a => h room d a trivial⟩

theorem fits_json : json.Fits id := by
  intro room d a h
  obtain ⟨j, hj, rfl⟩ := exists_of_map_eq_ok h
  exact Nat.le_trans j.depth_normal_le (Draft.depth_le_of_value hj)

/-- The items of an array that has been read, each in the room behind its bracket. -/
theorem exists_room_of_list (h : r.Fits f) {room : Nat} {d : Draft} {as : List α}
    (hread : list r room d = .ok as) :
    ∃ inner, room = inner + 1 ∧ ∀ a ∈ as, (f a).depth ≤ inner :=
  (fits_iff_yields.1 h).list Draft.hereditary_true room d as trivial hread

/-- An object with names of any sort. -/
theorem fits_byName (h : r.Fits f) :
    (byName r).Fits fun es => .object (es.map fun e => (e.1, f e.2)) := by
  intro room d es hread
  obtain ⟨inner, rfl, -, hes⟩ :=
    (fits_iff_yields.1 h).byName Draft.hereditary_true room d es trivial hread
  refine Nat.succ_le_succ (Json.memberDepth_le_iff.2 fun m hm => ?_)
  obtain ⟨e, he, rfl⟩ := List.mem_map.1 hm
  exact hes e he

/-- Readers made in rounds fit if one round more keeps that. -/
theorem fits_recursive {body : Reader α → Reader α}
    (hbody : ∀ inner : Reader α, inner.Fits f → (body inner).Fits f) :
    (recursive body).Fits f :=
  fits_iff_yields.2 (yields_recursive fun inner h =>
    fits_iff_yields.1 (hbody inner (fits_iff_yields.2 h)))

end Reader

end BlockRobot
