import BlockRobot.Proofs.Json.Records

/-!
# What readers yield

A reader is given a draft and room for some brackets.  `Reader.Yields D r P` says that
whatever `r` reads from a draft with the property `D` has the property `P`, which may speak of
the room that reading had.  It says nothing about how the text looked: members may have been
skipped, repeated or in any order, and records may have been arrays.

`Yields` goes from parts to wholes, like `Reader.Reads`, but in the other direction: there the
value is given and the text is known, here a text has been read and the value is looked at.
For this `D` must hold of the parts of a draft if it holds of the draft
(`Draft.Hereditary`).  What an array or object yields is known of the room behind its bracket.

For records, whose members are read each in its own way, the property is one that the blank
record has and that every field keeps when it is filled in (`Record.invariant_of_read`).
-/

namespace BlockRobot

/-! ## Steps that succeed -/

section Steps

variable {α β : Type}

theorem exists_of_bind_eq_ok {x : Except ReadError α} {f : α → Except ReadError β} {b : β}
    (h : (x >>= f) = .ok b) : ∃ a, x = .ok a ∧ f a = .ok b := by
  cases x with
  | error e => cases h
  | ok a => exact ⟨a, rfl, h⟩

theorem exists_of_map_eq_ok {x : Except ReadError α} {f : α → β} {b : β}
    (h : x.map f = .ok b) : ∃ a, x = .ok a ∧ f a = b := by
  cases x with
  | error e => cases h
  | ok a => exact ⟨a, rfl, Except.ok.inj h⟩

theorem exists_of_toOption_map_eq_some {x : Except ReadError α} {f : α → β} {b : β}
    (h : x.toOption.map f = some b) : ∃ a, x = .ok a ∧ f a = b := by
  cases x with
  | error e => cases h
  | ok a => exact ⟨a, rfl, Option.some.inj h⟩

theorem eq_of_closing_eq_ok {close : Option Fault} {a b : α} (h : closing close a = .ok b) :
    a = b := by
  cases close with
  | none => exact Except.ok.inj h
  | some f => cases h

end Steps

/-! ## Sorting by name -/

section Sorting

variable {α : Type}

/-- Whatever is in a list with an entry put in is the entry or was there. -/
theorem of_mem_putByName {name : String} {a : α} {entries : List (String × α)}
    {e : String × α} (he : e ∈ putByName name a entries) : e = (name, a) ∨ e ∈ entries := by
  induction entries with
  | nil => exact Or.inl (List.mem_singleton.1 he)
  | cons entry entries ih =>
    obtain ⟨key, b⟩ := entry
    unfold putByName at he
    split at he
    · exact List.mem_cons.1 he
    · split at he
      · exact (List.mem_cons.1 he).imp_right (List.mem_cons_of_mem _)
      · rcases List.mem_cons.1 he with rfl | he
        · exact Or.inr (List.mem_cons_self ..)
        · exact (ih he).imp_right (List.mem_cons_of_mem _)

/-- What holds of a list and is kept by putting entries in holds of a sorted list. -/
theorem sortByName_induction {P : List (String × α) → Prop} {entries : List (String × α)}
    (hnil : P []) (hput : ∀ e ∈ entries, ∀ sorted, P sorted → P (putByName e.1 e.2 sorted)) :
    P (sortByName entries) := by
  have hfold : ∀ (entries sorted : List (String × α)), P sorted →
      (∀ e ∈ entries, ∀ sorted, P sorted → P (putByName e.1 e.2 sorted)) →
      P (entries.foldl (fun sorted entry => putByName entry.1 entry.2 sorted) sorted) := by
    intro entries
    induction entries with
    | nil => exact fun sorted hsorted _ => hsorted
    | cons e entries ih =>
      intro sorted hsorted hput
      exact ih _ (hput e (List.mem_cons_self ..) sorted hsorted)
        fun x hx => hput x (List.mem_cons_of_mem e hx)
  exact hfold entries [] hnil hput

/-- Sorting adds nothing. -/
theorem mem_of_mem_sortByName {entries : List (String × α)} {e : String × α}
    (he : e ∈ sortByName entries) : e ∈ entries := by
  have hall : ∀ e ∈ sortByName entries, e ∈ entries := by
    refine sortByName_induction (P := fun sorted => ∀ e ∈ sorted, e ∈ entries) nofun ?_
    intro x hx sorted hsorted e he
    rcases of_mem_putByName he with rfl | he
    · exact hx
    · exact hsorted e he
  exact hall e he

theorem SortedByName.putByName {entries : List (String × α)} (h : SortedByName entries)
    (name : String) (a : α) : SortedByName (putByName name a entries) := by
  induction entries with
  | nil => exact List.pairwise_singleton _ _
  | cons entry entries ih =>
    obtain ⟨key, b⟩ := entry
    obtain ⟨hfirst, hrest⟩ := List.pairwise_cons.1 h
    unfold BlockRobot.putByName
    split
    · rename_i hlt
      refine List.pairwise_cons.2 ⟨fun e he => ?_, h⟩
      rcases List.mem_cons.1 he with rfl | he
      · exact hlt
      · exact String.lt_trans hlt (hfirst e he)
    · rename_i hnot
      split
      · rename_i heq
        subst heq
        exact List.pairwise_cons.2 ⟨hfirst, hrest⟩
      · rename_i hne
        have hgt : key < name :=
          Std.lt_of_le_of_ne (String.not_lt.1 hnot) (Ne.symm hne)
        refine List.pairwise_cons.2 ⟨fun e he => ?_, ih hrest⟩
        rcases of_mem_putByName he with rfl | he
        · exact hgt
        · exact hfirst e he

/-- **A sorted list is sorted.** -/
theorem sortedByName_sortByName (entries : List (String × α)) :
    SortedByName (sortByName entries) :=
  sortByName_induction List.Pairwise.nil fun e _ _ hsorted => hsorted.putByName e.1 e.2

end Sorting

/-! ## Properties of drafts -/

namespace Draft

/-- A property of drafts that the parts of a draft share with it. -/
structure Hereditary (D : Draft → Prop) : Prop where
  items : ∀ {items close}, D (.array items close) → ∀ d ∈ items, D d
  values : ∀ {members close}, D (.object members close) → ∀ m ∈ members, D m.2

/-- What holds of every draft is shared. -/
theorem hereditary_true : Hereditary fun _ => True := ⟨fun _ _ _ => trivial, fun _ _ _ => trivial⟩

end Draft

/-! ## Readers -/

namespace Reader

variable {α : Type} {r : Reader α} {D : Draft → Prop} {P : Nat → α → Prop}

/-- Whatever a reader reads from drafts of one sort is of another, as the room may decide. -/
def Yields (D : Draft → Prop) (r : Reader α) (P : Nat → α → Prop) : Prop :=
  ∀ room d a, D d → r room d = .ok a → P room a

/-- Something that is read where nothing may stand is read by the reader for it. -/
theorem of_option {room : Nat} {d : Draft} {a : α} (h : option r room d = .ok (some a)) :
    r room d = .ok a := by
  unfold option at h
  split at h
  · cases h
  · obtain ⟨b, hb, hab⟩ := exists_of_map_eq_ok h
    rw [hb, Option.some.inj hab]

/-- Where nothing may stand, either nothing or what the reader yields is read. -/
theorem Yields.option (h : Yields D r P) :
    Yields D (option r) fun room found => ∀ a, found = some a → P room a := by
  rintro room d found hd hread a rfl
  exact h room d a hd (of_option hread)

theorem yields_items (h : Yields D r P) {room : Nat} : ∀ {ds : List Draft} {as : List α},
    (∀ d ∈ ds, D d) → items r room ds = .ok as → ∀ a ∈ as, P room a
  | [], _, _, hread, a, ha => by cases hread; cases ha
  | d :: ds, as, hds, hread, a, ha => by
    obtain ⟨hd, hds⟩ := List.forall_mem_cons.1 hds
    rw [items] at hread
    obtain ⟨first, hfirst, hread⟩ := exists_of_bind_eq_ok hread
    obtain ⟨rest, hrest, hread⟩ := exists_of_bind_eq_ok hread
    obtain rfl := Except.ok.inj hread
    rcases List.mem_cons.1 ha with rfl | ha
    · exact h room d a hd hfirst
    · exact yields_items h hds hrest a ha

/-- The items of an array, each in the room behind its bracket. -/
theorem Yields.list (h : Yields D r P) (hD : Draft.Hereditary D) :
    Yields D (list r) fun room as => ∃ inner, room = inner + 1 ∧ ∀ a ∈ as, P inner a := by
  intro room d as hd hread
  unfold Reader.list at hread
  split at hread
  · cases hread
  · obtain ⟨read, hitems, hclose⟩ := exists_of_bind_eq_ok hread
    obtain rfl := eq_of_closing_eq_ok hclose
    exact ⟨_, rfl, yields_items h (hD.items hd) hitems⟩
  · cases hread

theorem yields_entries (h : Yields D r P) {room : Nat} : ∀ {members : List (Draft × Draft)}
    {es : List (String × α)}, (∀ m ∈ members, D m.2) → entries r room members = .ok es →
    ∀ e ∈ es, P room e.2
  | [], _, _, hread, e, he => by cases hread; cases he
  | (key, d) :: members, es, hmembers, hread, e, he => by
    obtain ⟨hd, hmembers⟩ := List.forall_mem_cons.1 hmembers
    rw [entries] at hread
    obtain ⟨name, -, hread⟩ := exists_of_bind_eq_ok hread
    obtain ⟨a, ha, hread⟩ := exists_of_bind_eq_ok hread
    obtain ⟨rest, hrest, hread⟩ := exists_of_bind_eq_ok hread
    obtain rfl := Except.ok.inj hread
    rcases List.mem_cons.1 he with rfl | he
    · exact h room d a hd ha
    · exact yields_entries h hmembers hrest e he

/-- The values in an object with names of any sort, which are brought in order. -/
theorem Yields.byName (h : Yields D r P) (hD : Draft.Hereditary D) :
    Yields D (byName r) fun room es =>
      ∃ inner, room = inner + 1 ∧ SortedByName es ∧ ∀ e ∈ es, P inner e.2 := by
  intro room d es hd hread
  unfold Reader.byName at hread
  split at hread
  · cases hread
  · obtain ⟨found, hfound, hclose⟩ := exists_of_bind_eq_ok hread
    obtain rfl := eq_of_closing_eq_ok hclose
    refine ⟨_, rfl, sortedByName_sortByName found, fun e he => ?_⟩
    exact yields_entries h (hD.values hd) hfound e (mem_of_mem_sortByName he)
  · cases hread

/-- What one round more keeps is yielded by a reader made in rounds. -/
theorem yields_recursive {body : Reader α → Reader α}
    (hbody : ∀ inner : Reader α, Yields D inner P → Yields D (body inner) P) :
    Yields D (recursive body) P := by
  have hnested : ∀ rounds, Yields D (nested body rounds) P := by
    intro rounds
    induction rounds with
    | zero => exact hbody _ fun room d a _ h => by cases h
    | succ rounds ih => exact hbody _ ih
  exact fun room d a hd h => hnested room room d a hd h

end Reader

/-! ## Records -/

namespace Record

variable {ρ : Type} {D : Draft → Prop} {P : Nat → ρ → Prop}

/-- A property of records, in a given room, that the fields of a record keep when they are
filled in from drafts of one sort. -/
def KeptBy (D : Draft → Prop) (fields : List (Field ρ)) (P : Nat → ρ → Prop) : Prop :=
  ∀ field ∈ fields, ∀ room d a b, D d → P room a → field.fill room d a = .ok b → P room b

theorem keptBy_nil : KeptBy D [] P := fun _ h => by cases h

/-- A field with a reader, in front of others. -/
theorem KeptBy.cons {α : Type} {name : String} {need : Need} {r : Reader α} {put : ρ → α → ρ}
    {fields : List (Field ρ)} (hfields : KeptBy D fields P)
    (hput : ∀ room d a x, D d → P room a → r room d = .ok x → P room (put a x)) :
    KeptBy D (.of name need r put :: fields) P := by
  intro field hfield room d a b hd ha hread
  rcases List.mem_cons.1 hfield with rfl | hfield
  · obtain ⟨x, hx, rfl⟩ := exists_of_map_eq_ok hread
    exact hput room d a x hd ha hx
  · exact hfields field hfield room d a b hd ha hread

theorem of_readMembers {fields : List (Field ρ)} (hkept : KeptBy D fields P) {room : Nat} :
    ∀ {members : List (Draft × Draft)} {seen : List String} {a : ρ} {read : List String × ρ},
      (∀ m ∈ members, D m.2) → P room a → readMembers fields room members seen a = .ok read →
      P room read.2
  | [], _, _, _, _, ha, hread => by cases hread; exact ha
  | (key, d) :: members, seen, a, read, hmembers, ha, hread => by
    obtain ⟨hd, hmembers⟩ := List.forall_mem_cons.1 hmembers
    rw [readMembers] at hread
    obtain ⟨name, -, hread⟩ := exists_of_bind_eq_ok hread
    split at hread
    · split at hread
      · cases hread
      · exact of_readMembers hkept hmembers ha hread
    · rename_i field hfield
      split at hread
      · cases hread
      · obtain ⟨b, hb, hread⟩ := exists_of_bind_eq_ok hread
        have hmem := List.mem_of_find?_eq_some hfield
        exact of_readMembers hkept hmembers (hkept field hmem room d a b hd ha hb) hread

theorem of_readItems {tooShort : Nat → ReadError} {close : Option Fault} {room : Nat} :
    ∀ {fields : List (Field ρ)}, KeptBy D fields P → ∀ {ds : List Draft} {index : Nat} {a b : ρ},
      (∀ d ∈ ds, D d) → P room a → readItems tooShort close room fields ds index a = .ok b →
      P room b
  | [], _, [], _, _, _, _, ha, hread => by
    rw [readItems] at hread
    exact eq_of_closing_eq_ok hread ▸ ha
  | [], _, _ :: _, _, _, _, _, _, hread => by cases hread
  | field :: fields, hkept, [], index, a, b, hds, ha, hread => by
    rw [readItems.eq_def] at hread
    dsimp only at hread
    split at hread
    · cases hread
    · split at hread
      · exact of_readItems (fun x hx => hkept x (List.mem_cons_of_mem _ hx)) hds ha hread
      · cases hread
  | field :: fields, hkept, d :: ds, index, a, b, hds, ha, hread => by
    obtain ⟨hd, hds⟩ := List.forall_mem_cons.1 hds
    rw [readItems] at hread
    obtain ⟨c, hc, hread⟩ := exists_of_bind_eq_ok hread
    exact of_readItems (fun x hx => hkept x (List.mem_cons_of_mem _ hx)) hds
      (hkept field (List.mem_cons_self ..) room d a c hd ha hc) hread

/-- **What the blank record has and every field keeps, a record that was read has**, in the room
behind its bracket. -/
theorem invariant_of_read (hD : Draft.Hereditary D) {record : Record ρ}
    (hblank : ∀ room, P room record.blank) (hkept : KeptBy D record.fields P) :
    Reader.Yields D record.read fun room a => ∃ inner, room = inner + 1 ∧ P inner a := by
  intro room d a hd hread
  unfold read at hread
  split at hread
  · cases hread
  · cases hread
  · exact ⟨_, rfl, of_readItems hkept (hD.items hd) (hblank _) hread⟩
  · obtain ⟨⟨seen, b⟩, hmembers, hread⟩ := exists_of_bind_eq_ok hread
    obtain ⟨c, hclose, hread⟩ := exists_of_bind_eq_ok hread
    obtain rfl := eq_of_closing_eq_ok hclose
    split at hread
    · cases hread
    · obtain rfl := Except.ok.inj hread
      exact ⟨_, rfl, of_readMembers hkept (hD.values hd) (hblank _) hmembers⟩
  · cases hread

end Record

end BlockRobot
