import BlockRobot.Proofs.Json.Reading

/-!
# Records read back from objects

Every member of an object that was written for a record is the value of one of its fields,
and no field comes twice.  Reading goes along the members and changes the record that is
built, beginning with the blank one.

`ReadsMembers` says that some members change one record into another.  It holds of a single
member whose field reads it (`readsMembers_singleton`), of none (`readsMembers_nil`), and of
two lists of members one behind the other (`ReadsMembers.append`), so it can be shown of the
members in the order in which they are written, those that may be left out included.
`ReadsMembers.read` is the statement for the record.
-/

namespace BlockRobot

variable {ρ α : Type}

/-- A field reads what was written for it and thereby changes one record into another. -/
def Field.Reads (limit : Nat) (field : Field ρ) (j : Json) (a b : ρ) : Prop :=
  ∀ room ≤ limit, field.fill room j.draft a = within room j.depth b

theorem Reader.Reads.field {limit : Nat} {r : Reader α} {j : Json} {x : α}
    (h : Reader.Reads limit r j x) (name : String) (need : Need) (put : ρ → α → ρ) (a : ρ) :
    (Field.of name need r put).Reads limit j a (put a x) := by
  intro room hroom
  show (r room j.draft).map (put a) = _
  rw [h room hroom, within_map]

namespace Json

theorem memberDrafts_append (as bs : List (String × Json)) :
    memberDrafts (as ++ bs) = memberDrafts as ++ memberDrafts bs := by
  induction as with
  | nil => rfl
  | cons a as ih => rw [List.cons_append, memberDrafts, ih, memberDrafts, List.cons_append]

theorem memberDepth_append (as bs : List (String × Json)) :
    memberDepth (as ++ bs) = max (memberDepth as) (memberDepth bs) := by
  induction as with
  | nil => exact (Nat.zero_max _).symm
  | cons a as ih => rw [List.cons_append, memberDepth, ih, memberDepth, Nat.max_assoc]

end Json

namespace Record

/-- Members are read one list after the other. -/
theorem readMembers_append (fields : List (Field ρ)) (room : Nat) (xs ys : List (Draft × Draft))
    (seen : List String) (a : ρ) :
    readMembers fields room (xs ++ ys) seen a =
      (readMembers fields room xs seen a >>= fun r => readMembers fields room ys r.1 r.2) := by
  induction xs generalizing seen a with
  | nil => rfl
  | cons x xs ih =>
    obtain ⟨key, d⟩ := x
    rw [List.cons_append, readMembers, readMembers, bind_assoc]
    congr 1
    funext name
    cases fields.find? fun field => field.name = name with
    | none =>
      dsimp only
      cases d.skip with
      | none => exact ih seen a
      | some f => rfl
    | some field =>
      dsimp only
      split
      · rfl
      · rw [bind_assoc]
        congr 1
        funext b
        exact ih (name :: seen) b

variable {limit : Nat} {fields : List (Field ρ)}

/-- Some members change one record into another when they are read. -/
def ReadsMembers (limit : Nat) (fields : List (Field ρ)) (ms : List (String × Json))
    (a b : ρ) : Prop :=
  ∀ room ≤ limit, ∀ seen, (ms.map Prod.fst ++ seen).Nodup →
    readMembers fields room (Json.memberDrafts ms) seen a =
      within room (Json.memberDepth ms) ((ms.map Prod.fst).reverse ++ seen, b)

theorem readsMembers_nil (a : ρ) : ReadsMembers limit fields [] a a := fun _ _ _ _ => rfl

/-- A member whose field reads its value. -/
theorem readsMembers_singleton {name : String} {field : Field ρ} {j : Json} {a b : ρ}
    (hfield : fields.find? (fun field => field.name = name) = some field)
    (h : field.Reads limit j a b) : ReadsMembers limit fields [(name, j)] a b := by
  intro room hroom seen hnodup
  have hnew : seen.contains name = false := by
    have hmem : name ∉ seen := (List.nodup_cons.1 hnodup).1
    simpa using hmem
  have hname : (Draft.scalar (.text name)).name = pure name := rfl
  rw [Json.memberDrafts, readMembers, hname, pure_bind, hfield]
  dsimp only
  rw [hnew, if_neg (by simp), h room hroom, Json.memberDepth]
  exact within_bind _ _ _ _ rfl

/-- Members behind others. -/
theorem ReadsMembers.append {ms ns : List (String × Json)} {a b c : ρ}
    (hms : ReadsMembers limit fields ms a b) (hns : ReadsMembers limit fields ns b c) :
    ReadsMembers limit fields (ms ++ ns) a c := by
  intro room hroom seen hnodup
  rw [List.map_append, List.append_assoc] at hnodup
  have hfirst : (ms.map Prod.fst ++ seen).Nodup := by
    refine hnodup.sublist (List.Sublist.append_left ?_ _)
    exact List.sublist_append_right _ _
  have hsecond : (ns.map Prod.fst ++ ((ms.map Prod.fst).reverse ++ seen)).Nodup := by
    refine (List.Perm.nodup_iff ?_).2 hnodup
    refine List.perm_append_comm_assoc _ _ _ |>.trans ?_
    exact (List.reverse_perm _).append_right _
  rw [Json.memberDrafts_append, readMembers_append, hms room hroom seen hfirst,
    Json.memberDepth_append, List.map_append, List.reverse_append, List.append_assoc]
  exact within_bind _ _ _ _ (hns room hroom _ hsecond)

/-- A member whose field reads its value, in front of others. -/
theorem ReadsMembers.cons {name : String} {need : Need} {r : Reader α} {put : ρ → α → ρ} {j : Json}
    {x : α} {ms : List (String × Json)} {a b : ρ}
    (hfield : fields.find? (fun field => field.name = name) = some (.of name need r put))
    (h : Reader.Reads limit r j x) (hms : ReadsMembers limit fields ms (put a x) b) :
    ReadsMembers limit fields ((name, j) :: ms) a b :=
  (readsMembers_singleton hfield (h.field name need put a)).append hms

/-- The names of the fields that an object must have. -/
def needed (record : Record ρ) : List String :=
  (record.fields.filter fun field => field.need = .always).map Field.name

/-- **A record is read back** from an object whose members change the blank record into it,
if no name comes twice and every field is there that must be. -/
theorem ReadsMembers.read {record : Record ρ} {ms : List (String × Json)} {b : ρ}
    (h : ReadsMembers limit record.fields ms record.blank b) (hnodup : (ms.map Prod.fst).Nodup)
    (hneeded : ∀ name ∈ record.needed, name ∈ ms.map Prod.fst) :
    Reader.Reads (limit + 1) record.read (.object ms) b := by
  intro room hroom
  cases room with
  | zero => rfl
  | succ room =>
    have hmissing : missing? record.fields ((ms.map Prod.fst).reverse ++ []) = none := by
      rw [missing?, Option.map_eq_none_iff, List.find?_eq_none]
      intro field hfield
      by_cases hneed : field.need = .always
      · have hmem := hneeded field.name (List.mem_map_of_mem (List.mem_filter.2
          ⟨hfield, decide_eq_true hneed⟩))
        simp only [List.append_nil, hneed, decide_true, Bool.true_and]
        simpa using hmem
      · simp [hneed]
    rw [Json.draft, Record.read, h room (Nat.le_of_succ_le_succ hroom) [] (by simpa using hnodup),
      Json.depth, within_succ]
    refine within_bind_ok _ _ _ ?_
    have hclose : closing none b = pure b := rfl
    dsimp only
    rw [hclose, pure_bind, hmissing]
    rfl

end Record

end BlockRobot
