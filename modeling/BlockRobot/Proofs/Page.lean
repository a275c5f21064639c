import BlockRobot.Page
import BlockRobot.Proofs.Compilation.Text

/-!
# What the page can rely on

Two texts go in and one comes out, whatever they are.  The answer of `Page.compile` can be read
(`Page.read_compile`): it is the outcome of a compilation, and it agrees with itself and with
what `Page.validate` says of the program in it (`Page.compile_is_consistent`).

There are only two sorts of answers (`Page.compilation_cases`).  Either one of the texts could
not be read, and the answer is a diagnostic without a program; or a drawing was read, and
because a drawing that was read is not too deep, neither is its program.
-/

namespace BlockRobot

/-- A broken rule is reported by a code of its own, and not as a text that cannot be read. -/
theorem RuleBroken.code_bounds (r : RuleBroken) :
    r.diagnostic.code < 2 ^ 16 ∧ r.diagnostic.code ≠ Diagnostic.malformedWorkspace := by
  cases r with
  | empty => decide
  | missingStart => decide
  | tooLong count =>
    show Diagnostic.programTooLong < 2 ^ 16 ∧
      Diagnostic.programTooLong ≠ Diagnostic.malformedWorkspace
    decide

namespace Program

/-- A program has one diagnostic at most, which is that of the rule it breaks. -/
theorem diagnostics_cases (p : Program) :
    p.diagnostics = [] ∨ ∃ r : RuleBroken, p.diagnostics = [r.diagnostic] := by
  unfold diagnostics
  cases p.ruleBroken? with
  | none => exact Or.inl rfl
  | some r => exact Or.inr ⟨r, rfl⟩

theorem bounds_of_mem_diagnostics {p : Program} {d : Diagnostic} (hd : d ∈ p.diagnostics) :
    d.code < 2 ^ 16 ∧ d.code ≠ Diagnostic.malformedWorkspace := by
  rcases p.diagnostics_cases with hp | ⟨r, hp⟩
  · rw [hp] at hd
    cases hd
  · rw [hp, List.mem_singleton] at hd
    exact hd ▸ r.code_bounds

end Program

namespace Compilation

theorem storable_ofWorkspace (w : Workspace) (v : Vocabulary) : (ofWorkspace w v).Storable := by
  refine ⟨fun p hp => ?_, fun d hd => (Program.bounds_of_mem_diagnostics hd).1⟩
  obtain rfl := Option.some.inj hp
  exact w.storable_compile v

theorem storable_unreadable (message : String) : (unreadable message).Storable := by
  refine ⟨nofun, fun d hd => ?_⟩
  rw [List.mem_singleton.1 hd]
  show Diagnostic.malformedWorkspace < 2 ^ 16
  decide

theorem depth_unreadable_le (message : String) :
    (unreadable message).toJson.depth ≤ Reader.depth := by
  have hdepth : (unreadable message).toJson.depth ≤ 2 + 1 :=
    depth_toJson_le (Nat.le_refl 2) fun p hp => by cases hp
  exact Nat.le_trans hdepth (by decide)

theorem depth_ofWorkspace_le {text : String} {w : Workspace} (hw : Workspace.ofText text = .ok w)
    (v : Vocabulary) : (ofWorkspace w v).toJson.depth ≤ Reader.depth := by
  have hprogram := Workspace.depth_compile_lt (v := v) (Workspace.depth_toJson_le_of_ofText hw)
  refine depth_toJson_le (n := Reader.depth - 1) (by decide) fun p hp => ?_
  obtain rfl := Option.some.inj hp
  exact Nat.le_sub_one_of_lt hprogram

end Compilation

namespace Page

/-- The answer is that for a text that could not be read, or that for a drawing that was. -/
theorem compilation_cases (workspace vocabulary : String) :
    (∃ message, compilation workspace vocabulary = .unreadable message) ∨
      ∃ w v, Workspace.ofText workspace = .ok w ∧
        compilation workspace vocabulary = .ofWorkspace w v := by
  unfold compilation
  cases vocabularyOf vocabulary with
  | error e => exact Or.inl ⟨_, rfl⟩
  | ok v =>
    dsimp only
    unfold Compilation.ofText
    cases hw : Workspace.ofText workspace with
    | error e => exact Or.inl ⟨_, rfl⟩
    | ok w => exact Or.inr ⟨w, v, rfl, rfl⟩

/-- **The answer can be read**, whatever the texts were. -/
theorem read_compile (workspace vocabulary : String) :
    Compilation.read (compile workspace vocabulary) = .ok (compilation workspace vocabulary) := by
  unfold compile
  rcases compilation_cases workspace vocabulary with ⟨message, h⟩ | ⟨w, v, hw, h⟩
  · rw [h, Compilation.read_toText (Compilation.storable_unreadable message)]
    exact if_pos (Compilation.depth_unreadable_le message)
  · rw [h, Compilation.read_toText (Compilation.storable_ofWorkspace w v)]
    exact if_pos (Compilation.depth_ofWorkspace_le hw v)

/-- **The program in an answer is judged as it was in the answer.** -/
theorem diagnostics_toText {workspace : String} {w : Workspace}
    (hw : Workspace.ofText workspace = .ok w) (v : Vocabulary) :
    diagnostics (w.compile v).toText = (w.compile v).diagnostics := by
  have hdepth := Workspace.depth_compile_lt (v := v) (Workspace.depth_toJson_le_of_ofText hw)
  have hread : Program.ofText (w.compile v).toText = .ok (w.compile v) := by
    rw [Program.ofText_toText (w.storable_compile v)]
    exact if_pos (Nat.le_of_lt hdepth)
  rw [diagnostics, hread]

/-- **The page can rely on the answers.**  For any two texts the answer is that of an outcome
with one error at most; it is a success exactly if there is no error; the program is absent
exactly if the error is that a text could not be read; and if there is a program, judging its
text gives the errors of the outcome. -/
theorem compile_is_consistent (workspace vocabulary : String) :
    ∃ r, Compilation.read (compile workspace vocabulary) = .ok r ∧
      r.errors.length ≤ 1 ∧
      (r.success = true ↔ r.errors = []) ∧
      (r.program = none ↔ ∃ d ∈ r.errors, d.code = Diagnostic.malformedWorkspace) ∧
      ∀ p, r.program = some p →
        validate p.toText = (Json.array (r.errors.map Diagnostic.toJson)).toText := by
  refine ⟨compilation workspace vocabulary, read_compile workspace vocabulary, ?_⟩
  rcases compilation_cases workspace vocabulary with ⟨message, h⟩ | ⟨w, v, hw, h⟩
  · rw [h]
    refine ⟨Nat.le_refl 1, iff_of_false Bool.false_ne_true nofun, ?_, nofun⟩
    exact iff_of_true rfl ⟨_, List.mem_singleton_self _, rfl⟩
  · rw [h]
    refine ⟨?_, List.isEmpty_iff, iff_of_false nofun ?_, fun p hp => ?_⟩
    · show (w.compile v).diagnostics.length ≤ 1
      rcases (w.compile v).diagnostics_cases with hp | ⟨r, hp⟩
      · rw [hp]
        exact Nat.zero_le 1
      · rw [hp]
        exact Nat.le_refl 1
    · rintro ⟨d, hd, hcode⟩
      exact (Program.bounds_of_mem_diagnostics hd).2 hcode
    · obtain rfl := Option.some.inj hp
      rw [validate, diagnostics_toText hw v]
      rfl

end Page

end BlockRobot
