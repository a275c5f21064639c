import BlockRobot.Page
import BlockRobot.Proofs.Compilation.Text
import BlockRobot.Proofs.Program.NormalForm

/-!
# The normal forms of programs and outcomes

A program can be spelled in many ways, and so can the outcome of a compilation.  Writing what was
read picks one of the spellings, and reading it gives the same program or outcome back.  So the
page judges a program and the text it was read from alike (`Page.normal_forms_are_stable`).

A program that was read can be written and is not too deep (`Program.yields_record`).  In an
outcome it stands one bracket further inside, and the room that reading had was one bracket less
there, so the two account for each other.  The errors are flat and have codes of 16 bits.
-/

namespace BlockRobot

namespace Diagnostic

/-- The code of a diagnostic that was read has 16 bits. -/
theorem yields_record {D : Draft → Prop} (hD : Draft.Hereditary D) :
    Reader.Yields D record.read fun _ d => d.code < 2 ^ 16 := by
  have hkept : Record.KeptBy D record.fields fun _ d => d.code < 2 ^ 16 := by
    refine .cons (.cons (.cons Record.keptBy_nil ?_) ?_) ?_
    · exact fun room draft d message _ hd _ => hd
    · exact fun room draft d category _ hd _ => hd
    · exact fun room draft d code hdraft _ hread =>
        Reader.yields_natural room draft code hdraft hread
  intro room draft d hdraft hread
  obtain ⟨_, -, hd⟩ := Record.invariant_of_read hD (fun _ => by decide) hkept room draft d hdraft
    hread
  exact hd

end Diagnostic

namespace Compilation

/-- **An outcome that was read can be written**, and its program lies in the room that reading the
outcome had behind its bracket. -/
theorem yields_record : Reader.Yields Draft.Exact record.read fun room c =>
    ∃ inner, room = inner + 1 ∧ c.Storable ∧
      ∀ p, c.program = some p → p.toJson.depth ≤ max 2 inner := by
  have hprogram := Program.yields_record.option
  have herrors := (Diagnostic.yields_record Draft.hereditary_exact).list Draft.hereditary_exact
  have hkept : Record.KeptBy Draft.Exact record.fields fun room c =>
      c.Storable ∧ ∀ p, c.program = some p → p.toJson.depth ≤ max 2 room := by
    refine .cons (.cons (.cons Record.keptBy_nil ?_) ?_) ?_
    · intro room d c errors hd hc hread
      obtain ⟨_, -, herrors⟩ := herrors room d errors hd hread
      exact ⟨⟨hc.1.program, herrors⟩, hc.2⟩
    · intro room d c program hd hc hread
      have hp := hprogram room d program hd hread
      exact ⟨⟨fun p h => (hp p h).1, hc.1.errors⟩, fun p h => (hp p h).2⟩
    · exact fun room d c success _ hc _ => ⟨⟨hc.1.program, hc.1.errors⟩, hc.2⟩
  exact Record.invariant_of_read Draft.hereditary_exact (fun _ => ⟨⟨nofun, nofun⟩, nofun⟩) hkept

/-- **An outcome that was read and is written is read as it was.** -/
theorem read_toText_of_read {text : String} {c : Compilation} (hc : read text = .ok c) :
    read c.toText = .ok c := by
  obtain ⟨d, hd, hread⟩ := Reader.exists_of_run_eq_ok hc
  obtain ⟨inner, hroom, hstorable, hprogram⟩ := yields_record Reader.depth d c hd hread
  have hinner : 2 ≤ inner := by
    unfold Reader.depth at hroom
    omega
  rw [Nat.max_eq_right hinner] at hprogram
  rw [read_toText hstorable]
  exact if_pos (hroom ▸ depth_toJson_le hinner hprogram)

end Compilation

namespace Page

/-- **Texts of programs and of outcomes have stable normal forms.**  Whatever a text looked like,
the program that was read from it is read back from its own text, so that the page judges both
texts alike, and an outcome that was read is read back from its own text too. -/
theorem normal_forms_are_stable :
    (∀ text p, Program.ofText text = .ok p →
      Program.ofText p.toText = .ok p ∧ validate p.toText = validate text) ∧
      ∀ text c, Compilation.read text = .ok c → Compilation.read c.toText = .ok c := by
  refine ⟨fun text p hp => ?_, fun text c hc => Compilation.read_toText_of_read hc⟩
  have hread := Program.ofText_toText_of_ofText hp
  refine ⟨hread, ?_⟩
  rw [validate, validate, diagnostics, diagnostics, hread, hp]

/-- A program with an array for an instruction, a kind that comes last, a kind that is given by its
number, an integer for a double, and a side that is an object. -/
def looseProgram : String :=
  "\x7b\"ops\":[[\"start\",\"a\"],\x7b\"times\":2,\"blockId\":\"b\"," ++
    "\"body\":[[2,\x7b\"left\":null\x7d,\"c\"]],\"type\":\"repeat\"\x7d]\x7d"

/-- The same program as it is written. -/
def tidyProgram : String :=
  "\x7b\"ops\":[\x7b\"type\":\"start\",\"blockId\":\"a\"\x7d," ++
    "\x7b\"type\":\"repeat\",\"times\":2.0,\"body\":[\x7b\"type\":\"turn\"," ++
    "\"direction\":\"left\",\"blockId\":\"c\"\x7d],\"blockId\":\"b\"\x7d]\x7d"

/-- An outcome that is an array. -/
def looseOutcome : String := "[false,null,[[600,\"structure\",\"\"]]]"

/-- The same outcome as it is written. -/
def tidyOutcome : String :=
  "\x7b\"success\":false,\"program\":null,\"errors\":" ++
    "[\x7b\"code\":600,\"category\":\"structure\",\"message\":\"\"\x7d]\x7d"

/-- The loose texts and the tidy ones stand for the same program and the same outcome. -/
theorem tidy_forms_are_stable :
    (∃ p, Program.ofText looseProgram = .ok p ∧ Program.ofText tidyProgram = .ok p ∧
      validate tidyProgram = validate looseProgram) ∧
      ∃ c, Compilation.read looseOutcome = .ok c ∧ Compilation.read tidyOutcome = .ok c := by
  have hprogram : (Program.ofText looseProgram).toOption.map Program.toText = some tidyProgram := by
    decide +kernel
  have houtcome : (Compilation.read looseOutcome).toOption.map Compilation.toText =
      some tidyOutcome := by
    decide +kernel
  obtain ⟨p, hp, hptext⟩ := exists_of_toOption_map_eq_some hprogram
  obtain ⟨c, hc, hctext⟩ := exists_of_toOption_map_eq_some houtcome
  obtain ⟨hread, hjudged⟩ := normal_forms_are_stable.1 looseProgram p hp
  have hback := normal_forms_are_stable.2 looseOutcome c hc
  rw [hptext] at hread hjudged
  rw [hctext] at hback
  exact ⟨⟨p, hp, hread, hjudged⟩, c, hc, hback⟩

end Page

end BlockRobot
