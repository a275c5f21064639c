import BlockRobot.Block
import BlockRobot.Vocabulary
import Mathlib.Data.Set.Card

/-!
# The places of a drawing

A drawing can show one and the same block twice, so blocks that are reached are counted by
their places.  A place is the way that leads there from the head of a stack: down to the block
below, or inside, to the stack in the body of a loop.  `Block.follow?` says which block stands
at the end of a way, and `Block.activeWays` are the ways to blocks that have a role.

* `Block.linkInduction` is induction along links: a property of the blocks that can be reached
  from a block in one step may be used for the block itself.
* `Block.encard_activeWays` counts along links: the block itself, what is below, and what is
  inside.  The three sets of ways are disjoint, since they differ in their first step.
-/

namespace BlockRobot

namespace Block

/-! ## Induction along links -/

mutual

/-- Induction along links: what holds of the block below and of the blocks in inputs may be
used for a block. -/
theorem linkInduction {P : Block → Prop}
    (step : ∀ b : Block, (∀ c, b.below? = some c → P c) →
      (∀ name c, b.statement? name = some c → P c) → P b) : ∀ b : Block, P b
  | ⟨tag, id, x, y, fields, inputs, next⟩ =>
    step ⟨tag, id, x, y, fields, inputs, next⟩ (linkInductionNext step next)
      (linkInductionInputs step inputs)

theorem linkInductionNext {P : Block → Prop}
    (step : ∀ b : Block, (∀ c, b.below? = some c → P c) →
      (∀ name c, b.statement? name = some c → P c) → P b) :
    ∀ next : Option (Link Block), ∀ c, next.bind Link.block = some c → P c
  | some ⟨some b, _⟩, c, hc => Option.some.inj hc ▸ linkInduction step b
  | some ⟨none, _⟩, _, hc => by cases hc
  | none, _, hc => by cases hc

theorem linkInductionInputs {P : Block → Prop}
    (step : ∀ b : Block, (∀ c, b.below? = some c → P c) →
      (∀ name c, b.statement? name = some c → P c) → P b) :
    ∀ inputs : List (String × Link Block), ∀ name c,
      (getByName? name inputs).bind Link.block = some c → P c
  | [], _, _, hc => by cases hc
  | (entry, ⟨some b, _⟩) :: inputs, name, c, hc => by
    by_cases h : entry = name
    · have hb : b = c := by simpa [getByName?, h] using hc
      exact hb ▸ linkInduction step b
    · refine linkInductionInputs step inputs name c ?_
      simpa [getByName?, h] using hc
  | (entry, ⟨none, _⟩) :: inputs, name, c, hc => by
    by_cases h : entry = name
    · simp [getByName?, h] at hc
    · refine linkInductionInputs step inputs name c ?_
      simpa [getByName?, h] using hc

end

/-! ## Ways -/

/-- One step of a way from block to block. -/
inductive Way where
  | below
  | inside
deriving DecidableEq

/-- The stack in the body of a loop; other blocks have none. -/
def inside? (v : Vocabulary) (b : Block) : Option Block :=
  if v.roleOf? b.tag = some .loop then b.statement? v.fields.body else none

/-- The block at the end of a way. -/
def follow? (v : Vocabulary) : Block → List Way → Option Block
  | b, [] => some b
  | b, .below :: ways => b.below?.bind fun c => follow? v c ways
  | b, .inside :: ways => (b.inside? v).bind fun c => follow? v c ways

/-- The ways to the blocks that have a role. -/
def activeWays (v : Vocabulary) (b : Block) : Set (List Way) :=
  {ways | ∃ c, b.follow? v ways = some c ∧ (v.roleOf? c.tag).isSome = true}

variable {v : Vocabulary}

theorem nil_mem_activeWays {b : Block} :
    [] ∈ b.activeWays v ↔ (v.roleOf? b.tag).isSome = true := by
  constructor
  · rintro ⟨c, hc, hrole⟩
    obtain rfl := Option.some.inj hc
    exact hrole
  · exact fun hrole => ⟨b, rfl, hrole⟩

/-- The ways that begin with a step are those behind the step. -/
theorem cons_below_mem_activeWays {b : Block} {ways : List Way} :
    .below :: ways ∈ b.activeWays v ↔ ∃ c, b.below? = some c ∧ ways ∈ c.activeWays v := by
  simp only [activeWays, Set.mem_ofPred_eq, follow?, Option.bind_eq_some_iff]
  exact ⟨fun ⟨c, ⟨d, hd, hc⟩, hrole⟩ => ⟨d, hd, c, hc, hrole⟩,
    fun ⟨d, hd, c, hc, hrole⟩ => ⟨c, ⟨d, hd, hc⟩, hrole⟩⟩

theorem cons_inside_mem_activeWays {b : Block} {ways : List Way} :
    .inside :: ways ∈ b.activeWays v ↔ ∃ c, b.inside? v = some c ∧ ways ∈ c.activeWays v := by
  simp only [activeWays, Set.mem_ofPred_eq, follow?, Option.bind_eq_some_iff]
  exact ⟨fun ⟨c, ⟨d, hd, hc⟩, hrole⟩ => ⟨d, hd, c, hc, hrole⟩,
    fun ⟨d, hd, c, hc, hrole⟩ => ⟨c, ⟨d, hd, hc⟩, hrole⟩⟩

/-- The ways of a block that may be absent. -/
def activeWaysOf (v : Vocabulary) : Option Block → Set (List Way)
  | some b => b.activeWays v
  | none => ∅

theorem mem_activeWaysOf {first : Option Block} {ways : List Way} :
    ways ∈ activeWaysOf v first ↔ ∃ c, first = some c ∧ ways ∈ c.activeWays v := by
  cases first with
  | none => simp [activeWaysOf]
  | some c => simp [activeWaysOf]

/-- The ways from a block: the empty one, those that go below, and those that go inside. -/
theorem activeWays_eq (v : Vocabulary) (b : Block) :
    b.activeWays v =
      ({ways | ways = [] ∧ (v.roleOf? b.tag).isSome = true} ∪
        List.cons .below '' activeWaysOf v b.below?) ∪
        List.cons .inside '' activeWaysOf v (b.inside? v) := by
  ext ways
  rcases ways with _ | ⟨_ | _, ways⟩
  · simp [nil_mem_activeWays]
  · simp [cons_below_mem_activeWays, mem_activeWaysOf]
  · simp [cons_inside_mem_activeWays, mem_activeWaysOf]

/-- **Blocks with a role are counted along links**: the block itself, if it has a role, those
reached from the block below, and those reached from the stack inside. -/
theorem encard_activeWays (v : Vocabulary) (b : Block) :
    (b.activeWays v).encard =
      ((if (v.roleOf? b.tag).isSome = true then 1 else 0) + (activeWaysOf v b.below?).encard) +
        (activeWaysOf v (b.inside? v)).encard := by
  have hempty : ({ways | ways = [] ∧ (v.roleOf? b.tag).isSome = true} : Set (List Way)).encard =
      if (v.roleOf? b.tag).isSome = true then 1 else 0 := by
    split
    · rename_i hrole
      simp [hrole]
    · rename_i hrole
      simp [hrole]
  have hinj : ∀ way : Way, Function.Injective (List.cons way) := fun way => List.cons_injective
  rw [activeWays_eq, Set.encard_union_eq, Set.encard_union_eq, hempty, (hinj _).encard_image,
    (hinj _).encard_image]
  · rw [Set.disjoint_left]
    rintro ways ⟨rfl, -⟩ ⟨rest, -, hrest⟩
    cases hrest
  · rw [Set.disjoint_left]
    rintro ways (⟨rfl, -⟩ | ⟨rest, -, rfl⟩) ⟨rest', -, hrest⟩
    · cases hrest
    · cases hrest

end Block

end BlockRobot
