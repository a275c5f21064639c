import BlockRobot.Game

/-!
# Rehearsals

A game without a board, for trying out hosts: its state is the list of the blocks
applied so far, and it can be told to take time over each instruction and to end,
fail or break down at a given block.
-/

namespace BlockRobot

/-- What a rehearsal is told to do. -/
structure Rehearsal where
  /-- How long each instruction takes. -/
  delay : Duration := ⟨0⟩
  /-- The block at which the game breaks down. -/
  crashAt : Option String := none
  /-- The block at which the game fails. -/
  failAt : Option String := none
  /-- The block at which the run is won. -/
  winAt : Option String := none
  /-- The block at which the robot collides. -/
  collideAt : Option String := none

namespace Rehearsal

/-- The verdict at a block: of several that fit, breaking down comes first, then
failing, winning and colliding. -/
def verdictAt (r : Rehearsal) (id : String) : Verdict :=
  if r.crashAt = some id then .crashed
  else if r.failAt = some id then .failed ("adapter blew up at " ++ id)
  else if r.winAt = some id then .ended .win
  else if r.collideAt = some id then .ended .collision
  else .goOn

/-- What an instruction does in a rehearsal. -/
def apply (r : Rehearsal) (op : Op) (blocks : List String) : Response (List String) Empty :=
  ⟨if r.delay.nanoseconds = 0 then [] else [.slept r.delay], blocks ++ [op.id], r.verdictAt op.id⟩

/-- The state from which rehearsals are started. -/
def stale : List String := ["stale"]

/-- The game of a rehearsal. -/
def game (r : Rehearsal) : Game (List String) Empty where
  reset blocks := ([], blocks ++ ["reset"])
  apply := r.apply

end Rehearsal

end BlockRobot
