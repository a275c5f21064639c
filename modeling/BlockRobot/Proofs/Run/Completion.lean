import BlockRobot.Proofs.Run.Unrolling

/-!
# Walks that are not left

A walk may be left early, and then little is known of where.  A walk that is not left has gone the
whole way: the game went on after every instruction of the unrolling, and was left in the state of
its tour (`completes_walk`, and `completes_walkOp_loop` for a single loop).

This does not follow from `follows_walk`, which says nothing of the state if a stop was asked for.  A
stop that comes while the last instruction is applied is seen by nobody within the walk, so a walk
can be through although it has been stopped.
-/

namespace BlockRobot

namespace Run

variable {σ φ α : Type}

/-- A stretch completes a tour: unless it is left, the game goes on all along the tour and is left
in its state. -/
def Completes (t : Tour σ) (r : Stretch σ φ α) : Prop :=
  r.2 = none → t.verdict = .goOn ∧ r.1.state = t.state

/-- A stretch that is left need not complete anything. -/
theorem completes_of_halt (t : Tour σ) (w : World σ φ α) (halt : Halt) :
    Completes t (w, some halt) := by
  intro h
  cases h

/-- Stretches that complete tours do so one after the other. -/
theorem Completes.andThen {t : Tour σ} {tnext : σ → Tour σ} {r : Stretch σ φ α}
    {next : World σ φ α → Stretch σ φ α} (hr : Completes t r)
    (hnext : ∀ v, Completes (tnext v.state) (next v)) :
    Completes (t.andThen tnext) (r.andThen next) := by
  obtain ⟨v, _ | halt⟩ := r
  · obtain ⟨hgo, hstate⟩ := hr rfl
    rw [Stretch.andThen_none, Tour.andThen_of_goOn hgo, ← hstate]
    exact hnext v
  · exact completes_of_halt _ v halt

/-- Performing an announced instruction completes the tour of it. -/
theorem completes_perform (g : Game σ φ) (h : Host α φ) {op : Op} (hop : op.isLoop = false)
    (w : World σ φ α) : Completes (g.take op w.state) (perform g h op (w.tell h (.step op))) := by
  rw [perform_eq, World.tell_state, g.take_of_not_isLoop hop]
  cases hv : (g.apply op w.state).verdict.halt? with
  | some halt => exact completes_of_halt _ _ halt
  | none =>
    intro _
    refine ⟨Verdict.halt?_eq_none_iff.1 hv, ?_⟩
    rcases pause_eq h op (applied g h op (w.tell h (.step op))) with hp | ⟨-, d, hp⟩ <;>
      rw [Stretch.andThen_none, hp] <;> rfl

/-- If walking a body completes a tour, its rounds complete as many of it. -/
theorem completes_repeatedly (g : Game σ φ) (h : Host α φ) {body : List Op}
    (hbody : ∀ w : World σ φ α, Completes (g.tour (Op.unrolledAll body) w.state) (walk g h body w))
    (n : Nat) (w : World σ φ α) :
    Completes (g.tour (List.replicate n (Op.unrolledAll body)).flatten w.state)
      (repeatedly (round g h body) n w) := by
  induction n generalizing w with
  | zero => exact fun _ => ⟨rfl, rfl⟩
  | succ n ih =>
    have hround : Completes (g.tour (Op.unrolledAll body) w.state) (round g h body w) := by
      rw [round]
      split
      · exact completes_of_halt _ _ _
      · exact hbody (w.tell h .yielded)
    rw [repeatedly_succ', List.replicate_succ, List.flatten_cons, Game.tour_append]
    exact hround.andThen ih

/-- If walking its body completes a tour, so does a loop. -/
theorem completes_loop (g : Game σ φ) (h : Host α φ) {times : Double} {body : List Op} {id : String}
    (hbody : ∀ w : World σ φ α, Completes (g.tour (Op.unrolledAll body) w.state) (walk g h body w))
    (w : World σ φ α) :
    Completes (g.tour (Op.unrolled (.loop times body id)) w.state)
      (walkOp g h (.loop times body id) w) := by
  have hannounced : Completes (g.take (.loop times body id) w.state)
      (w.tell h (.step (.loop times body id)), none) := fun _ => ⟨rfl, rfl⟩
  cases hw : w.stopped with
  | true =>
    rw [walkOp_of_stopped g h _ hw]
    exact completes_of_halt _ w _
  | false =>
    rw [walkOp_loop g h times body id hw, Op.unrolled, Game.tour_cons]
    exact hannounced.andThen (completes_repeatedly g h hbody times.repetitions)

/-- **A walk that is not left has gone the whole way.** -/
theorem completes_walk (g : Game σ φ) (h : Host α φ) (ops : List Op) (w : World σ φ α) :
    Completes (g.tour (Op.unrolledAll ops) w.state) (walk g h ops w) := by
  revert w
  refine Op.listInduction
    (P := fun ops => ∀ w : World σ φ α,
      Completes (g.tour (Op.unrolledAll ops) w.state) (walk g h ops w))
    (Q := fun op => ∀ w : World σ φ α, Completes (g.tour op.unrolled w.state) (walkOp g h op w))
    ?plain ?loop ?nil ?cons ops
  case plain =>
    intro op hop w
    rw [Op.unrolled_of_not_isLoop hop, Game.tour_singleton]
    cases hw : w.stopped with
    | true =>
      rw [walkOp_of_stopped g h op hw]
      exact completes_of_halt _ w _
    | false =>
      rw [walkOp_of_not_isLoop g h hop hw]
      exact completes_perform g h hop w
  case loop => exact fun times body id ih w => completes_loop g h ih w
  case nil => exact fun w _ => ⟨rfl, rfl⟩
  case cons =>
    intro op ops hop hops w
    rw [walk_cons, Op.unrolledAll, Game.tour_append]
    exact (hop w).andThen hops

/-- **A loop that is not left has gone all its rounds.** -/
theorem completes_walkOp_loop (g : Game σ φ) (h : Host α φ) (times : Double) (body : List Op)
    (id : String) (w : World σ φ α) :
    Completes (g.tour (Op.unrolled (.loop times body id)) w.state)
      (walkOp g h (.loop times body id) w) :=
  completes_loop g h (completes_walk g h body) w

end Run

end BlockRobot
