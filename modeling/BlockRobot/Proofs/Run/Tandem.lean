import BlockRobot.Proofs.Run.Walk

/-!
# Two runs in tandem

Two runs can be compared step by step even if they are runs of different games, in front of
different hosts, and of different programs, so long as the programs have the same shape: every
instruction of one stands for an instruction of the other, and a loop stands for a loop that runs as
often and whose body stands for the body.

`Tandem` is what a relation between the worlds of two such runs must keep.  It is asked of the few
things a walk is made of: an announcement, a yield, an instruction performed, and the end.  Related
worlds must agree on one matter only, namely whether the run has been stopped, because that is all
that a walk looks at.  Then whole walks keep the relation and are left for the same reason
(`Tandem.walk`), and so do runs (`Tandem.run`).
-/

namespace BlockRobot

namespace Run

variable {σ φ α τ ψ β : Type}

/-- Two stretches that end in related worlds and are left for the same reason. -/
def Alike (R : World σ φ α → World τ ψ β → Prop) (r : Stretch σ φ α) (r' : Stretch τ ψ β) : Prop :=
  R r.1 r'.1 ∧ r.2 = r'.2

section Alike

variable {R : World σ φ α → World τ ψ β → Prop}

theorem Alike.andThen {r : Stretch σ φ α} {r' : Stretch τ ψ β}
    {next : World σ φ α → Stretch σ φ α} {next' : World τ ψ β → Stretch τ ψ β}
    (hr : Alike R r r') (hnext : ∀ {w v}, R w v → Alike R (next w) (next' v)) :
    Alike R (r.andThen next) (r'.andThen next') := by
  obtain ⟨w, halt⟩ := r
  obtain ⟨v, halt'⟩ := r'
  obtain ⟨hR, hhalt⟩ := hr
  change halt = halt' at hhalt
  subst hhalt
  cases halt with
  | none => exact hnext hR
  | some halt => exact ⟨hR, rfl⟩

theorem alike_repeatedly {round : World σ φ α → Stretch σ φ α}
    {round' : World τ ψ β → Stretch τ ψ β} (hround : ∀ {w v}, R w v → Alike R (round w) (round' v))
    (n : Nat) {w : World σ φ α} {v : World τ ψ β} (hR : R w v) :
    Alike R (repeatedly round n w) (repeatedly round' n v) := by
  induction n generalizing w v with
  | zero => exact ⟨hR, rfl⟩
  | succ n ih =>
    rw [repeatedly_succ', repeatedly_succ']
    exact (hround hR).andThen fun hR => ih hR

end Alike

/-- A relation between the worlds of two runs that everything keeps of which runs are made.
`M` says which instruction of the second program stands for one of the first. -/
structure Tandem (g : Game σ φ) (g' : Game τ ψ) (h : Host α φ) (h' : Host β ψ) (M : Op → Op)
    (R : World σ φ α → World τ ψ β → Prop) : Prop where
  loop : ∀ times body id, M (.loop times body id) = .loop times (body.map M) id
  plain : ∀ op, op.isLoop = false → (M op).isLoop = false
  stopped : ∀ {w v}, R w v → w.stopped = v.stopped
  step : ∀ op {w v}, R w v → R (w.tell h (.step op)) (v.tell h' (.step (M op)))
  yielded : ∀ {w v}, R w v → R (w.tell h .yielded) (v.tell h' .yielded)
  perform : ∀ op, op.isLoop = false → ∀ {w v}, R w v →
    Alike R (perform g h op w) (perform g' h' (M op) v)
  conclude : ∀ (e : Ending) {w v}, R w v →
    R ((w.enter .finished).tellAll h e.moments) ((v.enter .finished).tellAll h' e.moments)

namespace Tandem

variable {g : Game σ φ} {g' : Game τ ψ} {h : Host α φ} {h' : Host β ψ} {M : Op → Op}
  {R : World σ φ α → World τ ψ β → Prop} (ht : Tandem g g' h h' M R)

include ht

/-- **Walks in tandem** stay related, and are left for the same reason. -/
theorem walk (ops : List Op) : ∀ {w : World σ φ α} {v : World τ ψ β}, R w v →
    Alike R (Run.walk g h ops w) (Run.walk g' h' (ops.map M) v) := by
  refine Op.listInduction
    (P := fun ops => ∀ {w v}, R w v →
      Alike R (Run.walk g h ops w) (Run.walk g' h' (ops.map M) v))
    (Q := fun op => ∀ {w v}, R w v → Alike R (walkOp g h op w) (walkOp g' h' (M op) v))
    ?plain ?loop ?nil ?cons ops
  case plain =>
    intro op hop w v hR
    cases hs : w.stopped with
    | true =>
      rw [walkOp_of_stopped g h op hs,
        walkOp_of_stopped g' h' _ ((ht.stopped hR).symm.trans hs)]
      exact ⟨hR, rfl⟩
    | false =>
      rw [walkOp_of_not_isLoop g h hop hs,
        walkOp_of_not_isLoop g' h' (ht.plain op hop) ((ht.stopped hR).symm.trans hs)]
      exact ht.perform op hop (ht.step op hR)
  case loop =>
    intro times body id ih w v hR
    cases hs : w.stopped with
    | true =>
      rw [walkOp_of_stopped g h _ hs, walkOp_of_stopped g' h' _ ((ht.stopped hR).symm.trans hs)]
      exact ⟨hR, rfl⟩
    | false =>
      have hstep := ht.step (.loop times body id) hR
      rw [ht.loop] at hstep ⊢
      rw [walkOp_loop g h times body id hs,
        walkOp_loop g' h' times _ id ((ht.stopped hR).symm.trans hs)]
      refine alike_repeatedly (fun {w v} hR => ?_) _ hstep
      have hy := ht.yielded hR
      rw [round, round, ht.stopped hy]
      split
      · exact ⟨hy, rfl⟩
      · exact ih hy
  case nil => exact fun hR => ⟨hR, rfl⟩
  case cons =>
    intro op ops hop hops w v hR
    rw [List.map_cons, walk_cons, walk_cons]
    exact (hop hR).andThen hops

/-- **Runs in tandem** end in related worlds and in the same way, if they are launched so. -/
theorem run (p : Program) {initial : σ} {initial' : τ} {host : α} {host' : β}
    (hR : R (launch g h initial host) (launch g' h' initial' host')) :
    ∃ w v, R w v ∧
      BlockRobot.run g h p initial host =
        w.report (BlockRobot.run g h p initial host).ending ∧
      BlockRobot.run g' h' ⟨p.ops.map M⟩ initial' host' =
        v.report (BlockRobot.run g h p initial host).ending := by
  obtain ⟨hwalk, hhalt⟩ := ht.walk p.ops hR
  have hending : (Run.walk g' h' (p.ops.map M) (launch g' h' initial' host')).ending =
      (Run.walk g h p.ops (launch g h initial host)).ending := by
    rw [Stretch.ending, Stretch.ending, hhalt, ht.stopped hwalk]
  have hend : R ((Run.walk g h p.ops (launch g h initial host)).conclude h)
      ((Run.walk g' h' (p.ops.map M) (launch g' h' initial' host')).conclude h') := by
    rw [Stretch.conclude, Stretch.conclude, hending]
    exact ht.conclude _ hwalk
  refine ⟨_, _, hend, ?_, ?_⟩
  · rw [run_eq g h]
    rfl
  · rw [run_eq g' h', run_eq g h, hending]
    rfl

end Tandem

end Run

end BlockRobot
