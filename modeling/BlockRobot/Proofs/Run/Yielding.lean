import BlockRobot.Proofs.Run.Verdicts
import BlockRobot.Validation
import Mathlib.Data.List.Chain
import Mathlib.Data.List.Nodup
import Mathlib.Data.List.Perm.Subperm

/-!
# Between two yields

A loop can run for ever, and its body can be empty, so a walk may never come to an end or to
an instruction that takes time.  Whoever wants to stop it gets a turn all the same, for the
walk yields before every round of every loop.  This file says how much it can do in between:
it announces each instruction of the program at most once (`announcements_between_yields`).

## Places

The instructions of a program are a tree, and the same instruction may stand in it at several
places.  `Op.nodesAll` lists the tree, a loop before its body, and the *place* of an instruction
is its number in this list.  The record of a run does not show places.  They come from the
*route* of the program (`Op.routeAll`), its unrolling with the places and the yields written
into it: forgetting both leaves `Op.unrolledAll` (`filterMap_op?_routeAll`).

* `goesAlong_walk`: whatever host and game do, the announcements and the yields of a walk are
  those of a first part of its route.
* `isChain_routeAll`: along a route each instruction stands at a later place than the one
  announced before, unless a yield lies between.

The second is where the yield has to be in the right position.  Behind a round the route leads
back to the beginning of the body, and this is the only step that leads back; behind the last
round, and from one instruction to the next, it leads on.
-/

namespace BlockRobot

namespace Op

mutual

/-- An instruction with those in it, a loop before its body. -/
def nodes : Op → List Op
  | .loop times body id => .loop times body id :: nodesAll body
  | .start id => [.start id]
  | .move steps id => [.move steps id]
  | .turn side id => [.turn side id]
  | .wait ms id => [.wait ms id]

/-- The instructions of a list with those in them, in order. -/
def nodesAll : List Op → List Op
  | [] => []
  | op :: ops => nodes op ++ nodesAll ops

end

theorem nodes_of_not_isLoop {op : Op} (hop : op.isLoop = false) : op.nodes = [op] := by
  cases op with
  | loop times body id => cases hop
  | _ => rfl

/-- There are as many instructions in a list as are counted. -/
theorem length_nodesAll (ops : List Op) : (nodesAll ops).length = countAll ops := by
  refine listInduction (P := fun ops => (nodesAll ops).length = countAll ops)
    (Q := fun op => op.nodes.length = op.count) ?plain ?loop ?nil ?cons ops
  case plain =>
    intro op hop
    rw [nodes_of_not_isLoop hop]
    cases op with
    | loop times body id => cases hop
    | _ => rfl
  case loop =>
    intro times body id ih
    rw [nodes, List.length_cons, ih, count, Nat.add_comm]
  case nil => rfl
  case cons =>
    intro op ops hop hops
    rw [nodesAll, List.length_append, hop, hops, countAll_cons]

theorem nodesAll_singleton (op : Op) : nodesAll [op] = op.nodes := List.append_nil _

theorem length_nodes (op : Op) : op.nodes.length = op.count := by
  rw [← nodesAll_singleton, length_nodesAll, countAll_cons, countAll_nil, Nat.add_zero]

end Op

/-! ## Routes -/

/-- What a walk comes by: an instruction at its place, or a yield. -/
inductive Waypoint where
  | visit (place : Nat) (op : Op)
  | yield

namespace Waypoint

/-- The moment at which a walk comes by. -/
def moment {φ : Type} : Waypoint → Moment φ
  | visit _ op => .step op
  | yield => .yielded

/-- The instruction at a waypoint. -/
def op? : Waypoint → Option Op
  | visit _ op => some op
  | yield => none

/-- Whether one waypoint may come right before another: of two instructions the later one
stands at a later place. -/
def Precedes : Waypoint → Waypoint → Prop
  | visit m _, visit n _ => m < n
  | _, _ => True

theorem precedes_yield (x : Waypoint) : x.Precedes yield := by
  cases x <;> trivial

end Waypoint

namespace Op

mutual

/-- The route of an instruction at a place: a loop is come by once, and then its rounds. -/
def route : Op → Nat → List Waypoint
  | .loop times body id, place =>
    .visit place (.loop times body id) ::
      (List.replicate times.repetitions (.yield :: routeAll body (place + 1))).flatten
  | .start id, place => [.visit place (.start id)]
  | .move steps id, place => [.visit place (.move steps id)]
  | .turn side id, place => [.visit place (.turn side id)]
  | .wait ms id, place => [.visit place (.wait ms id)]

/-- The route of instructions in order, the first of which stands at a place. -/
def routeAll : List Op → Nat → List Waypoint
  | [], _ => []
  | op :: ops, place => route op place ++ routeAll ops (place + op.count)

end

theorem route_of_not_isLoop {op : Op} (hop : op.isLoop = false) (place : Nat) :
    op.route place = [.visit place op] := by
  cases op with
  | loop times body id => cases hop
  | _ => rfl

/-- **A route is the unrolling** with places and yields written into it. -/
theorem filterMap_op?_routeAll (ops : List Op) (place : Nat) :
    (routeAll ops place).filterMap Waypoint.op? = unrolledAll ops := by
  revert place
  refine listInduction
    (P := fun ops => ∀ place, (routeAll ops place).filterMap Waypoint.op? = unrolledAll ops)
    (Q := fun op => ∀ place, (route op place).filterMap Waypoint.op? = unrolled op)
    ?plain ?loop ?nil ?cons ops
  case plain =>
    intro op hop place
    rw [route_of_not_isLoop hop, unrolled_of_not_isLoop hop]
    rfl
  case loop =>
    intro times body id ih place
    have hround : (Waypoint.yield :: routeAll body (place + 1)).filterMap Waypoint.op? =
        unrolledAll body := ih (place + 1)
    rw [route, unrolled, List.filterMap_cons, List.filterMap_flatten, List.map_replicate, hround]
    rfl
  case nil => exact fun _ => rfl
  case cons =>
    intro op ops hop hops place
    rw [routeAll, List.filterMap_append, hop, hops, unrolledAll]

theorem routeAll_singleton (op : Op) (place : Nat) : routeAll [op] place = op.route place :=
  List.append_nil _

/-- The instruction that a route comes by at a place is the one that stands there. -/
theorem getElem?_of_visit_mem_routeAll (ops : List Op) : ∀ {place n : Nat} {x : Op},
    .visit n x ∈ routeAll ops place → place ≤ n ∧ (nodesAll ops)[n - place]? = some x := by
  refine listInduction
    (P := fun ops => ∀ {place n x}, .visit n x ∈ routeAll ops place →
      place ≤ n ∧ (nodesAll ops)[n - place]? = some x)
    (Q := fun op => ∀ {place n x}, .visit n x ∈ route op place →
      place ≤ n ∧ op.nodes[n - place]? = some x)
    ?plain ?loop ?nil ?cons ops
  case plain =>
    intro op hop place n x hmem
    rw [route_of_not_isLoop hop, List.mem_singleton] at hmem
    obtain ⟨rfl, rfl⟩ := Waypoint.visit.inj hmem
    rw [nodes_of_not_isLoop hop, Nat.sub_self]
    exact ⟨Nat.le_refl n, rfl⟩
  case loop =>
    intro times body id ih place n x hmem
    rw [route, List.mem_cons] at hmem
    rcases hmem with hmem | hmem
    · obtain ⟨rfl, rfl⟩ := Waypoint.visit.inj hmem
      rw [nodes, Nat.sub_self]
      exact ⟨Nat.le_refl n, rfl⟩
    · obtain ⟨lap, hlap, hmem⟩ := List.mem_flatten.1 hmem
      rw [List.eq_of_mem_replicate hlap, List.mem_cons] at hmem
      obtain ⟨hle, hat⟩ := ih (hmem.resolve_left nofun)
      have hsub : n - place = n - (place + 1) + 1 := by omega
      rw [nodes, hsub, List.getElem?_cons_succ]
      exact ⟨by omega, hat⟩
  case nil => exact fun hmem => (List.not_mem_nil hmem).elim
  case cons =>
    intro op ops hop hops place n x hmem
    rw [routeAll, List.mem_append] at hmem
    rw [nodesAll]
    rcases hmem with hmem | hmem
    · obtain ⟨hle, hat⟩ := hop hmem
      obtain ⟨hlt, -⟩ := List.getElem?_eq_some_iff.1 hat
      exact ⟨hle, by rw [List.getElem?_append_left hlt, hat]⟩
    · obtain ⟨hle, hat⟩ := hops hmem
      rw [List.getElem?_append_right (by rw [length_nodes]; omega), length_nodes]
      exact ⟨by omega, by rw [Nat.sub_sub, hat]⟩

/-- A route stays within the places of its instructions. -/
theorem bounds_of_visit_mem_routeAll {ops : List Op} {place n : Nat} {x : Op}
    (hmem : .visit n x ∈ routeAll ops place) : place ≤ n ∧ n < place + countAll ops := by
  obtain ⟨hle, hat⟩ := getElem?_of_visit_mem_routeAll ops hmem
  obtain ⟨hlt, -⟩ := List.getElem?_eq_some_iff.1 hat
  rw [length_nodesAll] at hlt
  exact ⟨hle, by omega⟩

/-- The rounds of a loop follow one another if a round does: each of them begins with a yield. -/
theorem isChain_laps {lap : List Waypoint} (hlap : (.yield :: lap).IsChain Waypoint.Precedes)
    (n : Nat) :
    (List.replicate n (.yield :: lap)).flatten.IsChain Waypoint.Precedes ∧
      ∀ y ∈ (List.replicate n (.yield :: lap)).flatten.head?, y = .yield := by
  induction n with
  | zero => exact ⟨.nil, nofun⟩
  | succ n ih =>
    rw [List.replicate_succ, List.flatten_cons]
    refine ⟨hlap.append ih.1 fun x _ y hy => ?_, fun y hy => (Option.mem_some.1 hy).symm⟩
    rw [ih.2 y hy]
    exact x.precedes_yield

/-- **Along a route places increase between yields.** -/
theorem isChain_routeAll (ops : List Op) (place : Nat) :
    (routeAll ops place).IsChain Waypoint.Precedes := by
  revert place
  refine listInduction
    (P := fun ops => ∀ place, (routeAll ops place).IsChain Waypoint.Precedes)
    (Q := fun op => ∀ place, (route op place).IsChain Waypoint.Precedes)
    ?plain ?loop ?nil ?cons ops
  case plain =>
    intro op hop place
    rw [route_of_not_isLoop hop]
    exact .singleton _
  case loop =>
    intro times body id ih place
    have hlap : (Waypoint.yield :: routeAll body (place + 1)).IsChain Waypoint.Precedes :=
      (ih (place + 1)).cons fun y _ => by cases y <;> trivial
    obtain ⟨hlaps, hhead⟩ := isChain_laps hlap times.repetitions
    rw [route]
    refine hlaps.cons fun y hy => ?_
    rw [hhead y hy]
    exact Waypoint.precedes_yield _
  case nil => exact fun _ => .nil
  case cons =>
    intro op ops hop hops place
    rw [routeAll]
    refine (hop place).append (hops (place + op.count)) fun x hx y hy => ?_
    cases x with
    | yield => cases y <;> trivial
    | visit m a =>
      cases y with
      | yield => trivial
      | visit n b =>
        -- the first route ends before the place at which the second one begins
        have hm : .visit m a ∈ routeAll [op] place :=
          routeAll_singleton op place ▸ List.mem_of_getLast? hx
        obtain ⟨-, hlt⟩ := bounds_of_visit_mem_routeAll hm
        obtain ⟨hle, -⟩ := bounds_of_visit_mem_routeAll (List.mem_of_mem_head? hy)
        rw [countAll_cons, countAll_nil, Nat.add_zero] at hlt
        exact Nat.lt_of_lt_of_le hlt hle

end Op

/-! ## Walks and their routes -/

namespace Moment

variable {φ : Type}

/-- Whether others have their turn. -/
def isYield : Moment φ → Bool
  | yielded => true
  | _ => false

/-- Whether a walk comes by a waypoint. -/
def isWaymark : Moment φ → Bool
  | step _ => true
  | yielded => true
  | _ => false

theorem IsAct.isWaymark_eq_false {m : Moment φ} (hm : m.IsAct) : m.isWaymark = false := by
  cases m <;> first | rfl | exact hm.elim

end Moment

section Waymarks

variable {φ : Type}

/-- The announcements and yields on record, in order. -/
def waymarks (log : List (Entry φ)) : List (Moment φ) :=
  (log.map Entry.moment).filter Moment.isWaymark

@[simp] theorem waymarks_append (as bs : List (Entry φ)) :
    waymarks (as ++ bs) = waymarks as ++ waymarks bs := by
  rw [waymarks, List.map_append, List.filter_append, waymarks, waymarks]

theorem waymarks_eq_nil {log : List (Entry φ)}
    (hlog : ∀ m ∈ log.map Entry.moment, m.isWaymark = false) : waymarks log = [] :=
  List.filter_eq_nil_iff.2 fun m hm => by rw [hlog m hm]; exact Bool.false_ne_true

theorem waymarks_cons_of_isWaymark {x : Entry φ} (hx : x.moment.isWaymark = true)
    (log : List (Entry φ)) : waymarks (x :: log) = x.moment :: waymarks log :=
  List.filter_cons_of_pos hx

theorem waymarks_cons_of_not_isWaymark {x : Entry φ} (hx : x.moment.isWaymark = false)
    (log : List (Entry φ)) : waymarks (x :: log) = waymarks log :=
  List.filter_cons_of_neg (by rw [hx]; exact Bool.false_ne_true)

/-- The instructions announced on record, in order. -/
def announcements (log : List (Entry φ)) : List Op := log.filterMap fun e => e.moment.step?

end Waymarks

namespace Run

variable {σ φ α : Type}

/-- A stretch from a world goes along a route: it comes by the waypoints of a first part of it,
and by all of them unless the walk is left. -/
def GoesAlong (route : List Waypoint) (w : World σ φ α) (r : Stretch σ φ α) : Prop :=
  ∃ way, way <+: route ∧ waymarks r.1.history = waymarks w.history ++ way.map Waypoint.moment ∧
    (r.2 = none → way = route)

theorem goesAlong_nil (w : World σ φ α) : GoesAlong [] w (w, none) :=
  ⟨[], List.prefix_rfl, (List.append_nil _).symm, fun _ => rfl⟩

/-- A walk that is left at once goes along any route. -/
theorem goesAlong_left (route : List Waypoint) (w : World σ φ α) (halt : Halt) :
    GoesAlong route w (w, some halt) :=
  ⟨[], List.nil_prefix, (List.append_nil _).symm, nofun⟩

/-- To be told of a waypoint is to come by it. -/
theorem goesAlong_tell (h : Host α φ) (x : Waypoint) (w : World σ φ α) :
    GoesAlong [x] w (w.tell h x.moment, none) := by
  have hmark : (x.moment : Moment φ).isWaymark = true := by cases x <;> rfl
  refine ⟨_, List.prefix_rfl, ?_, fun _ => rfl⟩
  rw [World.history_tell, waymarks_append, waymarks_cons_of_isWaymark hmark]
  rfl

/-- Stretches that go along routes do so one after the other. -/
theorem GoesAlong.andThen {front rest : List Waypoint} {w : World σ φ α} {r : Stretch σ φ α}
    {next : World σ φ α → Stretch σ φ α} (hr : GoesAlong front w r)
    (hnext : ∀ v, GoesAlong rest v (next v)) : GoesAlong (front ++ rest) w (r.andThen next) := by
  obtain ⟨way, hpre, hmarks, hall⟩ := hr
  obtain ⟨v, _ | halt⟩ := r
  · obtain ⟨way', hpre', hmarks', hall'⟩ := hnext v
    obtain rfl := hall rfl
    refine ⟨way ++ way', (List.prefix_append_right_inj way).2 hpre', ?_, fun hnone => ?_⟩
    · rw [Stretch.andThen_none, hmarks', hmarks, List.map_append, List.append_assoc]
    · rw [hall' hnone]
  · exact ⟨way, hpre.trans (List.prefix_append front rest), hmarks, nofun⟩

/-- Announcing and performing an instruction comes by it. -/
theorem goesAlong_perform (g : Game σ φ) (h : Host α φ) (op : Op) (place : Nat)
    (w : World σ φ α) :
    GoesAlong [.visit place op] w (perform g h op (w.tell h (.step op))) := by
  have happlied : waymarks (applied g h op (w.tell h (.step op))).history =
      waymarks w.history ++ [.step op] := by
    obtain ⟨step, applying, acts, hhist, hstep, happlying, hacts⟩ :=
      exists_history_applied g h op w
    have hnil : waymarks acts = [] := waymarks_eq_nil fun m hm => by
      obtain ⟨x, hx, rfl⟩ := List.mem_map.1 hm
      exact (hacts x hx).isWaymark_eq_false
    rw [hhist, waymarks_append, waymarks_cons_of_isWaymark (by rw [hstep]; rfl),
      waymarks_cons_of_not_isWaymark (by rw [happlying]; rfl), hnil, hstep]
  refine ⟨_, List.prefix_rfl, ?_, fun _ => rfl⟩
  rw [perform_eq, World.tell_state]
  refine Stretch.andThen_keeps (C := fun r => waymarks r.1.history =
    waymarks w.history ++ [.step op]) ?_ fun v hv => ?_
  · exact happlied
  · rcases pause_eq h op v with hp | ⟨-, d, hp⟩
    · rw [hp]
      exact hv
    · rw [hp, World.history_tell, waymarks_append, waymarks_cons_of_not_isWaymark rfl]
      exact (List.append_nil _).trans hv

/-- If the body of a loop goes along its route, so does each round behind its yield. -/
theorem goesAlong_round {g : Game σ φ} {h : Host α φ} {body : List Op} {lap : List Waypoint}
    (hbody : ∀ w : World σ φ α, GoesAlong lap w (walk g h body w)) (w : World σ φ α) :
    GoesAlong (.yield :: lap) w (round g h body w) := by
  have hround : round g h body w = Stretch.andThen (w.tell h .yielded, none) fun v =>
      if v.stopped then (v, some .stopped) else walk g h body v := rfl
  rw [hround]
  refine (goesAlong_tell h .yield w).andThen fun v => ?_
  split
  · exact goesAlong_left lap v .stopped
  · exact hbody v

theorem goesAlong_repeatedly {round : World σ φ α → Stretch σ φ α} {lap : List Waypoint}
    (hround : ∀ w, GoesAlong lap w (round w)) (n : Nat) (w : World σ φ α) :
    GoesAlong (List.replicate n lap).flatten w (repeatedly round n w) := by
  induction n generalizing w with
  | zero => exact goesAlong_nil w
  | succ n ih =>
    rw [repeatedly_succ', List.replicate_succ, List.flatten_cons]
    exact (hround w).andThen ih

/-- **Every walk goes along its route**, wherever its first instruction stands. -/
theorem goesAlong_walk (g : Game σ φ) (h : Host α φ) (ops : List Op) :
    ∀ (place : Nat) (w : World σ φ α), GoesAlong (Op.routeAll ops place) w (walk g h ops w) := by
  refine Op.listInduction
    (P := fun ops => ∀ place (w : World σ φ α),
      GoesAlong (Op.routeAll ops place) w (walk g h ops w))
    (Q := fun op => ∀ place (w : World σ φ α),
      GoesAlong (Op.route op place) w (walkOp g h op w))
    ?plain ?loop ?nil ?cons ops
  case plain =>
    intro op hop place w
    cases hs : w.stopped with
    | true =>
      rw [walkOp_of_stopped g h op hs]
      exact goesAlong_left _ w .stopped
    | false =>
      rw [walkOp_of_not_isLoop g h hop hs, Op.route_of_not_isLoop hop]
      exact goesAlong_perform g h op place w
  case loop =>
    intro times body id ih place w
    cases hs : w.stopped with
    | true =>
      rw [walkOp_of_stopped g h _ hs]
      exact goesAlong_left _ w .stopped
    | false =>
      rw [walkOp_loop g h times body id hs, Op.route]
      exact (goesAlong_tell h (.visit place (.loop times body id)) w).andThen fun v =>
        goesAlong_repeatedly (goesAlong_round (ih (place + 1))) times.repetitions v
  case nil => exact fun _ w => goesAlong_nil w
  case cons =>
    intro op ops hop hops place w
    rw [walk_cons, Op.routeAll]
    exact (hop place w).andThen (hops (place + op.count))

/-! ## Whole runs -/

theorem waymarks_launch (g : Game σ φ) (h : Host α φ) (initial : σ) (host : α) :
    waymarks (launch g h initial host).history = [] := by
  obtain ⟨opening, launched, hhist, hmoments, -, hlaunched, -⟩ :=
    exists_history_launch g h initial host
  have hopening : waymarks opening = [] := by
    refine waymarks_eq_nil fun m hm => ?_
    rw [hmoments, List.mem_append, List.mem_map, List.mem_singleton] at hm
    rcases hm with ⟨frame, -, rfl⟩ | rfl <;> rfl
  rw [hhist, waymarks_append, hopening, waymarks_cons_of_not_isWaymark (by rw [hlaunched]; rfl)]
  rfl

theorem isWaymark_of_mem_moments {e : Ending} {m : Moment φ} (hm : m ∈ e.moments) :
    m.isWaymark = false := by
  cases e <;> simp only [Ending.moments, List.mem_cons, List.not_mem_nil, or_false] at hm
  case done => rcases hm with rfl | rfl <;> rfl
  all_goals subst hm; rfl

/-- A run comes by the waypoints of a first part of the route of its program. -/
theorem exists_waymarks_run (g : Game σ φ) (h : Host α φ) (p : Program) (initial : σ)
    (host : α) :
    ∃ way, way <+: Op.routeAll p.ops 0 ∧
      waymarks (run g h p initial host).log = way.map Waypoint.moment := by
  obtain ⟨way, hpre, hmarks, -⟩ := goesAlong_walk g h p.ops 0 (launch g h initial host)
  obtain ⟨last, hlog, hlast, -⟩ := exists_log_run g h p initial host
  have hnil : waymarks last = [] :=
    waymarks_eq_nil fun m hm => isWaymark_of_mem_moments (hlast ▸ hm)
  rw [hlog, waymarks_append, hnil, List.append_nil, hmarks, waymarks_launch]
  exact ⟨way, hpre, rfl⟩

/-- Waypoints none of which is a yield are instructions at their places. -/
theorem exists_visits {way : List Waypoint} (hway : ∀ x ∈ way, x ≠ .yield) :
    ∃ visits : List (Nat × Op), way = visits.map fun v => .visit v.1 v.2 := by
  induction way with
  | nil => exact ⟨[], rfl⟩
  | cons x way ih =>
    obtain ⟨visits, rfl⟩ := ih fun y hy => hway y (List.mem_cons_of_mem x hy)
    cases x with
    | yield => exact absurd rfl (hway .yield (List.mem_cons_self ..))
    | visit place op => exact ⟨(place, op) :: visits, rfl⟩

/-- What is announced on record is what the waymarks announce. -/
theorem announcements_eq (log : List (Entry φ)) :
    announcements log = (waymarks log).filterMap Moment.step? := by
  rw [waymarks, List.filterMap_filter, List.filterMap_map, announcements]
  congr 1
  funext e
  obtain ⟨phase, m, stop⟩ := e
  cases m <;> rfl

/-- The part of the route that belongs to a part of the record without a yield. -/
theorem exists_visits_of_waymarks {stretch : List (Entry φ)} {way : List Waypoint}
    (hmarks : waymarks stretch = way.map Waypoint.moment)
    (hyield : ∀ e ∈ stretch, e.moment.isYield = false) :
    ∃ visits : List (Nat × Op), (way = visits.map fun v => .visit v.1 v.2) ∧
      announcements stretch = visits.map Prod.snd := by
  have hway : ∀ x ∈ way, x ≠ .yield := by
    rintro x hx rfl
    have hmem : Moment.yielded ∈ waymarks stretch := hmarks ▸ List.mem_map_of_mem hx
    obtain ⟨e, he, hmoment⟩ := List.mem_map.1 (List.mem_of_mem_filter hmem)
    have hno := hyield e he
    rw [hmoment] at hno
    cases hno
  obtain ⟨visits, rfl⟩ := exists_visits hway
  refine ⟨visits, rfl, ?_⟩
  rw [announcements_eq, hmarks, List.map_map, List.filterMap_map]
  exact congrFun (List.filterMap_eq_map (f := Prod.snd)) visits

/-- **Between two yields a walk comes to each instruction of its program at most once**, in the
order in which they stand, whatever host and game do.

Let a part of the record of a run contain no yield.  Then there is a part of the route of the
program that belongs to it, behind the waypoints that belong to what stands before it on record
and in front of those that belong to what stands behind it.  The places along it increase, so
no place is come to twice; each holds the instruction that is announced there.  So there are at
most as many announcements as the program has instructions, and in a program that may run at
most `Program.largestCount`.

Sleeps and pauses may stand in that part of the record, so the statement holds all the more
for what stands between any two points at which the walk is suspended. -/
theorem announcements_between_yields {σ φ α : Type} (g : Game σ φ) (h : Host α φ) (p : Program)
    (initial : σ) (host : α) {before stretch after : List (Entry φ)}
    (hlog : (run g h p initial host).log = before ++ stretch ++ after)
    (hyield : ∀ e ∈ stretch, e.moment.isYield = false) :
    ∃ (earlier : List Waypoint) (visits : List (Nat × Op)) (later : List Waypoint),
      earlier ++ (visits.map fun v => .visit v.1 v.2) ++ later <+: Op.routeAll p.ops 0 ∧
      waymarks before = earlier.map Waypoint.moment ∧
      announcements stretch = visits.map Prod.snd ∧
      waymarks after = later.map Waypoint.moment ∧
      (visits.map Prod.fst).Pairwise (· < ·) ∧
      (∀ v ∈ visits, (Op.nodesAll p.ops)[v.1]? = some v.2) ∧
      (announcements stretch).length ≤ p.count ∧
      (p.Runnable → (announcements stretch).length ≤ Program.largestCount) := by
  obtain ⟨way, hpre, hmarks⟩ := exists_waymarks_run g h p initial host
  rw [hlog, waymarks_append, waymarks_append] at hmarks
  obtain ⟨front, later, rfl, hfront, hlater⟩ := List.map_eq_append_iff.1 hmarks.symm
  obtain ⟨earlier, between, rfl, hearlier, hbetween⟩ := List.map_eq_append_iff.1 hfront
  obtain ⟨visits, rfl, hannounced⟩ := exists_visits_of_waymarks hbetween.symm hyield
  have hplaces : (visits.map Prod.fst).Pairwise (· < ·) := by
    obtain ⟨rest, hroute⟩ := hpre
    have hchain := Op.isChain_routeAll p.ops 0
    rw [← hroute] at hchain
    have hvisits := hchain.left_of_append.left_of_append.right_of_append
    rw [List.isChain_map] at hvisits
    rw [← List.isChain_iff_pairwise, List.isChain_map]
    exact hvisits
  have hmem : ∀ v ∈ visits, .visit v.1 v.2 ∈ Op.routeAll p.ops 0 := fun v hv =>
    hpre.subset (List.mem_append_left later
      (List.mem_append_right earlier (List.mem_map_of_mem hv)))
  have hcount : (announcements stretch).length ≤ p.count := by
    have hsubset : visits.map Prod.fst ⊆ List.range p.count := by
      intro n hn
      obtain ⟨v, hv, rfl⟩ := List.mem_map.1 hn
      have hlt := (Op.bounds_of_visit_mem_routeAll (hmem v hv)).2
      rw [Nat.zero_add] at hlt
      exact List.mem_range.2 hlt
    have hlength := (List.subperm_of_subset hplaces.nodup hsubset).length_le
    rw [List.length_map, List.length_range] at hlength
    rw [hannounced, List.length_map]
    exact hlength
  refine ⟨earlier, visits, later, hpre, hearlier.symm, hannounced, hlater.symm, hplaces, ?_,
    hcount, fun hp => hcount.trans (p.runnable_iff.1 hp).2⟩
  intro v hv
  have hat := (Op.getElem?_of_visit_mem_routeAll p.ops (hmem v hv)).2
  rw [Nat.sub_zero] at hat
  exact hat

/-- A program that never ends: round for round two turns to the right and one to the left. -/
def whirling : Program :=
  ⟨[.start "s", .loop (.ofBits 0x7ff0000000000000)
    [.loop (.ofInt 2) [.turn .right "r"] "i", .turn .left "l"] "o"]⟩

/-- How it goes if a stop is asked for when the second turn to the left is announced. -/
def whirled : Report (List String) Empty (Timetable Empty) :=
  run (Rehearsal.game {}) (Timetable.host Empty) whirling Rehearsal.stale
    { triggers := [⟨"step", some "l", 2⟩] }

/-- What is on record between the third yield, before the last round of the inner loop, and the
fourth, before the next round of the outer one. -/
def outOfTheInnerLoop : List (Entry Empty) := (whirled.log.drop 11).take 4

theorem whirling_announces_in_order :
    whirling.Runnable ∧ whirled.ending = .stopped ∧
      (announcements outOfTheInnerLoop).map Op.id = ["r", "l"] ∧
      ∃ (earlier : List Waypoint) (visits : List (Nat × Op)) (later : List Waypoint),
        earlier ++ (visits.map fun v => .visit v.1 v.2) ++ later <+: Op.routeAll whirling.ops 0 ∧
        waymarks (whirled.log.take 11) = earlier.map Waypoint.moment ∧
        announcements outOfTheInnerLoop = visits.map Prod.snd ∧
        waymarks ((whirled.log.drop 11).drop 4) = later.map Waypoint.moment ∧
        (visits.map Prod.fst).Pairwise (· < ·) ∧
        (∀ v ∈ visits, (Op.nodesAll whirling.ops)[v.1]? = some v.2) ∧
        (announcements outOfTheInnerLoop).length ≤ whirling.count ∧
        (whirling.Runnable →
          (announcements outOfTheInnerLoop).length ≤ Program.largestCount) := by
  have hprogram : whirling.Runnable := by decide +kernel
  have hlog : whirled.log =
      whirled.log.take 11 ++ outOfTheInnerLoop ++ (whirled.log.drop 11).drop 4 := by
    rw [List.append_assoc, outOfTheInnerLoop, List.take_append_drop, List.take_append_drop]
  have hyield : ∀ e ∈ outOfTheInnerLoop, e.moment.isYield = false := by decide +kernel
  exact ⟨hprogram, by decide +kernel, by decide +kernel,
    announcements_between_yields (Rehearsal.game {}) (Timetable.host Empty) whirling
      Rehearsal.stale { triggers := [⟨"step", some "l", 2⟩] } hlog hyield⟩

end Run

end BlockRobot
