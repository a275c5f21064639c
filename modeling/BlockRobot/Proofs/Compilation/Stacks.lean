import BlockRobot.Proofs.Compilation.Acceptance
import Mathlib.Logic.Relation

/-!
# Stacks that do not matter

One stack of a drawing is its program, the first that is headed by a start.  So whatever is done
to the other stacks, the outcome of compiling is the same, as long as none of them gets in front
(`Compilation.ofWorkspace_eq_of_rearranged`).

* `Workspace.Bystander` is what the other stacks have to be: not headed by a start, or further down
  the page than the first start.
* `Workspace.Rearranged` is one change: the stacks are drawn in another order, or some bystanders
  are replaced by others.  Replacing none adds stacks, replacing by none removes them, and
  replacing one by one edits or moves them.
* A change keeps that there is one leading start and bystanders otherwise (`Workspace.Leads`),
  which says nothing about the order of drawing.  The leading start is the first head of its kind
  whatever that order is (`Workspace.Leads.exists_isFirst`), since between different places the
  order of drawing does not decide.

This is where the places have to differ.  If two starts stand at one place, the one drawn first is
the program, and drawing them in another order makes it the other.  Places are compared by
`Double.rank`, so the negative zero and zero are different places, and infinite ones and those that
are no numbers have their place too.
-/

namespace BlockRobot

namespace Workspace

/-! ## Places -/

/-- Whether a head stands before another by their places alone: higher on the page, or further
left at one height. -/
def StandsBefore (b c : Block) : Prop :=
  b.y.rank < c.y.rank ∨ b.y.rank = c.y.rank ∧ b.x.rank < c.x.rank

/-- Whether two heads stand at one place, bit for bit. -/
def SamePlace (b c : Block) : Prop := b.y = c.y ∧ b.x = c.x

theorem not_standsBefore_self (b : Block) : ¬StandsBefore b b := by
  unfold StandsBefore
  omega

theorem SamePlace.symm {b c : Block} (h : SamePlace b c) : SamePlace c b := ⟨h.1.symm, h.2.symm⟩

/-- What stands before by its place precedes, whenever it was drawn. -/
theorem StandsBefore.precedes {b c : Block} (h : StandsBefore b c) (i j : Nat) :
    Precedes b i c j := by
  rcases h with hy | ⟨hy, hx⟩
  · exact .inl hy
  · exact .inr ⟨hy, .inl hx⟩

/-- Between different places it does not matter what was drawn first. -/
theorem standsBefore_of_precedes {b c : Block} {i j : Nat} (h : Precedes b i c j)
    (hplaces : ¬SamePlace b c) : StandsBefore b c := by
  rcases h with hy | ⟨hy, hx | ⟨hx, -⟩⟩
  · exact .inl hy
  · exact .inr ⟨hy, hx⟩
  · exact absurd ⟨Double.rank_inj hy, Double.rank_inj hx⟩ hplaces

/-! ## Bystanders -/

variable {v : Vocabulary} {first : Block}

/-- A stack that does not matter beside the start `first`: it is not headed by a start, or it
stands behind. -/
def Bystander (v : Vocabulary) (first b : Block) : Prop :=
  v.isStart b = true → StandsBefore first b

/-- One change of the stacks of a drawing in which `first` is the first start. -/
inductive Rearranged (v : Vocabulary) (first : Block) : List Block → List Block → Prop
  /-- The stacks are drawn in another order. -/
  | reordered {heads heads' : List Block} (perm : heads.Perm heads') : Rearranged v first heads heads'
  /-- Some bystanders are replaced by any number of others. -/
  | replaced (before : List Block) {old new : List Block} (after : List Block)
      (hold : ∀ b ∈ old, Bystander v first b) (hnew : ∀ b ∈ new, Bystander v first b) :
      Rearranged v first (before ++ old ++ after) (before ++ new ++ after)

/-- Of some heads `first` is a start, and all others are bystanders. -/
def Leads (v : Vocabulary) (first : Block) (heads : List Block) : Prop :=
  v.isStart first = true ∧
    ∃ others, heads.Perm (first :: others) ∧ ∀ b ∈ others, Bystander v first b

/-- A start is no bystander of its own. -/
theorem not_bystander_self (hfirst : v.isStart first = true) : ¬Bystander v first first :=
  fun h => not_standsBefore_self first (h hfirst)

/-- A head that is in front of some heads or behind them can be brought to the front. -/
theorem exists_perm_of_mem {before after : List Block} (h : first ∈ before ++ after) :
    ∃ rest, ∀ mid : List Block, (before ++ mid ++ after).Perm (first :: (mid ++ rest)) := by
  obtain ⟨left, right, hsplit⟩ := List.append_of_mem h
  refine ⟨left ++ right, fun mid => ?_⟩
  have hfront : (before ++ mid ++ after).Perm (mid ++ (before ++ after)) := by
    rw [← List.append_assoc]
    exact List.perm_append_comm.append_right after
  have hfirst : (before ++ after).Perm (first :: (left ++ right)) := hsplit ▸ List.perm_middle
  exact (hfront.trans (hfirst.append_left mid)).trans List.perm_middle

/-- **A change keeps what leads.** -/
theorem Leads.rearranged {heads heads' : List Block} (h : Leads v first heads)
    (hchange : Rearranged v first heads heads') : Leads v first heads' := by
  obtain ⟨hfirst, others, hperm, hothers⟩ := h
  cases hchange with
  | reordered perm => exact ⟨hfirst, others, perm.symm.trans hperm, hothers⟩
  | replaced before after hold hnew =>
    rename_i old new
    have hmem : first ∈ before ++ old ++ after := hperm.mem_iff.2 (List.mem_cons_self ..)
    have hnot : first ∉ old := fun h => not_bystander_self hfirst (hold first h)
    have hkept : first ∈ before ++ after := by
      simp only [List.mem_append] at hmem ⊢
      tauto
    obtain ⟨rest, hrest⟩ := exists_perm_of_mem hkept
    have hsame : others.Perm (old ++ rest) := (hperm.symm.trans (hrest old)).cons_inv
    refine ⟨hfirst, new ++ rest, hrest new, fun b hb => ?_⟩
    rcases List.mem_append.1 hb with hb | hb
    · exact hnew b hb
    · exact hothers b (hsame.mem_iff.2 (List.mem_append_right old hb))

theorem Leads.of_changes {heads heads' : List Block} (h : Leads v first heads)
    (hchanges : Relation.ReflTransGen (Rearranged v first) heads heads') :
    Leads v first heads' := by
  induction hchanges with
  | refl => exact h
  | tail _ hchange ih => exact ih.rearranged hchange

/-! ## The start that leads is the first -/

variable {w : Workspace}

/-- A head of a drawing can be brought to the front. -/
theorem perm_cons_eraseIdx {i : Nat} (hdrawn : w.heads[i]? = some first) :
    w.heads.Perm (first :: w.heads.eraseIdx i) := by
  obtain ⟨hi, rfl⟩ := List.getElem?_eq_some_iff.1 hdrawn
  exact (List.getElem_cons_eraseIdx_perm hi).symm

/-- The first start leads, if no two starts stand at one place. -/
theorem IsFirst.leads {i : Nat} (h : w.IsFirst v.isStart i first)
    (hplaces : (w.heads.filter v.isStart).Pairwise fun b c => ¬SamePlace b c) :
    Leads v first w.heads := by
  have hperm := perm_cons_eraseIdx h.drawn
  refine ⟨h.of_kind, _, hperm, fun c hc hstart => ?_⟩
  obtain ⟨j, hj, hdrawn⟩ := List.mem_eraseIdx_iff_getElem?.1 hc
  have hfront : ((first :: w.heads.eraseIdx i).filter v.isStart).Pairwise
      fun b c => ¬SamePlace b c :=
    (hperm.filter v.isStart).pairwise hplaces fun hbc hcb => hbc hcb.symm
  rw [List.filter_cons_of_pos h.of_kind] at hfront
  exact standsBefore_of_precedes (h.precedes j c hdrawn hstart hj)
    ((List.pairwise_cons.1 hfront).1 c (List.mem_filter.2 ⟨hc, hstart⟩))

/-- **What leads is the first start**, in whatever order the heads were drawn. -/
theorem Leads.exists_isFirst (h : Leads v first w.heads) : ∃ i, w.IsFirst v.isStart i first := by
  obtain ⟨hfirst, others, hperm, hothers⟩ := h
  obtain ⟨i, hdrawn⟩ := List.mem_iff_getElem?.1 (hperm.mem_iff.2 (List.mem_cons_self ..))
  have hsame : others.Perm (w.heads.eraseIdx i) :=
    (hperm.symm.trans (perm_cons_eraseIdx hdrawn)).cons_inv
  refine ⟨i, hdrawn, hfirst, fun j c hc hstart hj => ?_⟩
  have hother : c ∈ others := hsame.mem_iff.2 (List.mem_eraseIdx_iff_getElem?.2 ⟨j, hj, hc⟩)
  exact (hothers c hother hstart).precedes i j

/-- The program of a drawing with a leading start is the stack of that start. -/
theorem Leads.compile_eq (h : Leads v first w.heads) : w.compile v = ⟨first.compile v⟩ := by
  obtain ⟨i, hfirst⟩ := h.exists_isFirst
  exact compile_of_isFirst hfirst

end Workspace

namespace Compilation

open Workspace

/-- **Other stacks do not matter.**  If a drawing has stacks headed by a start, no two of them at
one place, then there is a first one, and the outcome stays the same under any changes in which
that stack stays: the stacks may be reordered, and stacks that are not headed by a start or stand
behind the first start may be added, removed, edited and moved, to be again such stacks. -/
theorem ofWorkspace_eq_of_rearranged {w : Workspace} {v : Vocabulary}
    (hstart : ∃ b ∈ w.heads, v.isStart b = true)
    (hplaces : (w.heads.filter v.isStart).Pairwise fun b c => ¬SamePlace b c) :
    ∃ i first, w.IsFirst v.isStart i first ∧ ∀ w' : Workspace,
      Relation.ReflTransGen (Rearranged v first) w.heads w'.heads →
        ofWorkspace w' v = ofWorkspace w v := by
  obtain ⟨i, first, hfirst⟩ := exists_isFirst hstart
  have hleads := hfirst.leads hplaces
  refine ⟨i, first, hfirst, fun w' hchanges => ?_⟩
  rw [ofWorkspace, ofWorkspace, (hleads.of_changes hchanges).compile_eq, hleads.compile_eq]

/-- A start at the height of the negative zero. -/
def soon : Block :=
  ⟨"maze_start", "soon", .zero, { Double.zero with negative := true }, [], [],
    some ⟨some (.bare "maze_wait" "w"), none⟩⟩

/-- A start at the height of zero. -/
def late : Block := .bare "maze_start" "late"

/-- A comment high above all starts. -/
def remark : Block := { Block.bare "text_comment" "c" with y := .ofInt (-100) }

/-- A move at the same height that is not connected to anything. -/
def loose : Block := { remark with tag := "maze_move_forward" }

/-- A drawing with two starts and a comment. -/
def crowded : Workspace := ⟨0, [late, soon, remark]⟩

/-- The same drawing without the second start, with a move for the comment, and drawn in another
order. -/
def cleared : Workspace := ⟨0, [loose, soon]⟩

theorem crowded_compiles_as_cleared :
    (∃ b ∈ crowded.heads, Vocabulary.maze.isStart b = true) ∧
      ((crowded.heads.filter Vocabulary.maze.isStart).Pairwise fun b c => ¬SamePlace b c) ∧
      ofWorkspace cleared .maze = ofWorkspace crowded .maze := by
  have hsoon : Vocabulary.maze.isStart soon = true := by decide +kernel
  have hremark : Vocabulary.maze.isStart remark = false := by decide +kernel
  have hloose : Vocabulary.maze.isStart loose = false := by decide +kernel
  have hbefore : StandsBefore soon late := .inl (by decide)
  have hstart : ∃ b ∈ crowded.heads, Vocabulary.maze.isStart b = true :=
    ⟨soon, by simp [crowded], hsoon⟩
  have hplaces : (crowded.heads.filter Vocabulary.maze.isStart).Pairwise
      fun b c => ¬SamePlace b c := by
    have hstarts : crowded.heads.filter Vocabulary.maze.isStart = [late, soon] := rfl
    rw [hstarts, List.pairwise_pair]
    exact fun h => absurd h.1 (by decide)
  have hisFirst : crowded.IsFirst Vocabulary.maze.isStart 1 soon := by
    refine ⟨rfl, hsoon, fun j c hc hstart hj => ?_⟩
    match j, hj with
    | 0, _ => exact Option.some.inj hc ▸ hbefore.precedes 1 0
    | 2, _ => exact absurd (Option.some.inj hc ▸ hstart) (by simp [hremark])
    | j + 3, _ => cases hc
  obtain ⟨i, first, hfirst, hsame⟩ := ofWorkspace_eq_of_rearranged hstart hplaces
  obtain rfl := hfirst.unique hisFirst
  refine ⟨hstart, hplaces, hsame cleared ?_⟩
  have hremoved : Rearranged .maze soon ([] ++ [late] ++ [soon, remark])
      ([] ++ [] ++ [soon, remark]) :=
    .replaced [] [soon, remark] (List.forall_mem_singleton.2 fun _ => hbefore)
      (List.forall_mem_nil _)
  have hedited : Rearranged .maze soon ([soon] ++ [remark] ++ []) ([soon] ++ [loose] ++ []) :=
    .replaced [soon] [] (by simp [Bystander, hremark]) (by simp [Bystander, hloose])
  have hreordered : Rearranged .maze soon [soon, loose] [loose, soon] := .reordered (.swap ..)
  exact ((Relation.ReflTransGen.single hremoved).tail hedited).tail hreordered

end Compilation

end BlockRobot
