import BlockRobot.Compilation
import BlockRobot.Proofs.Block.Places

/-!
# Which drawings compile

Of all the stacks of a drawing one decides whether it compiles: the first that is headed by a
start.  It compiles exactly if at most `Program.largestCount` blocks with a role can be reached
from that head, down the stack and into the bodies of loops (`Compilation.outcome_ofWorkspace`).

Neither side of this is said in the words of the compiler.

* `Workspace.IsFirst` says what the first head of a kind is: no other head of the kind stands
  before it, and of several at one place it was drawn first.  The compiler sorts the heads and
  looks for the first; that the two agree (`find?_inOrder_iff`) is where the sorting has to be
  stable.
* `Block.activeWays` are the blocks with a role, counted by their places.  The compiler writes
  instructions into one another, and `Op.countAll` counts these; that the numbers agree
  (`Block.countAll_compile`) is an induction along links.

If no stack is headed by a start, what can be said of the first stack depends on its own chain
alone (`Block.isStart_filter_compile_eq_nil_iff`), for the starts in bodies are not at the top of
the program.
-/

namespace BlockRobot

namespace Workspace

/-! ## The first head of a kind -/

/-- Whether the head `b`, drawn as number `i`, stands before `c`, drawn as number `j`: higher
on the page, or further left at one height, or drawn earlier at one place. -/
def Precedes (b : Block) (i : Nat) (c : Block) (j : Nat) : Prop :=
  b.y.rank < c.y.rank ∨
    b.y.rank = c.y.rank ∧ (b.x.rank < c.x.rank ∨ b.x.rank = c.x.rank ∧ i < j)

/-- The head `b`, drawn as number `i`, is the first of a kind on the page. -/
structure IsFirst (w : Workspace) (kind : Block → Bool) (i : Nat) (b : Block) : Prop where
  drawn : w.heads[i]? = some b
  of_kind : kind b = true
  precedes : ∀ j c, w.heads[j]? = some c → kind c = true → j ≠ i → Precedes b i c j

/-- The first stack has no block on its chain with a role other than that of a start. -/
def Barren (v : Vocabulary) (w : Workspace) : Prop :=
  ∀ i first, w.IsFirst (fun _ => true) i first →
    ∀ c ∈ first.chain, v.roleOf? c.tag = none ∨ v.isStart c = true

variable {w : Workspace} {kind : Block → Bool}

theorem not_precedes_of_precedes {b c : Block} {i j : Nat} (h : Precedes b i c j) :
    ¬Precedes c j b i := by
  unfold Precedes at *
  omega

/-- Only one head is the first of a kind. -/
theorem IsFirst.unique {i j : Nat} {b c : Block} (hb : w.IsFirst kind i b)
    (hc : w.IsFirst kind j c) : b = c := by
  by_cases hij : j = i
  · subst hij
    exact Option.some.inj (hb.drawn.symm.trans hc.drawn)
  · have hbefore := hb.precedes j c hc.drawn hc.of_kind hij
    have hafter := hc.precedes i b hb.drawn hb.of_kind (Ne.symm hij)
    exact absurd hafter (not_precedes_of_precedes hbefore)

theorem notAfter_iff {b c : Block} :
    notAfter b c = true ↔ b.y.rank < c.y.rank ∨ b.y.rank = c.y.rank ∧ b.x.rank ≤ c.x.rank := by
  simp [notAfter]

theorem notAfter_trans (a b c : Block) (hab : notAfter a b = true) (hbc : notAfter b c = true) :
    notAfter a c = true := by
  rw [notAfter_iff] at *
  omega

theorem notAfter_total (a b : Block) : (notAfter a b || notAfter b a) = true := by
  rw [Bool.or_eq_true, notAfter_iff, notAfter_iff]
  omega

/-- In the order in which heads are sorted together with their numbers, what is not after
another head stands before it. -/
theorem precedes_of_zipIdxLE {b c : Block} {i j : Nat} (hij : j ≠ i)
    (h : List.zipIdxLE notAfter (b, i) (c, j) = true) : Precedes b i c j := by
  simp only [List.zipIdxLE] at h
  unfold Precedes
  split at h
  · rename_i hbc
    rw [notAfter_iff] at hbc
    split at h
    · rename_i hcb
      rw [notAfter_iff] at hcb
      have hle : i ≤ j := of_decide_eq_true h
      omega
    · rename_i hcb
      rw [notAfter_iff] at hcb
      omega
  · cases h

/-- What is found first in the order of the page is the first of its kind.  Heads can be equal,
so they are sorted together with their numbers. -/
theorem exists_isFirst_of_find? {b : Block} (hfind : w.inOrder.find? kind = some b) :
    ∃ i, w.IsFirst kind i b := by
  set sorted := w.heads.zipIdx.mergeSort (List.zipIdxLE notAfter) with hsorted
  have horder : w.inOrder = sorted.map Prod.fst := (List.mergeSort_zipIdx).symm
  rw [horder, List.find?_map, Option.map_eq_some_iff] at hfind
  obtain ⟨⟨b', i⟩, hfind, rfl⟩ := hfind
  obtain ⟨hkind, before, after, hsplit, hbefore⟩ := List.find?_eq_some_iff_append.1 hfind
  have hmem : ∀ c j, (c, j) ∈ sorted ↔ w.heads[j]? = some c := fun c j => by
    rw [(List.mergeSort_perm _ _).mem_iff, List.mem_zipIdx_iff_getElem?]
  have hpairwise : sorted.Pairwise fun x y => List.zipIdxLE notAfter x y = true :=
    List.pairwise_mergeSort (List.zipIdxLE_trans notAfter_trans)
      (List.zipIdxLE_total notAfter_total) _
  have hdrawn : w.heads[i]? = some b' :=
    (hmem b' i).1 (hsplit ▸ List.mem_append_right before (List.mem_cons_self ..))
  refine ⟨i, hdrawn, hkind, fun j c hc hckind hij => ?_⟩
  have hcmem : (c, j) ∈ before ++ (b', i) :: after := hsplit ▸ (hmem c j).2 hc
  rcases List.mem_append.1 hcmem with hin | hin
  · exact absurd hckind (by simpa using hbefore (c, j) hin)
  · rcases List.mem_cons.1 hin with heq | hin
    · exact absurd (congrArg Prod.snd heq) hij
    · rw [hsplit, List.pairwise_append, List.pairwise_cons] at hpairwise
      exact precedes_of_zipIdxLE hij (hpairwise.2.1.1 (c, j) hin)

/-- **The first head of a kind in the order of the page.** -/
theorem find?_inOrder_iff {b : Block} :
    w.inOrder.find? kind = some b ↔ ∃ i, w.IsFirst kind i b := by
  constructor
  · exact exists_isFirst_of_find?
  · rintro ⟨i, hfirst⟩
    have hmem : b ∈ w.inOrder :=
      (List.mergeSort_perm _ _).mem_iff.2 (List.mem_of_getElem? hfirst.drawn)
    obtain ⟨c, hc⟩ := Option.isSome_iff_exists.1 (List.find?_isSome.2 ⟨b, hmem, hfirst.of_kind⟩)
    obtain ⟨j, hcfirst⟩ := exists_isFirst_of_find? hc
    rw [hc, hfirst.unique hcfirst]

theorem find?_inOrder_eq_none_iff :
    w.inOrder.find? kind = none ↔ ∀ b ∈ w.heads, kind b = false := by
  rw [List.find?_eq_none]
  simp only [Bool.not_eq_true]
  exact ⟨fun h b hb => h b ((List.mergeSort_perm _ _).mem_iff.2 hb),
    fun h b hb => h b ((List.mergeSort_perm _ _).mem_iff.1 hb)⟩

end Workspace

namespace Block

variable {v : Vocabulary}

/-! ## Counting what a stack compiles to -/

/-- The instructions of the stack in the body of a block. -/
def bodyOps (v : Vocabulary) (b : Block) : List Op :=
  ((b.statement? v.fields.body).map (compile v)).getD []

/-- The number of instructions of one block: one and those of its body, if it is a loop. -/
theorem countAll_compileWith (v : Vocabulary) (body : List Op) (b : Block) :
    Op.countAll (compileWith v body b).toList =
      (if (v.roleOf? b.tag).isSome = true then 1 else 0) +
        if v.roleOf? b.tag = some .loop then Op.countAll body else 0 := by
  unfold compileWith
  cases v.roleOf? b.tag with
  | none => rfl
  | some role => cases role <;> simp [Op.count]

/-- **A stack compiles to as many instructions as it has blocks with a role**, those in the
bodies of loops included. -/
theorem countAll_compile (v : Vocabulary) (b : Block) :
    ((Op.countAll (b.compile v) : Nat) : ℕ∞) = (b.activeWays v).encard := by
  have hlink : ∀ first : Option Block,
      (∀ c, first = some c → ((Op.countAll (c.compile v) : Nat) : ℕ∞) = (c.activeWays v).encard) →
      ((Op.countAll ((first.map (compile v)).getD []) : Nat) : ℕ∞) =
        (activeWaysOf v first).encard := by
    intro first hfirst
    cases first with
    | none => simp [activeWaysOf]
    | some c => exact hfirst c rfl
  induction b using linkInduction with
  | step b hbelow hinputs =>
    have hinside : ((if v.roleOf? b.tag = some .loop then Op.countAll (b.bodyOps v) else 0 : Nat) :
        ℕ∞) = (activeWaysOf v (b.inside? v)).encard := by
      unfold inside?
      split
      · exact hlink _ (hinputs v.fields.body)
      · simp [activeWaysOf]
    rw [compile_eq, Op.countAll_append, countAll_compileWith, encard_activeWays, ← hinside,
      ← hlink _ hbelow]
    unfold bodyOps
    push_cast
    exact add_right_comm _ _ _

/-- A stack headed by a start compiles to the start and what is below. -/
theorem exists_compile_eq_cons {b : Block} (hb : v.isStart b = true) :
    ∃ ops, b.compile v = .start b.id :: ops := by
  have hrole : v.roleOf? b.tag = some .start := by simpa [Vocabulary.isStart] using hb
  refine ⟨(b.below?.map (compile v)).getD [], ?_⟩
  rw [compile_eq, compileWith, hrole]
  rfl

/-! ## The top of a program -/

/-- A stack is compiled block by block along its chain. -/
theorem compile_eq_filterMap_chain (v : Vocabulary) (b : Block) :
    b.compile v = b.chain.filterMap fun c => compileWith v (c.bodyOps v) c := by
  induction b using linkInduction with
  | step b hbelow _ =>
    have hrest : (b.below?.map (compile v)).getD [] =
        ((b.below?.map chain).getD []).filterMap fun c => compileWith v (c.bodyOps v) c := by
      cases h : b.below? with
      | none => rfl
      | some c => exact hbelow c h
    rw [compile_eq, chain_eq, hrest, List.filterMap_cons]
    change (compileWith v (b.bodyOps v) b).toList ++ _ = _
    cases compileWith v (b.bodyOps v) b <;> rfl

/-- A block compiles to a start exactly if it is one. -/
theorem isStart_of_compileWith {body : List Op} {b : Block} {op : Op}
    (hop : compileWith v body b = some op) : op.isStart = v.isStart b := by
  unfold compileWith at hop
  unfold Vocabulary.isStart
  cases hrole : v.roleOf? b.tag with
  | none => rw [hrole] at hop; cases hop
  | some role =>
    rw [hrole] at hop
    obtain rfl := Option.some.inj hop
    cases role <;> rfl

/-- A block compiles to nothing exactly if it has no role. -/
theorem compileWith_eq_none_iff {body : List Op} {b : Block} :
    compileWith v body b = none ↔ v.roleOf? b.tag = none := by
  simp [compileWith]

/-- **What is left of a stack without its starts** is nothing exactly if every block on its
chain is a start or has no role. -/
theorem isStart_filter_compile_eq_nil_iff {b : Block} :
    ((b.compile v).filter fun op => !op.isStart) = [] ↔
      ∀ c ∈ b.chain, v.roleOf? c.tag = none ∨ v.isStart c = true := by
  rw [compile_eq_filterMap_chain, List.filter_eq_nil_iff]
  constructor
  · intro h c hc
    cases hop : compileWith v (c.bodyOps v) c with
    | none => exact Or.inl (compileWith_eq_none_iff.1 hop)
    | some op =>
      have hstart := h op (List.mem_filterMap.2 ⟨c, hc, hop⟩)
      rw [isStart_of_compileWith hop] at hstart
      exact Or.inr (by simpa using hstart)
  · intro h op hop
    obtain ⟨c, hc, hcop⟩ := List.mem_filterMap.1 hop
    rw [isStart_of_compileWith hcop]
    rcases h c hc with hrole | hstart
    · rw [compileWith_eq_none_iff.2 hrole] at hcop
      cases hcop
    · simp [hstart]

end Block

/-! ## The outcome -/

namespace Program

/-- The code of the rule a program breaks. -/
theorem codes_diagnostics (p : Program) :
    p.diagnostics.map Diagnostic.code =
      if p.ops = [] then [Diagnostic.emptyProgram]
      else if p.beginsWithStart = false then [Diagnostic.missingStart]
      else if largestCount < p.count then [Diagnostic.programTooLong]
      else [] := by
  obtain ⟨ops⟩ := p
  cases ops with
  | nil => rfl
  | cons op ops =>
    unfold diagnostics ruleBroken?
    cases hbegins : beginsWithStart ⟨op :: ops⟩ with
    | false => rfl
    | true =>
      by_cases hcount : largestCount < count ⟨op :: ops⟩
      · simp [isEmpty, hcount, RuleBroken.diagnostic, RuleBroken.code, Diagnostic.ofCode]
      · simp [isEmpty, hcount]

end Program

namespace Workspace

/-- With a start at the head of a stack, the program is that of the first such stack. -/
theorem compile_of_isFirst {w : Workspace} {v : Vocabulary} {i : Nat} {head : Block}
    (hhead : w.IsFirst v.isStart i head) : w.compile v = ⟨head.compile v⟩ := by
  unfold compile
  rw [find?_inOrder_iff.2 ⟨i, hhead⟩]

/-- There is a first start among the heads, if there is any. -/
theorem exists_isFirst {w : Workspace} {kind : Block → Bool} (h : ∃ b ∈ w.heads, kind b = true) :
    ∃ i b, w.IsFirst kind i b := by
  cases hfind : w.inOrder.find? kind with
  | none =>
    obtain ⟨b, hb, hkind⟩ := h
    exact absurd (hkind.symm.trans (find?_inOrder_eq_none_iff.1 hfind b hb)) (by simp)
  | some b =>
    obtain ⟨i, hfirst⟩ := find?_inOrder_iff.1 hfind
    exact ⟨i, b, hfirst⟩

/-- With no start at the head of a stack, the program is what the first stack has beside
starts. -/
theorem compile_of_forall_isStart {w : Workspace} {v : Vocabulary}
    (hnone : ∀ b ∈ w.heads, v.isStart b = false) :
    (w.heads = [] ∧ w.compile v = ⟨[]⟩) ∨
      ∃ i first, w.IsFirst (fun _ => true) i first ∧
        w.compile v = ⟨(first.compile v).filter fun op => !op.isStart⟩ := by
  unfold compile
  rw [find?_inOrder_eq_none_iff.2 hnone]
  cases horder : w.inOrder with
  | nil =>
    refine Or.inl ⟨?_, rfl⟩
    exact List.Perm.nil_eq (horder ▸ List.mergeSort_perm w.heads notAfter) |>.symm
  | cons first rest =>
    have hfind : w.inOrder.find? (fun _ => true) = some first := by rw [horder]; rfl
    obtain ⟨i, hfirst⟩ := find?_inOrder_iff.1 hfind
    exact Or.inr ⟨i, first, hfirst, rfl⟩

end Workspace

namespace Compilation

variable {w : Workspace} {v : Vocabulary}

/-- The outcome for a drawing with a start at the head of a stack. -/
theorem outcome_of_isFirst {i : Nat} {head : Block} (hhead : w.IsFirst v.isStart i head) :
    ((ofWorkspace w v).success = true ↔ (head.activeWays v).encard ≤ Program.largestCount) ∧
      ∃ ops, (ofWorkspace w v).program = some ⟨.start head.id :: ops⟩ ∧
        (Program.count ⟨.start head.id :: ops⟩ : ℕ∞) = (head.activeWays v).encard ∧
        (Program.largestCount < (head.activeWays v).encard →
          (ofWorkspace w v).errors.map Diagnostic.code = [Diagnostic.programTooLong]) := by
  obtain ⟨ops, hops⟩ := Block.exists_compile_eq_cons hhead.of_kind
  have hcompile : w.compile v = ⟨.start head.id :: ops⟩ := by
    rw [Workspace.compile_of_isFirst hhead, hops]
  have hcount : (Program.count ⟨.start head.id :: ops⟩ : ℕ∞) = (head.activeWays v).encard := by
    rw [← Block.countAll_compile, hops]
    rfl
  refine ⟨?_, ops, by rw [ofWorkspace, hcompile], hcount, fun hlong => ?_⟩
  · rw [success_ofWorkspace, hcompile, Program.runnable_iff, ← hcount, Nat.cast_le]
    exact and_iff_right rfl
  · rw [← hcount, Nat.cast_lt] at hlong
    rw [ofWorkspace, hcompile, Program.codes_diagnostics, if_neg (by simp), if_neg nofun, if_pos hlong]

/-- A program without a start at its top may not run. -/
theorem outcome_of_not_isStart {ops : List Op} (hcompile : w.compile v = ⟨ops⟩)
    (hops : ∀ op ∈ ops, op.isStart = false) :
    (ofWorkspace w v).success = false ∧
      (ofWorkspace w v).errors.map Diagnostic.code =
        if ops = [] then [Diagnostic.emptyProgram] else [Diagnostic.missingStart] := by
  have hbegins : (w.compile v).beginsWithStart = false := by
    rw [hcompile]
    cases ops with
    | nil => rfl
    | cons op ops => simpa [Program.beginsWithStart] using hops op (List.mem_cons_self ..)
  constructor
  · rw [← Bool.not_eq_true, success_ofWorkspace, Program.runnable_iff, hbegins]
    exact fun h => Bool.false_ne_true h.1
  · rw [ofWorkspace, Program.codes_diagnostics, if_pos hbegins, hcompile]

/-- The outcome for a drawing with no start at the head of a stack. -/
theorem outcome_of_forall_isStart (hnone : ∀ b ∈ w.heads, v.isStart b = false) :
    (ofWorkspace w v).success = false ∧
      ∃ ops, (ofWorkspace w v).program = some ⟨ops⟩ ∧ (∀ op ∈ ops, op.isStart = false) ∧
        (w.Barren v → (ofWorkspace w v).errors.map Diagnostic.code = [Diagnostic.emptyProgram]) ∧
        (¬w.Barren v → (ofWorkspace w v).errors.map Diagnostic.code = [Diagnostic.missingStart]) := by
  rcases Workspace.compile_of_forall_isStart hnone with ⟨hheads, hcompile⟩ | ⟨i, first, hfirst, hcompile⟩
  · have hbarren : w.Barren v := by
      intro i first hfirst
      have hdrawn := hfirst.drawn
      rw [hheads] at hdrawn
      cases hdrawn
    obtain ⟨hsuccess, hcodes⟩ := outcome_of_not_isStart hcompile nofun
    exact ⟨hsuccess, [], by rw [ofWorkspace, hcompile], nofun, fun _ => hcodes,
      fun h => absurd hbarren h⟩
  · have hplain : ∀ op ∈ (first.compile v).filter fun op => !op.isStart, op.isStart = false :=
      fun op hop => by simpa using (List.mem_filter.1 hop).2
    have hbarren : w.Barren v ↔ ((first.compile v).filter fun op => !op.isStart) = [] := by
      rw [Block.isStart_filter_compile_eq_nil_iff]
      exact ⟨fun h => h i first hfirst, fun h j b hb => hfirst.unique hb ▸ h⟩
    obtain ⟨hsuccess, hcodes⟩ := outcome_of_not_isStart hcompile hplain
    refine ⟨hsuccess, _, by rw [ofWorkspace, hcompile], hplain, fun h => ?_, fun h => ?_⟩
    · rw [hcodes, if_pos (hbarren.1 h)]
    · rw [hcodes, if_neg (mt hbarren.2 h)]

/-- **Which drawings compile.**

* A drawing compiles exactly if it has a stack headed by a start and at most
  `Program.largestCount` blocks with a role are reached from the first such head.
* If there is a stack headed by a start, there is a first one.  The program begins with the
  start of that head and has as many instructions as there are blocks reached, and if they are
  too many, this is the one error.
* If there is none, the program has no start at its top and is refused, as empty if the first
  stack has nothing but starts on its chain, and for the missing start otherwise. -/
theorem outcome_ofWorkspace (w : Workspace) (v : Vocabulary) :
    ((ofWorkspace w v).success = true ↔
      ∃ i head, w.IsFirst v.isStart i head ∧
        (head.activeWays v).encard ≤ Program.largestCount) ∧
    ((∃ b ∈ w.heads, v.isStart b = true) → ∃ i head, w.IsFirst v.isStart i head ∧
      ∃ ops, (ofWorkspace w v).program = some ⟨.start head.id :: ops⟩ ∧
        (Program.count ⟨.start head.id :: ops⟩ : ℕ∞) = (head.activeWays v).encard ∧
        (Program.largestCount < (head.activeWays v).encard →
          (ofWorkspace w v).errors.map Diagnostic.code = [Diagnostic.programTooLong])) ∧
    ((∀ b ∈ w.heads, v.isStart b = false) → (ofWorkspace w v).success = false ∧
      ∃ ops, (ofWorkspace w v).program = some ⟨ops⟩ ∧ (∀ op ∈ ops, op.isStart = false) ∧
        (w.Barren v → (ofWorkspace w v).errors.map Diagnostic.code = [Diagnostic.emptyProgram]) ∧
        (¬w.Barren v →
          (ofWorkspace w v).errors.map Diagnostic.code = [Diagnostic.missingStart])) := by
  refine ⟨⟨fun hsuccess => ?_, ?_⟩, fun hstart => ?_, outcome_of_forall_isStart⟩
  · by_cases hstart : ∃ b ∈ w.heads, v.isStart b = true
    · obtain ⟨i, head, hhead⟩ := Workspace.exists_isFirst hstart
      exact ⟨i, head, hhead, (outcome_of_isFirst hhead).1.1 hsuccess⟩
    · push Not at hstart
      have hnone : ∀ b ∈ w.heads, v.isStart b = false := fun b hb => by simpa using hstart b hb
      exact absurd (hsuccess.symm.trans (outcome_of_forall_isStart hnone).1) (by simp)
  · rintro ⟨i, head, hhead, hcount⟩
    exact (outcome_of_isFirst hhead).1.2 hcount
  · obtain ⟨i, head, hhead⟩ := Workspace.exists_isFirst hstart
    exact ⟨i, head, hhead, (outcome_of_isFirst hhead).2⟩

end Compilation

end BlockRobot
