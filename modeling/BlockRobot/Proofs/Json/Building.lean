import BlockRobot.Proofs.Json.Drafting

/-!
# What building a draft keeps

The builder of drafts goes from token to token, and what it does with one depends on the brackets
that are open and on what is due.  For a property of the open brackets this is mostly beside the
point: whatever is due, a step accepts a scalar, opens a bracket, closes one, or gives up
(`Cursor.step_comes`).  So to know that a property is kept, and what it makes of the draft in the
end, one looks at these few (`Cursor.Keeps`) and not at the steps (`Cursor.Keeps.ofTokens`).
-/

namespace BlockRobot

namespace Cursor

/-- The ways in which a step comes out, given the brackets that are open. -/
inductive Comes (frames : List Frame) : Token → Step → Prop
  | stays (token : Token) (due : Due) : Comes frames token (.on ⟨frames, due⟩)
  | opensArray : Comes frames .openArray (.on ⟨.array [] :: frames, .itemOrEnd⟩)
  | opensObject : Comes frames .openObject (.on ⟨.object [] :: frames, .keyOrEnd⟩)
  | accepts (s : Scalar) : Comes frames (.scalar s) (accept (.scalar s) frames)
  | closes (token : Token) : Comes frames token (close frames)
  | spoiled (s : Scalar) : Comes frames (.scalar s) (.stuck (Frame.enclose (.scalar s) frames))
  | noValue (token : Token) : Comes frames token (.stuck (giveUpValue .broken frames))
  | noClose (token : Token) : Comes frames token (.stuck (giveUpClose .broken frames))

section Steps

variable (frames : List Frame)

theorem takeValue_comes (token : Token) : Comes frames token (takeValue frames token) := by
  cases token with
  | scalar s =>
    rw [takeValue]
    split
    · exact .accepts s
    · exact .spoiled s
  | openArray => exact .opensArray
  | openObject => exact .opensObject
  | _ => exact .noValue _

theorem takeKey_comes (token : Token) : Comes frames token (takeKey frames token) := by
  unfold takeKey
  split
  · exact takeValue_comes frames _
  · exact takeValue_comes frames _
  · exact .noValue _

theorem takeSeparator_comes (token : Token) : Comes frames token (takeSeparator frames token) := by
  unfold takeSeparator
  split
  · exact .stays _ _
  · exact .closes _
  · exact .stays _ _
  · exact .closes _
  · exact .noClose _

/-- **Whatever is due, a step comes out in one of these ways.** -/
theorem step_comes (due : Due) (token : Token) :
    Comes frames token (step ⟨frames, due⟩ token) := by
  unfold step
  split
  · exact .closes _
  · exact .closes _
  · exact .stays _ _
  · exact .noValue _
  · exact takeSeparator_comes frames _
  · exact takeKey_comes frames _
  · exact takeKey_comes frames _
  · exact takeValue_comes frames _
  · exact takeValue_comes frames _

end Steps

/-- Building keeps a property `F` of the brackets that are open, if the scalars have the property
`T`, and what it ends with has the property `D`.  Of a step, `P` says what `F` says of the brackets
it leaves open, or what `D` says of the draft it ends with. -/
structure Keeps (T : Scalar → Prop) (F : List Frame → Prop) (D : Draft → Prop) (P : Step → Prop) :
    Prop where
  on {c : Cursor} : P (.on c) ↔ F c.frames
  whole {d : Draft} : P (.whole d) ↔ D d
  stuck {d : Draft} : P (.stuck d) ↔ D d
  openArray {frames : List Frame} (h : F frames) : F (.array [] :: frames)
  openObject {frames : List Frame} (h : F frames) : F (.object [] :: frames)
  accept {frames : List Frame} (h : F frames) {s : Scalar} (hs : T s) :
    P (Cursor.accept (.scalar s) frames)
  close {frames : List Frame} (h : F frames) : P (Cursor.close frames)
  enclose {frames : List Frame} (h : F frames) {s : Scalar} (hs : T s) :
    D (Frame.enclose (.scalar s) frames)
  giveUpValue {frames : List Frame} (h : F frames) (f : Fault) : D (Cursor.giveUpValue f frames)
  giveUpClose {frames : List Frame} (h : F frames) (f : Fault) : D (Cursor.giveUpClose f frames)

namespace Keeps

variable {T : Scalar → Prop} {F : List Frame → Prop} {D : Draft → Prop} {P : Step → Prop}
  (hkeeps : Keeps T F D P)

include hkeeps

/-- What is kept does not depend on what is due. -/
theorem of_comes {frames : List Frame} {token : Token} {step : Step}
    (h : Comes frames token step) (hframes : F frames) (htoken : ∀ s, token = .scalar s → T s) :
    P step := by
  cases h with
  | stays _ due => exact hkeeps.on.2 hframes
  | opensArray => exact hkeeps.on.2 (hkeeps.openArray hframes)
  | opensObject => exact hkeeps.on.2 (hkeeps.openObject hframes)
  | accepts s => exact hkeeps.accept hframes (htoken s rfl)
  | closes _ => exact hkeeps.close hframes
  | spoiled s => exact hkeeps.stuck.2 (hkeeps.enclose hframes (htoken s rfl))
  | noValue _ => exact hkeeps.stuck.2 (hkeeps.giveUpValue hframes .broken)
  | noClose _ => exact hkeeps.stuck.2 (hkeeps.giveUpClose hframes .broken)

theorem atEnd {c : Cursor} (h : F c.frames) : D c.atEnd := by
  obtain ⟨frames, due⟩ := c
  cases due with
  | value | key | colon => exact hkeeps.giveUpValue h .cut
  | itemOrEnd | keyOrEnd | separator => exact hkeeps.giveUpClose h .cut

/-- **What is kept by building holds in the end.** -/
theorem ofTokens {tokens : List Token} (htokens : ∀ s, .scalar s ∈ tokens → T s) {c : Cursor}
    (h : F c.frames) : D (Reading.ofTokens c tokens).draft := by
  induction tokens generalizing c with
  | nil => exact hkeeps.atEnd h
  | cons token tokens ih =>
    have hstep : P (c.step token) := hkeeps.of_comes (step_comes c.frames c.due token) h
      fun s hs => htokens s (hs ▸ List.mem_cons_self ..)
    rw [Reading.ofTokens_cons, Reading.after.eq_def]
    cases hnext : c.step token with
    | on c' =>
      rw [hnext] at hstep
      exact ih (fun s hs => htokens s (List.mem_cons_of_mem token hs)) (hkeeps.on.1 hstep)
    | whole d =>
      rw [hnext] at hstep
      exact hkeeps.whole.1 hstep
    | stuck d =>
      rw [hnext] at hstep
      exact hkeeps.stuck.1 hstep

end Keeps

end Cursor

end BlockRobot
