import Mathlib
import TapeMachine.Proofs.Placement

namespace TapeMachine

/-- An instruction that is carried out may put the frame on top of the others. -/
inductive Opcode.Pushes : Opcode → Frame → Prop
  | branch {middle stop : Nat} : Pushes (.branch (some middle) stop) (.branch middle stop)
  | repeats {start stop remaining : Nat} : Pushes (.repeats start stop) (.repeats start stop remaining)
  | loop {test body stop : Nat} : Pushes (.loop test body stop) (.loop test body stop)
  | cell {name : String} {stop address : Nat} : Pushes (.cell name stop) (.cell stop address)
  | call {name : String} {tape : Tape} {address : Nat} : Pushes (.call name) (.call tape address)

theorem Opcode.Pushes.of_mem_cons {opcode : Opcode} {top frame : Frame} {frames : List Frame}
    (pushes : opcode.Pushes top) (member : frame ∈ top :: frames) : frame ∈ frames ∨ opcode.Pushes frame := by
  rcases List.mem_cons.1 member with rfl | below
  · exact .inr pushes
  · exact .inl below

/-- The bounds of a block come one behind the other. -/
def Opcode.Ascends : Opcode → Prop
  | .branch (some middle) stop => middle < stop
  | .repeats start stop => start < stop
  | .loop test body stop => test < body ∧ body < stop
  | _ => True

namespace Frame

/-- The bounds of a block that is being run come one behind the other. -/
def Ascends : Frame → Prop
  | branch bound resume => bound < resume
  | repeats start stop _ => start < stop
  | loop test body stop => test < body ∧ body < stop
  | cell .. | call .. => True

/-- How often a frame can be looked at while the frames and operands stay as they are. The place behind a consequent may
be the end of a loop around it, so that a branch counts for two. -/
def patience : Frame → Nat
  | branch .. => 2
  | repeats _ _ remaining => remaining
  | loop .. | cell .. | call .. => 0

theorem ascends_of_pushes {opcode : Opcode} {frame : Frame} (pushes : opcode.Pushes frame) (ascends : opcode.Ascends) :
    frame.Ascends := by
  cases pushes with
  | branch | repeats | loop => exact ascends
  | cell | call => trivial

end Frame

mutual

/-- Bounds ascend wherever an item stands. -/
theorem Item.ascends_of_mem_code {item : Item} {start : Nat} {instruction : Instruction}
    (member : instruction ∈ item.code start) : instruction.opcode.Ascends := by
  cases item with
  | number | string | word | imports =>
    obtain rfl := List.mem_singleton.1 member
    trivial
  | branch _ body _ | repeats _ body _ | bind _ _ body _ | cell _ _ body _ | define _ _ body _ =>
    have inside : ∀ start, instruction ∈ codeOf start body → instruction.opcode.Ascends :=
      fun _ inner => ascends_of_mem_codeOf inner
    simp only [Item.code, List.mem_cons, List.mem_append, List.not_mem_nil] at member
    grind [Opcode.Ascends]
  | choice _ first _ second _ | loop _ first _ second _ =>
    have before : ∀ start, instruction ∈ codeOf start first → instruction.opcode.Ascends :=
      fun _ inner => ascends_of_mem_codeOf inner
    have behind : ∀ start, instruction ∈ codeOf start second → instruction.opcode.Ascends :=
      fun _ inner => ascends_of_mem_codeOf inner
    simp only [Item.code, List.mem_cons, List.mem_append, List.not_mem_nil] at member
    grind [Opcode.Ascends]

theorem ascends_of_mem_codeOf {items : List Item} {start : Nat} {instruction : Instruction}
    (member : instruction ∈ codeOf start items) : instruction.opcode.Ascends := by
  match items with
  | [] => cases member
  | item :: rest =>
    rcases List.mem_append.1 member with here | later
    · exact Item.ascends_of_mem_code here
    · exact ascends_of_mem_codeOf later

end

theorem Tape.ascends_of_mem {items : List Item} {instruction : Instruction}
    (member : instruction ∈ (Tape.ofItems items).toList) : instruction.opcode.Ascends := by
  rw [toList_ofItems] at member
  exact ascends_of_mem_codeOf member

namespace Machine

variable {machine next : Machine} {cause : Cause} {more : Bool}

/-- To leave a call adds no frame. -/
theorem mem_of_unwind {frames : List Frame} {frame : Frame} (ran : unwind frames machine = .ran next)
    (member : frame ∈ next.frames) : frame ∈ frames := by
  induction frames generalizing machine with
  | nil => cases ran
  | cons innermost outer ih =>
    cases innermost with
    | call =>
      cases ran
      exact List.mem_cons_of_mem _ member
    | branch | repeats | loop => exact List.mem_cons_of_mem _ (ih ran)
    | cell stop address =>
      rw [unwind] at ran
      split at ran
      · exact List.mem_cons_of_mem _ (ih ran)
      · cases ran

/-- A frame that is there behind an instruction was there before, or it is the instruction that pushes it. -/
theorem pushes_of_perform {instruction : Instruction} {frame : Frame} (ran : machine.perform instruction = .ran next)
    (member : frame ∈ next.frames) : frame ∈ machine.frames ∨ instruction.opcode.Pushes frame := by
  obtain ⟨opcode, place⟩ := instruction
  cases opcode with
  | number | string =>
    simp only [perform, leave] at ran
    split at ran <;> cases ran
    exact .inl member
  | branch alternative stop =>
    simp only [perform, Machine.branch] at ran
    split at ran
    · cases ran
    · split at ran
      · cases ran
      · split at ran
        · cases ran
          cases alternative with
          | none => exact .inl member
          | some middle => exact Opcode.Pushes.of_mem_cons .branch member
        · cases ran
          exact .inl member
  | repeats start stop =>
    simp only [perform, Machine.repeats] at ran
    split at ran
    · cases ran
    · split at ran
      · cases ran
      · cases ran
        exact .inl member
      · cases ran
        exact Opcode.Pushes.of_mem_cons .repeats member
  | loop =>
    cases ran
    exact Opcode.Pushes.of_mem_cons .loop member
  | bind =>
    simp only [perform, Machine.bind] at ran
    split at ran <;> cases ran
    exact .inl member
  | cell =>
    simp only [perform, Machine.cell] at ran
    split at ran <;> cases ran
    exact Opcode.Pushes.of_mem_cons .cell member
  | call name =>
    simp only [perform, Machine.call] at ran
    split at ran
    · simp only [Machine.builtin] at ran
      split at ran
      · cases ran
      · split at ran <;> cases ran
        exact .inl member
    · cases ran
      exact Opcode.Pushes.of_mem_cons .call member
    · split at ran
      · simp only [leave] at ran
        split at ran <;> cases ran
        exact .inl member
      · cases ran
  | unbind | define | dropCell | enter | noop =>
    cases ran
    exact .inl member
  | ret => exact .inl (mem_of_unwind ran member)
  | imports => cases ran

/-- One look at the innermost frame. A loop that stands behind its body goes back to its test; what that makes of the
place is up to the next look. -/
def look (machine : Machine) : Boundary :=
  match machine.frames with
  | .loop test body stop :: outer =>
    if machine.ip = stop then .crossed { machine with ip := test + 1 } else machine.bodyOrDone body stop outer
  | _ => machine.boundary

/-- A machine that looks at its innermost frame, so many times, until there is no boundary where it stands or something
fails. -/
inductive Settles : (looks : Nat) → Machine → Outcome Bool × Machine → Prop
  | settled {machine next : Machine} {more : Bool} : machine.look = .settled more next →
      Settles 1 machine (.ok more, next)
  | failed {machine next : Machine} {cause : Cause} : machine.look = .failed cause next →
      Settles 1 machine (.error cause, next)
  | crossed {machine next : Machine} {looks : Nat} {result : Outcome Bool × Machine} : machine.look = .crossed next →
      Settles looks next result → Settles (looks + 1) machine result

/-- How many looks the loop that stands behind its body takes to return to its test. -/
def returning (machine : Machine) : Nat :=
  match machine.frames with
  | .loop _ _ stop :: _ => if machine.ip = stop then 1 else 0
  | _ => 0

/-- What the looks at the boundaries of one place use up. -/
def patience (machine : Machine) : Nat :=
  (machine.frames.map Frame.patience).sum + 2 * machine.operands.size + machine.returning

theorem returning_le (machine : Machine) : machine.returning ≤ 1 := by
  unfold returning
  split
  · split <;> omega
  · omega

/-- Only the return of a loop to its test takes one more look than a boundary. -/
theorem look_cases (machine : Machine) :
    (machine.returning = 0 ∧ machine.look = machine.boundary) ∨
      ∃ test body stop outer, machine.frames = .loop test body stop :: outer ∧ machine.ip = stop ∧
        machine.look = .crossed { machine with ip := test + 1 } := by
  unfold look returning
  split
  · rename_i test body stop outer frames
    split
    · rename_i here
      exact .inr ⟨test, body, stop, outer, frames, here, rfl⟩
    · rename_i elsewhere
      refine .inl ⟨rfl, ?_⟩
      simp only [boundary, frames, backToTest, if_neg elsewhere]
  · exact .inl ⟨rfl, rfl⟩

/-- Where a loop returns, the boundary is that of the place behind its test. -/
theorem boundary_of_return {test body stop : Nat} {outer : List Frame} (ascends : test < body ∧ body < stop)
    (frames : machine.frames = .loop test body stop :: outer) (here : machine.ip = stop) :
    machine.boundary = { machine with ip := test + 1 }.boundary := by
  have other : test + 1 ≠ stop := by omega
  simp only [boundary, frames, backToTest, if_pos here, if_neg other]

/-- A boundary that is crossed leaves a branch, begins a repetition again or takes an operand. -/
theorem patience_of_crossed (ascends : ∀ frame ∈ machine.frames, frame.Ascends)
    (elsewhere : machine.returning = 0) (crossing : machine.boundary = .crossed next) :
    next.patience < machine.patience ∧ ∀ frame ∈ next.frames, frame.Ascends := by
  have returning := next.returning_le
  unfold boundary at crossing
  split at crossing
  · cases crossing
  · rename_i bound resume outer frames
    rw [frames, List.forall_mem_cons] at ascends
    split at crossing
    · cases crossing
      refine ⟨?_, ascends.2⟩
      simp only [patience, frames, List.map_cons, List.sum_cons, Frame.patience]
      omega
    · cases crossing
  · rename_i start stop remaining outer frames
    rw [frames, List.forall_mem_cons] at ascends
    split at crossing
    · cases remaining with
      | zero => cases crossing
      | succ remaining =>
        cases crossing
        refine ⟨?_, List.forall_mem_cons.2 ascends⟩
        simp only [patience, frames, List.map_cons, List.sum_cons, Frame.patience, Machine.returning]
        omega
    · cases crossing
  · rename_i test body stop outer frames
    have there : machine.ip ≠ stop := by simpa [Machine.returning, frames] using elsewhere
    rw [backToTest, if_neg there] at crossing
    unfold bodyOrDone at crossing
    split at crossing
    · split at crossing
      · cases crossing
      · rename_i condition operands taken
        have smaller := Stack.size_of_popOne taken
        split at crossing
        · cases crossing
        · split at crossing
          · cases crossing
          · cases crossing
            refine ⟨?_, ascends⟩
            simp only [patience] at returning ⊢
            omega
    · cases crossing
  · split at crossing
    · split at crossing <;> cases crossing
    · cases crossing
  · cases crossing

/-- Every look takes some of the patience, as long as the bounds ascend. -/
theorem patience_of_look (ascends : ∀ frame ∈ machine.frames, frame.Ascends) (crossing : machine.look = .crossed next) :
    next.patience < machine.patience ∧ (∀ frame ∈ next.frames, frame.Ascends) ∧ machine.settle = next.settle := by
  rcases machine.look_cases with ⟨elsewhere, same⟩ | ⟨test, body, stop, outer, frames, here, returns⟩
  · rw [same] at crossing
    obtain ⟨less, later⟩ := patience_of_crossed ascends elsewhere crossing
    exact ⟨less, later, settle_of_crossed crossing⟩
  · rw [frames, List.forall_mem_cons] at ascends
    cases returns.symm.trans crossing
    refine ⟨?_, by simpa only [frames, List.forall_mem_cons] using ascends, ?_⟩
    · have other : test + 1 ≠ stop := by
        have := ascends.1
        simp only [Frame.Ascends] at this
        omega
      simp [patience, returning, frames, here, other]
    · exact settle_of_same_boundary (boundary_of_return ascends.1 frames here)

/-- A look that crosses nothing is the last one. -/
theorem settles_of_last (last : ∀ next, machine.look ≠ .crossed next) : Settles 1 machine machine.settle := by
  rcases machine.look_cases with ⟨-, same⟩ | ⟨_, _, _, _, -, -, returns⟩
  · cases found : machine.boundary with
    | settled more next =>
      rw [settle_of_settled found]
      exact .settled (same.trans found)
    | failed cause next =>
      rw [settle_of_failed found]
      exact .failed (same.trans found)
    | crossed next => exact (last next (same.trans found)).elim
  · exact (last _ returns).elim

/-- As long as the bounds ascend, the looks come to an end, and to the one that settling computes. -/
theorem settles_settle (machine : Machine) (ascends : ∀ frame ∈ machine.frames, frame.Ascends) :
    ∃ looks ≤ machine.patience + 1, Settles looks machine machine.settle := by
  cases found : machine.look with
  | settled | failed => exact ⟨1, Nat.le_add_left .., settles_of_last (by simp [found])⟩
  | crossed next =>
    obtain ⟨less, later, same⟩ := patience_of_look ascends found
    obtain ⟨looks, few, settles⟩ := settles_settle next later
    exact ⟨looks + 1, by omega, same ▸ .crossed found settles⟩
termination_by machine.patience

namespace Settles

variable {looks others : Nat} {result other : Outcome Bool × Machine}

theorem unique (settles : Settles looks machine result) (settles' : Settles others machine other) : result = other := by
  induction settles generalizing others other with
  | settled found =>
    cases settles' with
    | settled found' =>
      cases found.symm.trans found'
      rfl
    | failed found' | crossed found' => cases found.symm.trans found'
  | failed found =>
    cases settles' with
    | failed found' =>
      cases found.symm.trans found'
      rfl
    | settled found' | crossed found' => cases found.symm.trans found'
  | crossed found _ ih =>
    cases settles' with
    | settled found' | failed found' => cases found.symm.trans found'
    | crossed found' later =>
      cases found.symm.trans found'
      exact ih later

end Settles

/-- A loop that is said to end right behind the beginning of its test is looked at forever. -/
theorem not_settles_of_descends {looks test body : Nat} {outer : List Frame} {result : Outcome Bool × Machine}
    (frames : machine.frames = .loop test body (test + 1) :: outer) (here : machine.ip = test + 1) :
    ¬Settles looks machine result := by
  intro settles
  have stays : machine.look = .crossed machine := by
    obtain ⟨tape, ip, operands⟩ := machine
    cases frames
    cases here
    exact if_pos rfl
  induction settles with
  | settled found | failed found => cases stays.symm.trans found
  | crossed found _ ih =>
    cases stays.symm.trans found
    exact ih frames here stays

end Machine

/-- The bounds of every frame that an instruction of a program pushes ascend. Where they do, settling the boundaries ends
with a result or a failure after a bounded number of looks, whatever the operands and counts are, and wherever the machine
stands. -/
theorem boundaries_get_settled :
    (∀ (items : List Item) (machine next : Machine), ∀ instruction ∈ (Tape.ofItems items).toList,
      machine.perform instruction = .ran next → ∀ frame ∈ next.frames, frame ∈ machine.frames ∨ frame.Ascends) ∧
    ∀ machine : Machine, (∀ frame ∈ machine.frames, frame.Ascends) →
      (∃ looks ≤ machine.patience + 1, machine.Settles looks machine.settle) ∧
      ∀ looks result, machine.Settles looks result → result = machine.settle := by
  refine ⟨fun items machine next instruction member ran frame there => ?_, fun machine ascends => ?_⟩
  · exact (Machine.pushes_of_perform ran there).imp_right fun pushes =>
      Frame.ascends_of_pushes pushes (Tape.ascends_of_mem member)
  · obtain ⟨looks, few, settles⟩ := machine.settles_settle ascends
    exact ⟨⟨looks, few, settles⟩, fun _ _ settles' => settles'.unique settles⟩

/-- The program `while do end`, whose test and body are empty. -/
def idleLoop : List Item :=
  [.loop ⟨0, 0, 5⟩ [] ⟨0, 6, 8⟩ [] ⟨0, 9, 12⟩]

/-- A machine at the beginning of that loop, with these operands, top first. -/
def idle (operands : List Value) : Machine :=
  { Machine.start 4 (.ofItems idleLoop) with operands := { label := "operand stack", entries := operands } }

/-- The same machine inside the loop, behind its body. -/
def idling (operands : List Value) : Machine :=
  { idle operands with ip := 2, frames := [.loop 0 1 2] }

/-- It takes numbers until one of them is zero, and leaves what is below. -/
theorem idling_gets_settled :
    (∀ frame ∈ (idling [.number .one, .number .two, .number .zero, .string "x"]).frames, frame.Ascends) ∧
      (idling [.number .one, .number .two, .number .zero, .string "x"]).settle =
        (.ok true, { idling [.string "x"] with frames := [] }) := by
  have ascends : Frame.Ascends (.loop 0 1 2) :=
    (boundaries_get_settled.1 idleLoop (idle []) { idling [] with ip := 1 } ⟨.loop 0 1 2, ⟨0, 0, 5⟩⟩ (by decide) rfl _
      List.mem_cons_self).resolve_left List.not_mem_nil
  refine ⟨by simpa [idling] using ascends, ?_⟩
  obtain ⟨-, only⟩ := boundaries_get_settled.2 (idling [.number .one, .number .two, .number .zero, .string "x"])
    (by simpa [idling] using ascends)
  refine (only 6 _ ?_).symm
  -- Three times the loop returns to its test, and behind it takes a number.
  exact .crossed rfl (.crossed rfl (.crossed rfl (.crossed rfl (.crossed rfl (.settled rfl)))))

end TapeMachine
