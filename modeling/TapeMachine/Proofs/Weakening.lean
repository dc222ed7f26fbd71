import Mathlib.Data.List.Forall2
import TapeMachine.Proofs.Layout
import TapeMachine.Typing

namespace TapeMachine

/-- Where the first outcome is a result, the second is one that is related to it. -/
def Concurs {α β ε : Type} (related : α → β → Prop) (first : Except ε α) (second : Except ε β) : Prop :=
  ∀ made, first = .ok made → ∃ other, second = .ok other ∧ related made other

namespace Concurs

variable {α β γ δ ε : Type} {related : α → β → Prop} {relates : γ → δ → Prop} {first : Except ε α} {second : Except ε β}

theorem ok {made : α} {other : β} (holds : related made other) :
    Concurs related (.ok made : Except ε α) (.ok other) := by
  intro found same
  cases same
  exact ⟨other, rfl, holds⟩

theorem error (reason : ε) (second : Except ε β) : Concurs related (.error reason : Except ε α) second :=
  nofun

/-- A sequence concurs where its parts do. Only the success of the first matters, so the first failing settles it. -/
theorem bind {f : α → Except ε γ} {g : β → Except ε δ} (concurs : Concurs related first second)
    (later : ∀ made other, related made other → Concurs relates (f made) (g other)) :
    Concurs relates (first.bind f) (second.bind g) := by
  cases first with
  | error reason => exact .error reason _
  | ok made =>
    obtain ⟨other, rfl, holds⟩ := concurs made rfl
    exact later made other holds

theorem map {f : α → γ} {g : β → δ} (concurs : Concurs related first second)
    (later : ∀ made other, related made other → relates (f made) (g other)) :
    Concurs relates (first.map f) (second.map g) := by
  cases first with
  | error reason => exact .error reason _
  | ok made =>
    obtain ⟨other, rfl, holds⟩ := concurs made rfl
    exact .ok (later made other holds)

end Concurs

namespace Build

variable {α β γ δ : Type}

/-- Where the first build makes something, the second makes something that is related to it, and both leave the same
workspace. -/
def Concurs (related : α → β → Prop) (first : Build α) (second : Build β) : Prop :=
  ∀ made after, first = (.ok made, after) → ∃ other, second = (.ok other, after) ∧ related made other

variable {related : α → β → Prop} {relates : γ → δ → Prop}

theorem concurs_ok {made : α} {other : β} (holds : related made other) (workspace : Workspace) :
    Concurs related (.ok made, workspace) (.ok other, workspace) := by
  intro found after same
  cases same
  exact ⟨other, rfl, holds⟩

/-- The same for builds: the second part starts from one workspace on both sides, since the first parts leave the same
one. -/
theorem Concurs.andThen {first : Build α} {second : Build β} {f : α → Workspace → Build γ} {g : β → Workspace → Build δ}
    (concurs : Concurs related first second)
    (later : ∀ made other, related made other → ∀ workspace, Concurs relates (f made workspace) (g other workspace)) :
    Concurs relates (first.andThen f) (second.andThen g) := by
  obtain ⟨outcome, between⟩ := first
  cases outcome with
  | error failure => exact nofun
  | ok made =>
    obtain ⟨other, rfl, holds⟩ := concurs made between rfl
    exact later made other holds between

/-- Saying where an outcome belongs leaves the workspace as it is, and so keeps two outcomes concurrent. -/
theorem concurs_placed {first : Outcome α} {second : Outcome β} (concurs : TapeMachine.Concurs related first second)
    (place : Location) (workspace : Workspace) :
    Concurs related (Typing.placed first place workspace) (Typing.placed second place workspace) := by
  cases first with
  | error cause => exact nofun
  | ok made =>
    obtain ⟨other, rfl, holds⟩ := concurs made rfl
    exact concurs_ok holds workspace

end Build

namespace Stack

variable {α β : Type} {related : α → β → Prop} {stack : Stack α} {other : Stack β}

/-- The entries of two stacks are related, one beside the other. -/
def Aligned (related : α → β → Prop) (stack : Stack α) (other : Stack β) : Prop :=
  List.Forall₂ related stack.entries other.entries

theorem Aligned.size_eq (aligned : Aligned related stack other) : stack.size = other.size := by
  rw [stack.size_eq, other.size_eq]
  exact List.Forall₂.length_eq aligned

theorem Aligned.toList (aligned : Aligned related stack other) : List.Forall₂ related stack.toList other.toList :=
  List.rel_reverse aligned

theorem Aligned.drop (aligned : Aligned related stack other) (count : Nat) :
    Aligned related (stack.drop count) (other.drop count) :=
  List.forall₂_drop count aligned

/-- Both stacks have as many entries, so they reach the limit together. -/
theorem Aligned.push {value : α} {value' : β} (aligned : Aligned related stack other) (same : related value value') :
    Concurs (Aligned related) (accepted (stack.push value)) (accepted (other.push value')) := by
  have sizes : (stack.store value).size = (other.store value').size := congrArg (· + 1) aligned.size_eq
  unfold Stack.push accepted check
  dsimp only
  rw [← sizes]
  split
  · exact .ok (.cons same aligned)
  · exact .error _ _

/-- As for one entry. A value is stored before the limit is looked at, so the induction is on what has been stored. -/
theorem Aligned.pushAll {values : List α} {values' : List β} (aligned : Aligned related stack other)
    (same : List.Forall₂ related values values') :
    Concurs (Aligned related) (accepted (stack.pushAll values)) (accepted (other.pushAll values')) := by
  induction same generalizing stack other with
  | nil => exact .ok aligned
  | @cons value value' rest rest' head _ ih =>
    have later := ih (show Aligned related (stack.store value) (other.store value') from .cons head aligned)
    have sizes : (stack.store value).size = (other.store value').size := congrArg (· + 1) aligned.size_eq
    simp only [Stack.pushAll, Stack.push, check, ← sizes]
    by_cases room : (stack.store value).size ≤ limit
    · simp only [if_pos room]
      exact later
    · simp only [if_neg room]
      exact .error _ _

/-- Both stacks have enough entries or neither has, and what is taken stands in the same order. -/
theorem Aligned.pop (aligned : Aligned related stack other) (count : Nat) :
    Concurs (fun popped popped' => List.Forall₂ related popped.1 popped'.1 ∧ Aligned related popped.2 popped'.2)
      (stack.pop count) (other.pop count) := by
  unfold Stack.pop top
  rw [← aligned.size_eq]
  split
  · exact .ok ⟨List.rel_reverse (List.forall₂_take count aligned), aligned.drop count⟩
  · exact .error _ _

theorem Aligned.popOne (aligned : Aligned related stack other) :
    Concurs (fun popped popped' => related popped.1 popped'.1 ∧ Aligned related popped.2 popped'.2)
      stack.popOne other.popOne := by
  have dropped := aligned.drop 1
  unfold Stack.popOne
  rcases (List.forall₂_iff ..).1 aligned with ⟨none, -⟩ | ⟨value, value', rest, rest', head, -, stands, stands'⟩
  · rw [none]
    exact .error _ _
  · rw [stands, stands']
    exact .ok ⟨head, dropped⟩

theorem Aligned.dup (aligned : Aligned related stack other) :
    Concurs (Aligned related) (accepted stack.dup) (accepted other.dup) := by
  unfold Stack.dup
  rcases (List.forall₂_iff ..).1 aligned with ⟨none, -⟩ | ⟨value, value', rest, rest', head, -, stands, stands'⟩
  · rw [none]
    exact .error _ _
  · rw [stands, stands']
    exact aligned.push head

theorem Aligned.swap (aligned : Aligned related stack other) :
    Concurs (Aligned related) stack.swap other.swap := by
  have dropped := aligned.drop 2
  unfold Stack.swap
  rcases (List.forall₂_iff ..).1 aligned with ⟨none, -⟩ | ⟨value, value', rest, rest', head, tail, stands, stands'⟩
  · rw [none]
    exact .error _ _
  · rw [stands, stands']
    cases tail with
    | nil => exact .error _ _
    | cons next _ => exact .ok (.cons next (.cons head dropped))

end Stack

namespace Dictionary

variable {α β : Type} {related : α → β → Prop} {first : Dictionary α} {second : Dictionary β}

/-- What two dictionaries hold under a name is related, or neither of them holds anything there. -/
def Aligned (related : α → β → Prop) (first : Dictionary α) (second : Dictionary β) : Prop :=
  ∀ name, Option.Rel related (first.get? name) (second.get? name)

/-- A new binding hides the same names in both dictionaries. -/
theorem Aligned.insert {value : α} {value' : β} (aligned : Aligned related first second) (key : String)
    (same : related value value') : Aligned related (first.insert key value) (second.insert key value') := by
  intro name
  rw [get?_insert, get?_insert]
  split
  · exact .some same
  · exact aligned name

theorem Aligned.insertAll {entries : List (String × α)} {entries' : List (String × β)}
    (aligned : Aligned related first second)
    (same : List.Forall₂ (fun entry entry' => entry.1 = entry'.1 ∧ related entry.2 entry'.2) entries entries') :
    Aligned related (first.insertAll entries) (second.insertAll entries') := by
  induction same generalizing first second with
  | nil => exact aligned
  | @cons entry entry' rest rest' head _ ih =>
    have inserted := aligned.insert entry.1 head.2
    nth_rewrite 2 [head.1] at inserted
    exact ih inserted

/-- Names bound to related values, one after the other, make dictionaries that are aligned; a name that stands twice
is bound to its later value in both. -/
theorem aligned_ofList_zip {values : List α} {values' : List β} (names : List String)
    (same : List.Forall₂ related values values') :
    Aligned related (ofList (names.zip values)) (ofList (names.zip values')) := by
  refine Aligned.insertAll (fun _ => .none) ?_
  induction same generalizing names with
  | nil => simp
  | cons head _ ih =>
    cases names with
    | nil => exact .nil
    | cons name rest => exact .cons ⟨rfl, head⟩ (ih rest)

end Dictionary

namespace Ty

/-- The second type is the first one, or says nothing. -/
def Weakens (t weaker : Ty) : Prop :=
  weaker = t ∨ weaker = .any

theorem weakens_refl (t : Ty) : t.Weakens t :=
  .inl rfl

variable {wanted found wanted' found' : Ty}

/-- Replacing a type by `any`, on the side that asks or on the side that is found, never makes an accepted value
unfit. -/
theorem accepts_of_weakens (wants : wanted.Weakens wanted') (finds : found.Weakens found')
    (accepted : wanted.accepts found = true) : wanted'.accepts found' = true := by
  rcases wants with rfl | rfl
  · rcases finds with rfl | rfl
    · exact accepted
    · simp [accepts]
  · rfl

/-- The same for lists of types, whose lengths weakening leaves alone. -/
theorem acceptsAll_of_weakens {wanted found wanted' found' : List Ty} (wants : List.Forall₂ Weakens wanted wanted')
    (finds : List.Forall₂ Weakens found found') (accepted : acceptsAll wanted found = true) :
    acceptsAll wanted' found' = true := by
  induction wants generalizing found found' with
  | nil =>
    cases finds with
    | nil => rfl
    | cons => cases accepted
  | cons head _ ih =>
    cases finds with
    | nil => cases accepted
    | cons head' rest' =>
      simp only [acceptsAll, List.length_cons, List.zip_cons_cons, List.all_cons, Bool.and_eq_true, beq_iff_eq,
        Nat.add_right_cancel_iff] at accepted ih ⊢
      obtain ⟨count, here, later⟩ := accepted
      obtain ⟨count', later'⟩ := ih rest' ⟨count, later⟩
      exact ⟨count', accepts_of_weakens head head' here, later'⟩

end Ty

/-- The second signature is the first one with some of its types replaced by `any`. -/
structure Signature.Weakens (signature weaker : Signature) : Prop where
  inputs : List.Forall₂ Ty.Weakens signature.inputs weaker.inputs
  outputs : List.Forall₂ Ty.Weakens signature.outputs weaker.outputs

theorem Signature.weakens_refl (signature : Signature) : signature.Weakens signature :=
  ⟨List.forall₂_same.2 fun t _ => t.weakens_refl, List.forall₂_same.2 fun t _ => t.weakens_refl⟩

/-- The second name is the first one, or one of `any`. -/
def WeakensName (name weaker : String) : Prop :=
  weaker = name ∨ Ty.ofName? weaker = some .any

/-- The second heading is the first one with some of its type names replaced by `any`. -/
structure Heading.Weakens (heading weaker : Heading) : Prop where
  name : weaker.name = heading.name
  inputs : List.Forall₂ WeakensName heading.inputs weaker.inputs
  outputs : List.Forall₂ WeakensName heading.outputs weaker.outputs

theorem Heading.weakens_refl (heading : Heading) : heading.Weakens heading :=
  ⟨rfl, List.forall₂_same.2 fun _ _ => .inl rfl, List.forall₂_same.2 fun _ _ => .inl rfl⟩

/-- The name of a type may become one of `any`. A name that is that of no type says nothing, since nothing comes of
it. -/
theorem Ty.named_concurs {name weaker : String} (weakens : WeakensName name weaker) :
    Concurs Ty.Weakens (Ty.named name) (Ty.named weaker) := by
  rcases weakens with rfl | any
  · intro t named
    exact ⟨t, named, t.weakens_refl⟩
  · intro t _
    exact ⟨.any, by rw [Ty.named, any], .inr rfl⟩

theorem Ty.mapM_named_concurs {names weaker : List String} (weakens : List.Forall₂ WeakensName names weaker) :
    Concurs (List.Forall₂ Ty.Weakens) (names.mapM Ty.named) (weaker.mapM Ty.named) := by
  induction weakens with
  | nil => exact .ok .nil
  | cons head _ ih =>
    rw [List.mapM_cons, List.mapM_cons]
    refine (Ty.named_concurs head).bind fun t t' here => ?_
    exact ih.bind fun types types' later => .ok (.cons here later)

/-- A weaker heading has a weaker signature, where the heading can be read at all. -/
theorem Heading.signature_concurs {heading weaker : Heading} (weakens : heading.Weakens weaker) :
    Concurs Signature.Weakens heading.signature weaker.signature :=
  (Ty.mapM_named_concurs weakens.inputs).bind fun _ _ inputs =>
    (Ty.mapM_named_concurs weakens.outputs).map fun _ _ outputs => ⟨inputs, outputs⟩

/-- A weaker signature applies wherever the stronger one does: it asks for less, and what it leaves is weaker again.
-/
theorem Signature.apply_concurs {signature weaker : Signature} {stack other : Stack Ty}
    (weakens : signature.Weakens weaker) (aligned : stack.Aligned Ty.Weakens other) (word : String) :
    Concurs (Stack.Aligned Ty.Weakens) (signature.apply word stack) (weaker.apply word other) := by
  have popped := aligned.pop signature.inputs.length
  unfold Signature.apply
  rw [← weakens.inputs.length_eq]
  cases taken : stack.pop signature.inputs.length with
  | error => exact .error _ _
  | ok found =>
    obtain ⟨found', taken', types, rest⟩ := popped found taken
    rw [taken']
    dsimp only
    by_cases accepted : Ty.acceptsAll signature.inputs found.1 = true
    · rw [if_pos accepted, if_pos (Ty.acceptsAll_of_weakens weakens.inputs types accepted)]
      exact rest.pushAll weakens.outputs
    · rw [if_neg accepted]
      exact .error _ _

end TapeMachine
