import TapeMachine.Proofs.Weakening

namespace TapeMachine

theorem Scope.aligned_get? {α β : Type} {related : α → β → Prop} {scope : Scope α} {other : Scope β}
    (aligned : List.Forall₂ (Dictionary.Aligned related) scope.frames other.frames) (name : String) :
    Option.Rel related (scope.get? name) (other.get? name) := by
  obtain ⟨frames⟩ := scope
  obtain ⟨frames'⟩ := other
  change List.Forall₂ (Dictionary.Aligned related) frames frames' at aligned
  unfold get?
  induction aligned with
  | nil => exact .none
  | cons head _ ih =>
    have here := head name
    rw [List.findSome?_cons, List.findSome?_cons]
    generalize Dictionary.get? _ name = first at here ⊢
    generalize Dictionary.get? _ name = second at here ⊢
    cases here with
    | some same => exact .some same
    | none => exact ih

namespace Typing

variable {typing weaker : Typing}

/-- What the second typing knows is what the first one knows, with some types replaced by `any`. -/
structure Weakens (typing weaker : Typing) : Prop where
  signatures : typing.signatures.Aligned Signature.Weakens weaker.signatures
  bindings : List.Forall₂ (Dictionary.Aligned Ty.Weakens) typing.bindings.frames weaker.bindings.frames
  stack : typing.stack.Aligned Ty.Weakens weaker.stack

namespace Weakens

theorem withStack (weakens : typing.Weakens weaker) {stack stack' : Stack Ty}
    (aligned : stack.Aligned Ty.Weakens stack') : { typing with stack }.Weakens { weaker with stack := stack' } :=
  ⟨weakens.signatures, weakens.bindings, aligned⟩

theorem push (weakens : typing.Weakens weaker) {t t' : Ty} (same : t.Weakens t') :
    Concurs Weakens (typing.push t) (weaker.push t') :=
  (weakens.stack.push same).map fun _ _ aligned => weakens.withStack aligned

theorem operand (weakens : typing.Weakens weaker) (construct : String) :
    Concurs Weakens (typing.operand construct) (weaker.operand construct) := by
  refine weakens.stack.popOne.bind ?_
  rintro ⟨t, rest⟩ ⟨t', rest'⟩ ⟨same, aligned⟩
  dsimp only at same aligned ⊢
  by_cases accepted : Ty.number.accepts t = true
  · rw [if_pos accepted, if_pos (Ty.accepts_of_weakens (Ty.weakens_refl _) same accepted)]
    exact .ok (weakens.withStack aligned)
  · rw [if_neg accepted]
    exact .error _ _

theorem bind (weakens : typing.Weakens weaker) (names : List String) :
    Concurs Weakens (typing.bind names) (weaker.bind names) := by
  refine (weakens.stack.pop names.length).map ?_
  rintro ⟨types, rest⟩ ⟨types', rest'⟩ ⟨same, aligned⟩
  exact ⟨weakens.signatures, .cons (Dictionary.aligned_ofList_zip names same) weakens.bindings, aligned⟩

theorem cell (weakens : typing.Weakens weaker) (name : String) : (typing.cell name).Weakens (weaker.cell name) := by
  have bound := Dictionary.aligned_ofList_zip [name] (.cons (Ty.weakens_refl .pointer) .nil)
  exact ⟨weakens.signatures, .cons bound weakens.bindings, weakens.stack⟩

theorem unbind (weakens : typing.Weakens weaker) : typing.unbind.Weakens weaker.unbind := by
  have frames := List.forall₂_drop 1 weakens.bindings
  rw [List.drop_one, List.drop_one] at frames
  exact ⟨weakens.signatures, frames, weakens.stack⟩

theorem call (weakens : typing.Weakens weaker) (name : String) :
    Concurs Weakens (typing.call name) (weaker.call name) := by
  unfold Typing.call
  split
  · exact weakens.stack.dup.map fun _ _ aligned => weakens.withStack aligned
  · split
    · exact weakens.stack.swap.map fun _ _ aligned => weakens.withStack aligned
    · have declared := weakens.signatures name
      have bound := Scope.aligned_get? weakens.bindings name
      generalize typing.signatures.get? name = known, weaker.signatures.get? name = known' at declared ⊢
      generalize typing.bindings.get? name = here, weaker.bindings.get? name = here' at bound ⊢
      cases declared with
      | some same =>
        exact (Signature.apply_concurs same weakens.stack name).map fun _ _ aligned => weakens.withStack aligned
      | none =>
        cases bound with
        | some same => exact weakens.push same
        | none => exact .error _ _

theorem enter (weakens : typing.Weakens weaker) (name : String) {signature signature' : Signature}
    (same : signature.Weakens signature') :
    Concurs Weakens (typing.enter name signature) (weaker.enter name signature') := by
  have empty : Stack.Aligned Ty.Weakens { label := typing.stack.label } { label := weaker.stack.label } := .nil
  refine (empty.pushAll same.inputs).map ?_
  intro stack stack' aligned
  exact ⟨weakens.signatures.insert name same, weakens.bindings, aligned⟩

theorem conclude (weakens : typing.Weakens weaker) (name : String) {signature signature' : Signature}
    (same : signature.Weakens signature') :
    Concurs (fun _ _ => True) (typing.conclude name signature) (weaker.conclude name signature') := by
  unfold Typing.conclude
  by_cases accepted : Ty.acceptsAll signature.outputs typing.stack.toList = true
  · rw [if_pos accepted, if_pos (Ty.acceptsAll_of_weakens same.outputs weakens.stack.toList accepted)]
    exact .ok trivial
  · rw [if_neg accepted]
    exact .error _ _

/-- A module brings the same signatures into both. -/
theorem merge (weakens : typing.Weakens weaker) (signatures : Dictionary Signature) :
    { typing with signatures := typing.signatures.merge signatures }.Weakens
      { weaker with signatures := weaker.signatures.merge signatures } := by
  have same : List.Forall₂ (fun entry entry' : String × Signature => entry.1 = entry'.1 ∧ entry.2.Weakens entry'.2)
      signatures.entries signatures.entries := List.forall₂_same.2 fun entry _ => ⟨rfl, entry.2.weakens_refl⟩
  exact ⟨weakens.signatures.insertAll same, weakens.bindings, weakens.stack⟩

end Weakens

theorem start_weakens : start.Weakens start := by
  refine ⟨fun name => ?_, .nil, .nil⟩
  cases start.signatures.get? name with
  | none => exact .none
  | some signature => exact .some signature.weakens_refl

end Typing

/-- Two programs are the same but for type names in the headings of functions: some of those in the first one are
replaced by `any` in the second one. -/
inductive Loosens : List Item → List Item → Prop
  | nil : Loosens [] []
  | number {place n rest rest'} : Loosens rest rest' → Loosens (.number place n :: rest) (.number place n :: rest')
  | string {place text rest rest'} : Loosens rest rest' →
      Loosens (.string place text :: rest) (.string place text :: rest')
  | word {place name rest rest'} : Loosens rest rest' → Loosens (.word place name :: rest) (.word place name :: rest')
  | imports {place name rest rest'} : Loosens rest rest' →
      Loosens (.imports place name :: rest) (.imports place name :: rest')
  | branch {place body body' stop rest rest'} : Loosens body body' → Loosens rest rest' →
      Loosens (.branch place body stop :: rest) (.branch place body' stop :: rest')
  | choice {place first first' middle second second' stop rest rest'} : Loosens first first' → Loosens second second' →
      Loosens rest rest' →
      Loosens (.choice place first middle second stop :: rest) (.choice place first' middle second' stop :: rest')
  | repeats {place body body' stop rest rest'} : Loosens body body' → Loosens rest rest' →
      Loosens (.repeats place body stop :: rest) (.repeats place body' stop :: rest')
  | loop {place test test' middle body body' stop rest rest'} : Loosens test test' → Loosens body body' →
      Loosens rest rest' →
      Loosens (.loop place test middle body stop :: rest) (.loop place test' middle body' stop :: rest')
  | bind {place names body body' stop rest rest'} : Loosens body body' → Loosens rest rest' →
      Loosens (.bind place names body stop :: rest) (.bind place names body' stop :: rest')
  | cell {place name body body' stop rest rest'} : Loosens body body' → Loosens rest rest' →
      Loosens (.cell place name body stop :: rest) (.cell place name body' stop :: rest')
  | define {place heading heading' body body' stop rest rest'} : heading.Weakens heading' → Loosens body body' →
      Loosens rest rest' →
      Loosens (.define place heading body stop :: rest) (.define place heading' body' stop :: rest')

namespace Typing

variable {typing weaker : Typing} {items items' : List Item}

/-- What is accepted with more is accepted with less. The induction is on the two programs; each item takes typings that
are related to typings that are, so that every test of a type and every comparison of depths comes out alike. -/
theorem checkAll_concurs {modules : Modules} (same : Loosens items items') (weakens : typing.Weakens weaker)
    (workspace : Workspace) :
    Build.Concurs Weakens (checkAll modules typing items workspace) (checkAll modules weaker items' workspace) := by
  induction same generalizing typing weaker workspace with
  | nil => exact Build.concurs_ok weakens workspace
  | @number place n _ _ _ ih =>
    refine (Build.concurs_placed (weakens.push (Ty.weakens_refl .number)) place workspace).andThen ?_
    exact fun _ _ weakens workspace => ih weakens workspace
  | @string place text _ _ _ ih =>
    refine (Build.concurs_placed (weakens.push (Ty.weakens_refl .string)) place workspace).andThen ?_
    exact fun _ _ weakens workspace => ih weakens workspace
  | @word place name _ _ _ ih =>
    refine (Build.concurs_placed (weakens.call name) place workspace).andThen ?_
    exact fun _ _ weakens workspace => ih weakens workspace
  | @imports place name _ _ _ ih =>
    -- The module is the same file for both.
    have module : Build.Concurs Eq (modules name place workspace) (modules name place workspace) :=
      fun signatures after done => ⟨signatures, done, rfl⟩
    refine Build.Concurs.andThen (module.andThen ?_) fun _ _ weakens workspace => ih weakens workspace
    rintro signatures _ rfl after
    exact Build.concurs_ok (weakens.merge signatures) after
  | @branch place body body' stop rest rest' _ _ ihBody ih =>
    refine Build.Concurs.andThen ?_ fun _ _ weakens workspace => ih weakens workspace
    have placed := Build.concurs_placed (weakens.operand "if") place workspace
    refine placed.andThen fun opened opened' weakens workspace => ?_
    refine (ihBody weakens workspace).andThen fun closed closed' same workspace => ?_
    rw [← same.stack.size_eq, ← weakens.stack.size_eq]
    split
    · exact Build.concurs_ok same workspace
    · exact nofun
  | @choice place first first' middle second second' stop rest rest' _ _ _ ihFirst ihSecond ih =>
    refine Build.Concurs.andThen ?_ fun _ _ weakens workspace => ih weakens workspace
    have placed := Build.concurs_placed (weakens.operand "if") place workspace
    refine placed.andThen fun opened opened' weakens workspace => ?_
    refine (ihFirst weakens workspace).andThen fun one one' same workspace => ?_
    refine (ihSecond (same.withStack weakens.stack) workspace).andThen fun two two' same' workspace => ?_
    rw [← same.stack.size_eq, ← same'.stack.size_eq]
    split
    · exact Build.concurs_ok (same'.withStack same.stack) workspace
    · exact nofun
  | @repeats place body body' stop rest rest' _ _ ihBody ih =>
    refine Build.Concurs.andThen ?_ fun _ _ weakens workspace => ih weakens workspace
    refine (Build.concurs_placed (weakens.operand "repeat") place workspace).andThen ?_
    exact fun _ _ weakens workspace => ihBody weakens workspace
  | @loop place test test' middle body body' stop rest rest' _ _ _ ihTest ihBody ih =>
    refine Build.Concurs.andThen ?_ fun _ _ weakens workspace => ih weakens workspace
    refine (ihTest weakens workspace).andThen fun tested tested' same workspace => ?_
    rw [← same.stack.size_eq, ← weakens.stack.size_eq]
    split
    · refine (Build.concurs_placed (same.operand "while") place workspace).andThen ?_
      exact fun _ _ weakens workspace => ihBody weakens workspace
    · exact nofun
  | @bind place names body body' stop rest rest' _ _ ihBody ih =>
    refine Build.Concurs.andThen ?_ fun _ _ weakens workspace => ih weakens workspace
    have placed := Build.concurs_placed (weakens.bind names) place workspace
    refine placed.andThen fun opened opened' weakens workspace => ?_
    refine (ihBody weakens workspace).andThen fun closed closed' same workspace => ?_
    exact Build.concurs_ok same.unbind workspace
  | @cell place name body body' stop rest rest' _ _ ihBody ih =>
    refine Build.Concurs.andThen ?_ fun _ _ weakens workspace => ih weakens workspace
    refine (ihBody (weakens.cell name) workspace).andThen fun closed closed' same workspace => ?_
    exact Build.concurs_ok same.unbind workspace
  | @define place heading heading' body body' stop rest rest' headings _ _ ihBody ih =>
    refine Build.Concurs.andThen ?_ fun _ _ weakens workspace => ih weakens workspace
    have signatures := Build.concurs_placed (Heading.signature_concurs headings) place workspace
    refine signatures.andThen fun signature signature' declared workspace => ?_
    rw [headings.name]
    have entered := Build.concurs_placed (weakens.enter heading.name declared) place workspace
    refine entered.andThen fun opened opened' inside workspace => ?_
    refine (ihBody inside workspace).andThen fun closed closed' same workspace => ?_
    refine (Build.concurs_placed (same.conclude heading.name declared) place workspace).andThen ?_
    exact fun _ _ _ workspace => Build.concurs_ok (same.withStack weakens.stack) workspace

theorem checkProgram_concurs (modules : Modules) (same : Loosens items items') (workspace : Workspace) :
    Build.Concurs Weakens (checkProgram modules items workspace) (checkProgram modules items' workspace) := by
  refine (checkAll_concurs same start_weakens workspace).andThen fun typing weaker weakens workspace => ?_
  rw [← weakens.stack.size_eq]
  split
  · exact Build.concurs_ok weakens workspace
  · exact nofun

end Typing

namespace Instruction

/-- The second instruction is the first one, or defines the same function with some of its types replaced by `any`. -/
inductive Weakens : Instruction → Instruction → Prop
  | same (instruction : Instruction) : Weakens instruction instruction
  | define {heading heading' : Heading} (weakens : heading.Weakens heading') (start stop : Nat) (place : Location) :
      Weakens ⟨.define ⟨heading, start, stop⟩, place⟩ ⟨.define ⟨heading', start, stop⟩, place⟩

theorem Weakens.eq {opcode opcode' : Opcode} {place place' : Location}
    (weakens : Weakens ⟨opcode, place⟩ ⟨opcode', place'⟩) (other : ∀ definition, opcode ≠ .define definition) :
    opcode = opcode' ∧ place = place' := by
  cases weakens with
  | same => exact ⟨rfl, rfl⟩
  | define => exact absurd rfl (other _)

theorem Weakens.headings {definition definition' : Definition} {place place' : Location}
    (weakens : Weakens ⟨.define definition, place⟩ ⟨.define definition', place'⟩) :
    definition.heading.Weakens definition'.heading ∧ place = place' := by
  cases weakens with
  | same => exact ⟨definition.heading.weakens_refl, rfl⟩
  | define weakens => exact ⟨weakens, rfl⟩

/-- The instruction stands behind the items of a body. -/
def closes (instruction : Instruction) : Bool :=
  match instruction.opcode with
  | .noop | .ret | .unbind _ => true
  | _ => false

theorem Weakens.closes_eq {instruction weaker : Instruction} (weakens : Weakens instruction weaker) :
    instruction.closes = weaker.closes := by
  cases weakens with
  | same => rfl
  | define => rfl

end Instruction

theorem Item.code_opens (item : Item) (start : Nat) :
    ∃ first rest, item.code start = first :: rest ∧ first.closes = false := by
  cases item <;> exact ⟨_, _, rfl, rfl⟩

/-- No item begins where the code goes on. -/
def Closed (code : List Instruction) : Prop :=
  ∀ instruction ∈ code.head?, instruction.closes = true

theorem closed_cons {instruction : Instruction} (closes : instruction.closes = true) (rest : List Instruction) :
    Closed (instruction :: rest) := by
  rintro _ ⟨⟩
  exact closes

/-- Two tapes are equal, but for types of functions that the second one leaves open. -/
def Tape.Weakens (tape weaker : Tape) : Prop :=
  List.Forall₂ Instruction.Weakens tape.toList weaker.toList

/-- Wherever the items stand in a code, they can be read off it: if the instructions of another code are alike, then so
are the items there, and what is behind them. -/
def Legible (items : List Item) : Prop :=
  ∀ (items' : List Item) (start start' : Nat) (rest rest' : List Instruction), Closed rest → Closed rest' →
    List.Forall₂ Instruction.Weakens (codeOf start items ++ rest) (codeOf start' items' ++ rest') →
    Loosens items items' ∧ List.Forall₂ Instruction.Weakens rest rest'

/-- The body of a block ends where an instruction closes it, which no item begins with. -/
theorem Legible.body {body body' : List Item} (legible : Legible body) {start start' : Nat}
    {stop stop' : Instruction} {rest rest' : List Instruction} (closes : stop.closes = true)
    (closes' : stop'.closes = true)
    (weakens : List.Forall₂ Instruction.Weakens (codeOf start body ++ stop :: rest)
      (codeOf start' body' ++ stop' :: rest')) :
    Loosens body body' ∧ stop.Weakens stop' ∧ List.Forall₂ Instruction.Weakens rest rest' := by
  obtain ⟨same, behind⟩ := legible body' _ _ _ _ (closed_cons closes _) (closed_cons closes' _) weakens
  exact ⟨same, List.forall₂_cons.1 behind⟩

/-- An item whose bodies can be read off the code can be so itself. -/
theorem Item.loosens_of_code (item item' : Item) {start start' : Nat} {rest rest' : List Instruction}
    (inside : ∀ body : List Item, sizeOf body < sizeOf item → Legible body)
    (weakens : List.Forall₂ Instruction.Weakens (item.code start ++ rest) (item'.code start' ++ rest')) :
    (∀ tail tail', Loosens tail tail' → Loosens (item :: tail) (item' :: tail')) ∧
      List.Forall₂ Instruction.Weakens rest rest' := by
  cases item with
  | number | string | word | imports =>
    cases item' <;> obtain ⟨head, later⟩ := List.forall₂_cons.1 weakens <;> cases head
    refine ⟨fun tail tail' same => ?_, later⟩
    constructor
    exact same
  | branch place body stop =>
    cases item' with
    | branch place' body' stop' =>
      simp only [code, List.append_assoc, List.cons_append, List.nil_append] at weakens
      obtain ⟨head, later⟩ := List.forall₂_cons.1 weakens
      obtain ⟨-, rfl⟩ := head.eq nofun
      obtain ⟨bodies, ⟨⟩, behind⟩ := (inside body (by simp; omega)).body rfl rfl later
      exact ⟨fun _ _ same => .branch bodies same, behind⟩
    | _ => cases (List.forall₂_cons.1 weakens).1
  | repeats place body stop =>
    cases item' with
    | repeats place' body' stop' =>
      simp only [code, List.append_assoc, List.cons_append, List.nil_append] at weakens
      obtain ⟨head, later⟩ := List.forall₂_cons.1 weakens
      obtain ⟨-, rfl⟩ := head.eq nofun
      obtain ⟨bodies, ⟨⟩, behind⟩ := (inside body (by simp; omega)).body rfl rfl later
      exact ⟨fun _ _ same => .repeats bodies same, behind⟩
    | _ => cases (List.forall₂_cons.1 weakens).1
  | choice place first middle second stop =>
    cases item' with
    | choice place' first' middle' second' stop' =>
      simp only [code, List.append_assoc, List.cons_append, List.nil_append] at weakens
      obtain ⟨head, later⟩ := List.forall₂_cons.1 weakens
      obtain ⟨-, rfl⟩ := head.eq nofun
      obtain ⟨firsts, ⟨⟩, between⟩ := (inside first (by simp; omega)).body rfl rfl later
      obtain ⟨seconds, ⟨⟩, behind⟩ := (inside second (by simp; omega)).body rfl rfl between
      exact ⟨fun _ _ same => .choice firsts seconds same, behind⟩
    | _ => cases (List.forall₂_cons.1 weakens).1
  | loop place first middle second stop =>
    cases item' with
    | loop place' first' middle' second' stop' =>
      simp only [code, List.append_assoc, List.cons_append, List.nil_append] at weakens
      obtain ⟨head, later⟩ := List.forall₂_cons.1 weakens
      obtain ⟨-, rfl⟩ := head.eq nofun
      obtain ⟨firsts, ⟨⟩, between⟩ := (inside first (by simp; omega)).body rfl rfl later
      obtain ⟨seconds, ⟨⟩, behind⟩ := (inside second (by simp; omega)).body rfl rfl between
      exact ⟨fun _ _ same => .loop firsts seconds same, behind⟩
    | _ => cases (List.forall₂_cons.1 weakens).1
  | bind place names body stop =>
    cases item' with
    | bind place' names' body' stop' =>
      simp only [code, List.append_assoc, List.cons_append, List.nil_append] at weakens
      obtain ⟨head, later⟩ := List.forall₂_cons.1 weakens
      obtain ⟨opcode, rfl⟩ := head.eq nofun
      cases opcode
      obtain ⟨bodies, ⟨⟩, behind⟩ := (inside body (by simp; omega)).body rfl rfl later
      obtain ⟨-, behind⟩ := List.forall₂_cons.1 behind
      exact ⟨fun _ _ same => .bind bodies same, behind⟩
    | _ => cases (List.forall₂_cons.1 weakens).1
  | cell place name body stop =>
    cases item' with
    | cell place' name' body' stop' =>
      simp only [code, List.append_assoc, List.cons_append, List.nil_append] at weakens
      obtain ⟨head, later⟩ := List.forall₂_cons.1 weakens
      obtain ⟨opcode, rfl⟩ := head.eq nofun
      obtain ⟨rfl, -⟩ := Opcode.cell.inj opcode
      obtain ⟨bodies, ⟨⟩, behind⟩ := (inside body (by simp; omega)).body rfl rfl later
      exact ⟨fun _ _ same => .cell bodies same, behind⟩
    | _ => cases (List.forall₂_cons.1 weakens).1
  | define place heading body stop =>
    cases item' with
    | define place' heading' body' stop' =>
      simp only [code, List.append_assoc, List.cons_append, List.nil_append, List.forall₂_cons] at weakens
      obtain ⟨head, -, -, later⟩ := weakens
      obtain ⟨headings, rfl⟩ := head.headings
      obtain ⟨bodies, ⟨⟩, behind⟩ := (inside body (by simp; omega)).body rfl rfl later
      simp only [List.forall₂_cons] at behind
      exact ⟨fun _ _ same => .define headings bodies same, behind.2.2⟩
    | _ => cases (List.forall₂_cons.1 weakens).1

/-- The trees of a program can be read off its code. -/
theorem legible (items : List Item) : Legible items := by
  intro items' start start' rest rest' closed closed' weakens
  match items, items' with
  | [], [] => exact ⟨.nil, weakens⟩
  | [], item' :: tail' =>
    obtain ⟨first, more, code, opens⟩ := item'.code_opens start'
    rw [codeOf, codeOf, code] at weakens
    cases weakens with
    | cons head _ => rw [← head.closes_eq, closed _ rfl] at opens; cases opens
  | item :: tail, [] =>
    obtain ⟨first, more, code, opens⟩ := item.code_opens start
    rw [codeOf, codeOf, code] at weakens
    cases weakens with
    | cons head _ => rw [head.closes_eq, closed' _ rfl] at opens; cases opens
  | item :: tail, item' :: tail' =>
    rw [codeOf, codeOf, List.append_assoc, List.append_assoc] at weakens
    obtain ⟨here, later⟩ := item.loosens_of_code item' (fun body _ => legible body) weakens
    obtain ⟨same, behind⟩ := legible tail _ _ _ _ _ closed closed' later
    exact ⟨here _ _ same, behind⟩
termination_by sizeOf items
decreasing_by all_goals (simp only [List.cons.sizeOf_spec]; omega)

theorem Tape.Weakens.loosens {items items' : List Item} (weakens : Tape.Weakens (.ofItems items) (.ofItems items')) :
    Loosens items items' := by
  rw [Tape.Weakens, Tape.toList_ofItems, Tape.toList_ofItems, ← List.append_nil (codeOf 0 items),
    ← List.append_nil (codeOf 0 items')] at weakens
  exact (legible items items' 0 0 [] [] (by simp [Closed]) (by simp [Closed]) weakens).1

/-- Types that are left open turn no program away: if a program is accepted, then so is one whose tape differs only in
types of functions, which it gives as `any`, and the check reads the same files. -/
theorem weaker_types_stay_accepted (settings : Settings) (program weaker : List Item) (workspace : Workspace)
    (weakens : Tape.Weakens (.ofItems program) (.ofItems weaker))
    (accepted : (settings.check program workspace).1.isOk = true) :
    (settings.check weaker workspace).1.isOk = true ∧
      (settings.check weaker workspace).2 = (settings.check program workspace).2 := by
  have concurs := Typing.checkProgram_concurs (settings.moduleSignatures settings.depth) weakens.loosens workspace
  cases found : settings.check program workspace with
  | mk outcome after =>
    rw [found] at accepted
    cases outcome with
    | error failure => cases accepted
    | ok typing =>
      obtain ⟨typing', found', -⟩ := concurs typing after found
      have same : settings.check weaker workspace = (.ok typing', after) := found'
      rw [same]
      exact ⟨rfl, rfl⟩

/-- The program `fn twice n : n do dup + end 4 twice pr` with other types for its function. -/
def twiceOf (input output : String) : List Item :=
  [.define ⟨0, 0, 2⟩ ⟨"twice", [input], [output]⟩ [.word ⟨0, 18, 21⟩ "dup", .word ⟨0, 22, 23⟩ "+"] ⟨0, 24, 27⟩,
    .number ⟨0, 28, 29⟩ (.ofNat 4), .word ⟨0, 30, 35⟩ "twice", .word ⟨0, 36, 38⟩ "pr"]

/-- It is accepted with a number as its input, and so it is with anything. -/
theorem twice_of_anything_accepted :
    Tape.Weakens (.ofItems (twiceOf "n" "n")) (.ofItems (twiceOf "any" "n")) ∧
    (Settings.check { library := .memory {} } (twiceOf "n" "n") {}).1.isOk = true ∧
    (Settings.check { library := .memory {} } (twiceOf "any" "n") {}).1.isOk = true := by
  have weakens : Tape.Weakens (.ofItems (twiceOf "n" "n")) (.ofItems (twiceOf "any" "n")) := by
    have headings : Heading.Weakens ⟨"twice", ["n"], ["n"]⟩ ⟨"twice", ["any"], ["n"]⟩ :=
      ⟨rfl, .cons (.inr rfl) .nil, .cons (.inl rfl) .nil⟩
    rw [Tape.Weakens, Tape.toList_ofItems, Tape.toList_ofItems]
    exact .cons (.define headings _ _ _) (List.forall₂_same.2 fun instruction _ => .same instruction)
  have accepted : (Settings.check { library := .memory {} } (twiceOf "n" "n") {}).1.isOk = true := by
    decide +kernel
  exact ⟨weakens, accepted, (weaker_types_stay_accepted _ _ _ _ weakens accepted).1⟩

end TapeMachine
