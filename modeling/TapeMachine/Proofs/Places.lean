import TapeMachine.Assembly
import TapeMachine.Proofs.Layout

namespace TapeMachine

mutual

/-- The places of the tokens that an item remembers. -/
def Item.places : Item → List Location
  | .number place _ | .string place _ | .word place _ | .imports place _ => [place]
  | .branch place body stop | .repeats place body stop | .bind place _ body stop | .cell place _ body stop |
    .define place _ body stop => place :: stop :: placesOf body
  | .choice place first middle second stop | .loop place first middle second stop =>
    place :: middle :: stop :: (placesOf first ++ placesOf second)

def placesOf : List Item → List Location
  | [] => []
  | item :: rest => item.places ++ placesOf rest

end

@[simp]
theorem mem_placesOf {place : Location} {items : List Item} :
    place ∈ placesOf items ↔ ∃ item ∈ items, place ∈ item.places := by
  induction items with
  | nil => simp [placesOf]
  | cons item rest ih => simp [placesOf, ih]

mutual

/-- An instruction has the place of a token of its item. -/
theorem Item.place_of_mem_code {item : Item} {start : Nat} {instruction : Instruction}
    (member : instruction ∈ item.code start) : instruction.place ∈ item.places := by
  cases item with
  | number | string | word | imports =>
    obtain rfl := List.mem_singleton.1 member
    exact List.mem_singleton.2 rfl
  | branch _ body _ | repeats _ body _ | bind _ _ body _ | cell _ _ body _ | define _ _ body _ =>
    have inside : ∀ start, instruction ∈ codeOf start body → instruction.place ∈ placesOf body :=
      fun _ inner => place_of_mem_codeOf inner
    simp only [Item.code, List.mem_cons, List.mem_append, List.not_mem_nil] at member
    simp only [Item.places, List.mem_cons]
    grind
  | choice _ first _ second _ | loop _ first _ second _ =>
    have before : ∀ start, instruction ∈ codeOf start first → instruction.place ∈ placesOf first :=
      fun _ inner => place_of_mem_codeOf inner
    have behind : ∀ start, instruction ∈ codeOf start second → instruction.place ∈ placesOf second :=
      fun _ inner => place_of_mem_codeOf inner
    simp only [Item.code, List.mem_cons, List.mem_append, List.not_mem_nil] at member
    simp only [Item.places, List.mem_cons, List.mem_append]
    grind

/-- The same for items that stand one behind the other. -/
theorem place_of_mem_codeOf {items : List Item} {start : Nat} {instruction : Instruction}
    (member : instruction ∈ codeOf start items) : instruction.place ∈ placesOf items := by
  match items with
  | [] => cases member
  | item :: rest =>
    rw [placesOf, List.mem_append]
    rcases List.mem_append.1 member with here | later
    · exact .inl (Item.place_of_mem_code here)
    · exact .inr (place_of_mem_codeOf later)

end

/-- An item ends with one of its tokens. -/
theorem Item.last_mem_places (item : Item) : item.last ∈ item.places := by
  cases item <;> simp [last, places]

def Opening.places : Opening → List Location
  | .choice first middle | .loop first middle => middle :: placesOf first
  | .branch | .repeats | .test | .bind _ | .cell _ | .define _ => []

def Level.places (level : Level) : List Location :=
  level.place :: (level.opening.places ++ placesOf level.before)

def Expectation.places : Expectation → List Location
  | .item => []
  | .boundName place _ | .functionName place | .inputType place .. | .outputType place .. | .cellName place |
    .moduleName place => [place]

namespace Assembly

variable {known : Location → Prop} {assembly next : Assembly} {place : Location}

/-- All places that a program remembers while it is being put together are known ones. -/
structure Remembers (known : Location → Prop) (assembly : Assembly) : Prop where
  expects : ∀ place ∈ assembly.expects.places, known place
  levels : ∀ level ∈ assembly.levels, ∀ place ∈ level.places, known place
  items : ∀ place ∈ placesOf assembly.items, known place
  lacking : ∀ place ∈ assembly.lacking, known place

namespace Remembers

theorem mono {wider : Location → Prop} (remembers : assembly.Remembers known)
    (wide : ∀ place, known place → wider place) : assembly.Remembers wider where
  expects place member := wide place (remembers.expects place member)
  levels level there place member := wide place (remembers.levels level there place member)
  items place member := wide place (remembers.items place member)
  lacking place member := wide place (remembers.lacking place member)

theorem expect (remembers : assembly.Remembers known) {expects : Expectation}
    (places : ∀ place ∈ expects.places, known place) : (assembly.expect expects).Remembers known :=
  ⟨places, remembers.levels, remembers.items, remembers.lacking⟩

/-- What an import brings is remembered with the items before it. -/
theorem addAll (remembers : assembly.Remembers known) {items : List Item}
    (places : ∀ place ∈ placesOf items, known place) : (assembly.addAll items).Remembers known := by
  refine ⟨nofun, remembers.levels, ?_, remembers.lacking⟩
  intro place member
  simp only [Assembly.addAll, List.reverseAux_eq, mem_placesOf, List.mem_append, List.mem_reverse] at member
  obtain ⟨item, new | old, inside⟩ := member
  · exact places place (mem_placesOf.2 ⟨item, new, inside⟩)
  · exact remembers.items place (mem_placesOf.2 ⟨item, old, inside⟩)

theorem add (remembers : assembly.Remembers known) {item : Item} (places : ∀ place ∈ item.places, known place) :
    (assembly.add item).Remembers known :=
  ⟨nofun, remembers.levels, List.forall_mem_append.2 ⟨places, remembers.items⟩, remembers.lacking⟩

theorem enter (remembers : assembly.Remembers known) {opening : Opening} (fresh : opening.places = [])
    (here : known place) : (assembly.enter opening place).Remembers known := by
  refine ⟨nofun, List.forall_mem_cons.2 ⟨?_, remembers.levels⟩, nofun, remembers.lacking⟩
  rw [Level.places, fresh]
  exact List.forall_mem_cons.2 ⟨here, remembers.items⟩

/-- What an item that closes a level remembers comes from the level, its body and the `end`. -/
theorem of_close {level : Level} {body : List Item} {stop : Location} {item : Item}
    (closed : level.close body stop = some item) (outer : ∀ place ∈ level.places, known place)
    (inner : ∀ place ∈ placesOf body, known place) (here : known stop) : ∀ place ∈ item.places, known place := by
  obtain ⟨opening, place, before⟩ := level
  cases opening with
  | test => cases closed
  | choice first middle | loop first middle =>
    cases closed
    simp only [Level.places, Opening.places, List.cons_append, List.forall_mem_cons, List.forall_mem_append] at outer
    simp only [Item.places, List.forall_mem_cons, List.forall_mem_append]
    exact ⟨outer.1, outer.2.1, here, outer.2.2.1, inner⟩
  | branch | repeats | bind | cell | define =>
    cases closed
    exact List.forall_mem_cons.2 ⟨outer place List.mem_cons_self, List.forall_mem_cons.2 ⟨here, inner⟩⟩

theorem known_reverse (remembers : assembly.Remembers known) :
    ∀ place ∈ placesOf assembly.items.reverse, known place := by
  intro place member
  obtain ⟨item, there, inside⟩ := mem_placesOf.1 member
  exact remembers.items place (mem_placesOf.2 ⟨item, List.mem_reverse.1 there, inside⟩)

theorem known_earlier (remembers : assembly.Remembers known) (here : known place) :
    known (earlier place assembly.lacking) := by
  unfold earlier
  split
  · rename_i other lacking
    split
    · exact remembers.lacking other lacking
    · exact here
  · exact here

/-- The middle of a block: what has been read of it goes into its level. -/
theorem middle (remembers : assembly.Remembers known) {opening opening' : Opening} {start middle : Location}
    {before : List Item} {rest : List Level} (levels : assembly.levels = ⟨opening, start, before⟩ :: rest)
    (places : opening'.places = middle :: placesOf assembly.items.reverse) (here : known middle) :
    Remembers known { assembly with levels := ⟨opening', start, before⟩ :: rest, items := [] } := by
  have outer := remembers.levels
  rw [levels, List.forall_mem_cons] at outer
  refine ⟨remembers.expects, List.forall_mem_cons.2 ⟨?_, outer.2⟩, nofun, remembers.lacking⟩
  have inner := remembers.known_reverse
  simp only [Level.places, places, List.cons_append, List.forall_mem_cons, List.forall_mem_append] at outer ⊢
  exact ⟨outer.1.1, here, inner, outer.1.2.2⟩

end Remembers

/-- A step works, and what it leads to remembers known places only, or else it fails at a known place. -/
def Keeps {α : Type} (known : Location → Prop) (holds : α → Prop) : Except Failure α → Prop
  | .ok made => holds made
  | .error failure => ∃ place, failure.place = some place ∧ known place

/-- Closing a block takes the places that its level remembers, and fails at the place of its `end`. -/
theorem keeps_close (remembers : assembly.Remembers known) (here : known place) :
    Keeps known (Remembers known) (assembly.close place) := by
  unfold close
  split
  · exact ⟨place, rfl, here⟩
  · rename_i level rest levels
    have outer := remembers.levels
    rw [levels, List.forall_mem_cons] at outer
    have before : ∀ place ∈ placesOf level.before, known place :=
      fun place member => outer.1 place (List.mem_cons_of_mem _ (List.mem_append_right _ member))
    split
    · rename_i item closed
      have inside := Remembers.of_close closed outer.1 remembers.known_reverse here
      exact ⟨remembers.expects, outer.2, List.forall_mem_append.2 ⟨inside, before⟩, remembers.lacking⟩
    · refine ⟨remembers.expects, outer.2, before, ?_⟩
      rintro _ ⟨⟩
      exact remembers.known_earlier (outer.1 level.place List.mem_cons_self)

theorem keeps_alternative (remembers : assembly.Remembers known) (here : known place) :
    Keeps known (Remembers known) (assembly.alternative place) := by
  unfold alternative
  split
  · rename_i levels
    exact remembers.middle levels rfl here
  · exact ⟨place, rfl, here⟩

theorem keeps_body (remembers : assembly.Remembers known) (here : known place) :
    Keeps known (Remembers known) (assembly.body place) := by
  unfold body
  split
  · rename_i levels
    exact remembers.middle levels rfl here
  · exact ⟨place, rfl, here⟩

/-- A keyword opens a level at its own place, goes on with one or closes one. -/
theorem keeps_keyword (remembers : assembly.Remembers known) (keyword : Keyword) (here : known place) :
    Keeps known (Remembers known) (assembly.keyword keyword place) := by
  cases keyword with
  | else_ => exact keeps_alternative remembers here
  | end_ => exact keeps_close remembers here
  | do_ => exact keeps_body remembers here
  | colon => exact ⟨place, rfl, here⟩
  | if_ | repeat_ | while_ => exact remembers.enter rfl here
  | let_ | fn | var | import_ => exact remembers.expect (List.forall_mem_singleton.2 here)

/-- A token becomes an item of its own, or its keyword is followed. -/
theorem keeps_item (remembers : assembly.Remembers known) {token : Token} (here : known token.place) :
    Keeps known (Remembers known) (assembly.item token) := by
  unfold item
  split
  · rename_i digits _
    cases Decimal.parse digits with
    | error cause => exact ⟨token.place, rfl, here⟩
    | ok n => exact remembers.add (List.forall_mem_singleton.2 here)
  · exact remembers.add (List.forall_mem_singleton.2 here)
  · exact remembers.add (List.forall_mem_singleton.2 here)
  · exact keeps_keyword remembers _ here

/-- What reading a token leads to remembers known places only. -/
def Step.Remembers (known : Location → Prop) : Step → Prop
  | .next assembly => assembly.Remembers known
  | .imports _ place assembly => known place ∧ assembly.Remembers known

/-- Whatever is expected, a token is remembered by its place or fails there. -/
theorem keeps_read (remembers : assembly.Remembers known) {token : Token} (here : known token.place) :
    Keeps known (Step.Remembers known) (assembly.read token) := by
  have expected := remembers.expects
  unfold read
  cases expects : assembly.expects with
  | item =>
    have kept := keeps_item remembers here
    cases made : assembly.item token with
    | error failure => rwa [made] at kept
    | ok next => rwa [made] at kept
  | boundName start names =>
    rw [expects] at expected
    have begun : known start := expected start List.mem_cons_self
    cases token.lexeme with
    | number | string => exact ⟨token.place, rfl, here⟩
    | word => exact remembers.expect expected
    | keyword keyword =>
      cases keyword with
      | do_ =>
        dsimp only
        split
        · exact ⟨start, rfl, begun⟩
        · exact remembers.enter rfl begun
      | _ => exact ⟨token.place, rfl, here⟩
  | functionName start =>
    rw [expects] at expected
    cases token.lexeme with
    | word => exact remembers.expect expected
    | number | string | keyword => exact ⟨token.place, rfl, here⟩
  | inputType start name inputs =>
    rw [expects] at expected
    cases token.lexeme with
    | number | string => exact ⟨token.place, rfl, here⟩
    | word => exact remembers.expect expected
    | keyword keyword =>
      cases keyword with
      | colon => exact remembers.expect expected
      | _ => exact ⟨token.place, rfl, here⟩
  | outputType start name inputs outputs =>
    rw [expects] at expected
    cases token.lexeme with
    | number | string => exact ⟨token.place, rfl, here⟩
    | word => exact remembers.expect expected
    | keyword keyword =>
      cases keyword with
      | do_ => exact remembers.enter rfl (expected start List.mem_cons_self)
      | _ => exact ⟨token.place, rfl, here⟩
  | cellName start =>
    rw [expects] at expected
    cases token.lexeme with
    | word => exact remembers.enter rfl (expected start List.mem_cons_self)
    | number | string | keyword => exact ⟨token.place, rfl, here⟩
  | moduleName start =>
    rw [expects] at expected
    have begun : known start := expected start List.mem_cons_self
    cases token.lexeme with
    | keyword => exact ⟨start, rfl, begun⟩
    | number | string | word => exact ⟨begun, remembers.expect nofun⟩

/-- A text that is not complete fails where the block, the heading or the loop that lacks something begins. -/
theorem keeps_finish (remembers : assembly.Remembers known) :
    Keeps known (fun items => ∀ place ∈ placesOf items, known place) assembly.finish := by
  have expected := remembers.expects
  unfold finish
  cases expects : assembly.expects with
  | item =>
    cases levels : assembly.levels with
    | cons level rest =>
      have outer := remembers.levels level (by rw [levels]; exact List.mem_cons_self)
      exact ⟨level.place, rfl, outer level.place List.mem_cons_self⟩
    | nil =>
      cases lacking : assembly.lacking with
      | some place => exact ⟨place, rfl, remembers.lacking place lacking⟩
      | none => exact remembers.known_reverse
  | boundName start | functionName start | inputType start | outputType start | cellName start | moduleName start =>
    rw [expects] at expected
    exact ⟨start, rfl, expected start List.mem_cons_self⟩

end Assembly

end TapeMachine
