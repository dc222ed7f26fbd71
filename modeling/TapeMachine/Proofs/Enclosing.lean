import TapeMachine.Proofs.Simulation

namespace TapeMachine

/-- A block around an address: the consequent of a choice, a repetition, a loop, a cell or a binding. A machine has a
frame for each of them but the binding, and a scope frame for a cell or a binding. -/
inductive Enclosure
  | consequent (bound resume : Nat)
  | repeats (start stop : Nat)
  | loop (test body stop : Nat)
  | cell (stop : Nat)
  | bind
  deriving DecidableEq

namespace Enclosure

def hasFrame : Enclosure → Bool
  | bind => false
  | consequent .. | repeats .. | loop .. | cell _ => true

def hasScope : Enclosure → Bool
  | cell _ | bind => true
  | consequent .. | repeats .. | loop .. => false

end Enclosure

mutual

/-- The blocks around `address`, innermost first, where the item begins at `start` and stands inside the blocks
`outer`. Inside the body of a function the blocks around its definition do not count. -/
def Item.around (start address : Nat) (outer : List Enclosure) : Item → List Enclosure
  | .number .. | .string .. | .word .. | .imports .. => outer
  | .branch _ body _ => if address ≤ start then outer else aroundAll (start + 1) address outer body
  | .choice _ consequent _ alternative _ =>
    let middle := start + 1 + span consequent
    let stop := middle + 1 + span alternative
    if address ≤ start then outer
    else if address < middle then aroundAll (start + 1) address (.consequent middle stop :: outer) consequent
    else aroundAll (middle + 1) address outer alternative
  | .repeats _ body _ =>
    let stop := start + 1 + span body
    if address ≤ start then outer
    else if address < stop then aroundAll (start + 1) address (.repeats start stop :: outer) body
    else outer
  | .loop _ test _ body _ =>
    let middle := start + 1 + span test
    let stop := middle + 1 + span body
    if address ≤ start then outer
    else if address < middle then aroundAll (start + 1) address (.loop start middle stop :: outer) test
    else if address < stop then aroundAll (middle + 1) address (.loop start middle stop :: outer) body
    else outer
  | .bind _ _ body _ =>
    if address ≤ start then outer
    else if address ≤ start + 1 + span body then aroundAll (start + 1) address (.bind :: outer) body
    else outer
  | .cell _ _ body _ =>
    let stop := start + 1 + span body
    if address ≤ start then outer
    else if address < stop then aroundAll (start + 1) address (.cell stop :: outer) body
    else outer
  | .define _ _ body _ =>
    if address ≤ start then outer
    else if address ≤ start + 3 + span body then aroundAll (start + 3) address [] body
    else outer

/-- The blocks around `address`, where the first of the items begins at `start`. -/
def aroundAll (start address : Nat) (outer : List Enclosure) : List Item → List Enclosure
  | [] => outer
  | item :: rest =>
    if address < start + item.width then item.around start address outer
    else aroundAll (start + item.width) address outer rest

end

/-- The blocks of a program around an address of its tape, innermost first, up to the function that the address
belongs to. -/
def enclosing (program : List Item) (address : Nat) : List Enclosure :=
  aroundAll 0 address [] program

/-- The program `if 3 repeat "x" end else end`: the string stands in a repetition in a consequent. -/
example :
    enclosing [.choice ⟨0, 0, 2⟩ [.number ⟨0, 3, 4⟩ .two, .repeats ⟨0, 5, 11⟩ [.string ⟨0, 12, 15⟩ "x"] ⟨0, 16, 19⟩]
      ⟨0, 20, 24⟩ [] ⟨0, 25, 28⟩] 3 = [.repeats 2 4, .consequent 5 6] := by
  decide

/-- No block of an item is around its first instruction. -/
theorem Item.around_of_le (item : Item) {start address : Nat} (outer : List Enclosure) (before : address ≤ start) :
    item.around start address outer = outer := by
  cases item <;> simp only [around, if_pos before]

section

variable {start address : Nat}

theorem aroundAll_of_le (outer : List Enclosure) {items : List Item} (before : address ≤ start) :
    aroundAll start address outer items = outer := by
  induction items generalizing start with
  | nil => rfl
  | cons item rest ih =>
    rw [aroundAll, item.around_of_le outer before, ih (by omega), ite_self]

/-- No block of some items is around what stands behind them. -/
theorem aroundAll_of_span_le (outer : List Enclosure) {items : List Item} (behind : start + span items ≤ address) :
    aroundAll start address outer items = outer := by
  induction items generalizing start with
  | nil => rfl
  | cons item rest ih =>
    rw [span_cons, ← Nat.add_assoc] at behind
    rw [aroundAll, if_neg (by omega), ih behind]

end

namespace Piece

/-- The bindings of a level that are still open: their ends are among the pieces left to do. -/
def lets : List Piece → List Enclosure
  | [] => []
  | .mark (.unbind _) _ :: rest => .bind :: lets rest
  | _ :: rest => lets rest

/-- The blocks around `address`, where the piece begins at `start`. -/
def around (start address : Nat) (outer : List Enclosure) : Piece → List Enclosure
  | item whole => whole.around start address outer
  | mark .. => outer

/-- The blocks around `address`, where the first of the pieces begins at `start` and the level stands inside the
blocks `outer`. -/
def aroundAll (start address : Nat) (outer : List Enclosure) : List Piece → List Enclosure
  | [] => outer
  | piece :: rest =>
    if address < start + piece.width then piece.around start address (lets (piece :: rest) ++ outer)
    else aroundAll (start + piece.width) address outer rest

@[simp]
theorem lets_append (first second : List Piece) : lets (first ++ second) = lets first ++ lets second := by
  induction first with
  | nil => rfl
  | cons piece rest ih =>
    cases piece with
    | item whole => exact ih
    | mark meant place => cases meant <;> simp [lets, ih]

@[simp]
theorem lets_item (whole : Item) (rest : List Piece) : lets (.item whole :: rest) = lets rest :=
  rfl

@[simp]
theorem lets_ofItems (items : List Item) : lets (ofItems items) = [] := by
  induction items with
  | nil => rfl
  | cons item rest ih => exact ih

theorem around_self (piece : Piece) (start : Nat) (outer : List Enclosure) :
    piece.around start start outer = outer := by
  cases piece with
  | item whole => exact whole.around_of_le outer (Nat.le_refl _)
  | mark => rfl

variable {start address : Nat} {outer : List Enclosure}

theorem aroundAll_self (piece : Piece) (rest : List Piece) :
    aroundAll start start outer (piece :: rest) = lets (piece :: rest) ++ outer := by
  have positive := piece.width_pos
  rw [aroundAll, if_pos (by omega), around_self]

/-- Inside the first of two parts only the scopes that the second will close are around as well. -/
theorem aroundAll_of_lt {first : List Piece} (second : List Piece) (above : start ≤ address)
    (below : address < start + extent first) :
    aroundAll start address outer (first ++ second) = aroundAll start address (lets second ++ outer) first := by
  induction first generalizing start with
  | nil =>
    rw [extent_nil] at below
    omega
  | cons piece rest ih =>
    rw [extent_cons, ← Nat.add_assoc] at below
    rw [List.cons_append, aroundAll, aroundAll]
    split
    · rw [← List.cons_append, lets_append, List.append_assoc]
    · exact ih (by omega) below

/-- Behind the first of two parts the second is all that matters. -/
theorem aroundAll_of_le {first : List Piece} (second : List Piece) (behind : start + extent first ≤ address) :
    aroundAll start address outer (first ++ second) = aroundAll (start + extent first) address outer second := by
  induction first generalizing start with
  | nil => rfl
  | cons piece rest ih =>
    rw [extent_cons, ← Nat.add_assoc] at behind ⊢
    rw [List.cons_append, aroundAll, if_neg (by omega), ih behind]

/-- Items are pieces without marks, so both computations agree on them. -/
theorem aroundAll_ofItems (items : List Item) :
    aroundAll start address outer (ofItems items) = TapeMachine.aroundAll start address outer items := by
  induction items generalizing start with
  | nil => rfl
  | cons item rest ih =>
    have level : lets (.item item :: ofItems rest) = [] := lets_ofItems rest
    show aroundAll start address outer (.item item :: ofItems rest) = _
    rw [aroundAll, level, ih]
    rfl

/-- Up to the mark behind it, a body stands inside the block that the mark closes. -/
theorem aroundAll_body (body : List Item) {mark : Mark} {place : Location} (above : start ≤ address)
    (below : address < start + span body + 1) :
    aroundAll start address outer (ofItems body ++ [.mark mark place]) =
      TapeMachine.aroundAll start address (lets [.mark mark place] ++ outer) body := by
  rcases Nat.lt_or_ge address (start + span body) with inside | behind
  · rw [aroundAll_of_lt _ above (by rwa [extent_ofItems]), aroundAll_ofItems]
  · rw [aroundAll_of_le _ (by rwa [extent_ofItems]), aroundAll_of_span_le _ behind, extent_ofItems, aroundAll,
      if_pos (by rw [width_mark]; omega)]
    rfl

end Piece

/-- What stands at `ip` on a level of the program is `code`, and the level stands inside the blocks `outer`. -/
def StandsIn (program : List Item) (ip : Nat) (code : List Piece) (outer : List Enclosure) : Prop :=
  ∀ address, ip ≤ address → address < ip + Piece.extent code →
    enclosing program address = Piece.aroundAll ip address outer code

namespace StandsIn

variable {program : List Item} {ip : Nat} {piece : Piece} {code rest : List Piece} {outer : List Enclosure}

theorem start (program : List Item) : StandsIn program 0 (Piece.ofItems program) [] := by
  intro address _ _
  rw [Piece.aroundAll_ofItems]
  rfl

/-- The blocks around a piece are those around the level and the bindings that the level has opened. -/
theorem here (stands : StandsIn program ip (piece :: rest) outer) :
    enclosing program ip = Piece.lets (piece :: rest) ++ outer := by
  have positive := piece.width_pos
  rw [stands ip (Nat.le_refl _) (by rw [Piece.extent_cons]; omega), Piece.aroundAll_self]

/-- Past a piece the rest stands where that piece ends. -/
theorem tail (stands : StandsIn program ip (piece :: rest) outer) : StandsIn program (ip + piece.width) rest outer := by
  intro address above below
  rw [stands address (by omega) (by rw [Piece.extent_cons]; omega), Piece.aroundAll, if_neg (by omega)]

theorem behind {first : List Piece} (stands : StandsIn program ip (first ++ rest) outer) :
    StandsIn program (ip + Piece.extent first) rest outer := by
  intro address above below
  rw [stands address (by omega) (by rw [Piece.extent_append]; omega), Piece.aroundAll_of_le rest above]

/-- A part of an item that reaches to its end opens no frame. -/
theorem opened {item : Item} {start : Nat} {inner : List Piece}
    (stands : StandsIn program ip (.item item :: rest) outer) (begins : ip < start)
    (ends : start + Piece.extent inner = ip + item.width)
    (same : ∀ address, start ≤ address → address < start + Piece.extent inner → ∀ outer,
      item.around ip address outer = Piece.aroundAll start address outer inner) :
    StandsIn program start (inner ++ rest) outer := by
  intro address above below
  rw [Piece.extent_append] at below
  have whole := stands address (by omega) (by rw [Piece.extent_cons, Piece.width]; omega)
  rw [whole, Piece.aroundAll, Piece.width]
  split
  · rename_i before
    rw [Piece.aroundAll_of_lt rest above (by omega), ← same address above (by omega)]
    rfl
  · rw [Piece.aroundAll_of_le rest (by omega), ends]

/-- The body of an item stands inside the blocks that the item has around it. -/
theorem inside {item : Item} {start : Nat} {body : List Item} {path : List Enclosure}
    (stands : StandsIn program ip (.item item :: rest) outer) (begins : ip < start)
    (ends : start + span body ≤ ip + item.width)
    (same : ∀ address, start ≤ address → address < start + span body →
      item.around ip address (Piece.lets rest ++ outer) = aroundAll start address path body) :
    StandsIn program start (Piece.ofItems body) path := by
  intro address above below
  rw [Piece.extent_ofItems] at below
  have whole := stands address (by omega) (by rw [Piece.extent_cons, Piece.width]; omega)
  rw [whole, Piece.aroundAll, if_pos (by rw [Piece.width]; omega), Piece.aroundAll_ofItems, ← same address above below]
  rfl

variable {place middle stop : Location} {body consequent alternative test : List Item}

/-- At its `end` a block that has a frame is closed. -/
theorem closed {item : Item} {address : Nat} (stands : StandsIn program ip (.item item :: rest) outer)
    (begins : ip < address) (ends : ip + item.width = address + 1)
    (outside : ∀ outer, item.around ip address outer = outer) :
    StandsIn program address (.mark .noop stop :: rest) outer := by
  refine @opened _ _ _ _ _ address [.mark .noop stop] stands begins ends.symm ?_
  intro other above below outer
  have same : other = address := by
    simp only [Piece.extent_cons, Piece.width_mark, Piece.extent_nil] at below
    omega
  subst same
  rw [outside, Piece.aroundAll_self]
  rfl

/-- The body of a block without frame has nothing more around it than the block's own surroundings. -/
theorem branch (stands : StandsIn program ip (.item (.branch place body stop) :: rest) outer) :
    StandsIn program (ip + 1) (Piece.ofItems body ++ .mark .noop stop :: rest) outer := by
  have width := Item.add_width (.branch place body stop) ip
  rw [Item.behind] at width
  have extent : Piece.extent (Piece.ofItems body ++ [.mark .noop stop]) = span body + 1 := by simp
  have opened := @opened _ _ _ _ _ (ip + 1) (Piece.ofItems body ++ [.mark .noop stop]) stands (Nat.lt_succ_self ip)
  rw [extent, List.append_assoc] at opened
  refine opened (by omega) ?_
  intro address above below outer
  rw [Item.around, if_neg (by omega), Piece.aroundAll_body body above (by omega)]
  rfl

/-- Only the first branch of a choice has a frame around it. -/
theorem choice (stands : StandsIn program ip (.item (.choice place consequent middle alternative stop) :: rest) outer) :
    StandsIn program (ip + 1) (Piece.ofItems consequent)
        (.consequent (ip + 1 + span consequent) (ip + 1 + span consequent + 1 + span alternative) ::
          (Piece.lets rest ++ outer)) ∧
      StandsIn program (ip + 1 + span consequent)
        (.mark .noop middle :: (Piece.ofItems alternative ++ .mark .noop stop :: rest)) outer ∧
      StandsIn program (ip + 1 + span consequent + 1 + span alternative) (.mark .noop stop :: rest) outer := by
  have width := Item.add_width (.choice place consequent middle alternative stop) ip
  rw [Item.behind] at width
  refine ⟨?_, ?_, ?_⟩
  · refine stands.inside (Nat.lt_succ_self ip) (by omega) ?_
    intro address above below
    rw [Item.around, if_neg (by omega), if_pos below]
  · have extent : Piece.extent (.mark .noop middle :: (Piece.ofItems alternative ++ [.mark .noop stop])) =
        1 + span alternative + 1 := by
      simp [Nat.add_assoc]
    have opened := @opened _ _ _ _ _ (ip + 1 + span consequent)
      (.mark .noop middle :: (Piece.ofItems alternative ++ [.mark .noop stop])) stands (by omega)
    rw [extent, List.cons_append, List.append_assoc] at opened
    refine opened (by omega) ?_
    intro address above below outer
    rw [Item.around, if_neg (by omega), if_neg (by omega)]
    rcases Nat.eq_or_lt_of_le above with same | behind
    · subst same
      rw [Piece.aroundAll_self, aroundAll_of_le outer (Nat.le_succ _)]
      simp [Piece.lets]
    · rw [Piece.aroundAll, Piece.width_mark, if_neg (by omega), Piece.aroundAll_body alternative behind (by omega)]
      rfl
  · refine stands.closed (by omega) (by omega) ?_
    intro outer
    rw [Item.around, if_neg (by omega), if_neg (by omega), aroundAll_of_span_le _ (Nat.le_refl _)]

theorem repeats (stands : StandsIn program ip (.item (.repeats place body stop) :: rest) outer) :
    StandsIn program (ip + 1) (Piece.ofItems body)
        (.repeats ip (ip + 1 + span body) :: (Piece.lets rest ++ outer)) ∧
      StandsIn program (ip + 1 + span body) (.mark .noop stop :: rest) outer := by
  have width := Item.add_width (.repeats place body stop) ip
  rw [Item.behind] at width
  constructor
  · refine stands.inside (Nat.lt_succ_self ip) (by omega) ?_
    intro address above below
    rw [Item.around]
    rw [if_neg (by omega), if_pos below]
  · refine stands.closed (by omega) (by omega) ?_
    intro outer
    rw [Item.around]
    rw [if_neg (by omega), if_neg (by omega)]

theorem cell {name : String} (stands : StandsIn program ip (.item (.cell place name body stop) :: rest) outer) :
    StandsIn program (ip + 1) (Piece.ofItems body) (.cell (ip + 1 + span body) :: (Piece.lets rest ++ outer)) ∧
      StandsIn program (ip + 1 + span body) (.mark .noop stop :: rest) outer := by
  have width := Item.add_width (.cell place name body stop) ip
  rw [Item.behind] at width
  constructor
  · refine stands.inside (Nat.lt_succ_self ip) (by omega) ?_
    intro address above below
    rw [Item.around]
    rw [if_neg (by omega), if_pos below]
  · refine stands.closed (by omega) (by omega) ?_
    intro outer
    rw [Item.around]
    rw [if_neg (by omega), if_neg (by omega)]

/-- Test and body have the same loop around them; the `end` has not. -/
theorem loop (stands : StandsIn program ip (.item (.loop place test middle body stop) :: rest) outer) :
    StandsIn program (ip + 1) (Piece.ofItems test)
        (.loop ip (ip + 1 + span test) (ip + 1 + span test + 1 + span body) :: (Piece.lets rest ++ outer)) ∧
      StandsIn program (ip + 1 + span test + 1) (Piece.ofItems body)
        (.loop ip (ip + 1 + span test) (ip + 1 + span test + 1 + span body) :: (Piece.lets rest ++ outer)) ∧
      StandsIn program (ip + 1 + span test + 1 + span body) (.mark .noop stop :: rest) outer := by
  have width := Item.add_width (.loop place test middle body stop) ip
  rw [Item.behind] at width
  refine ⟨?_, ?_, ?_⟩
  · refine stands.inside (Nat.lt_succ_self ip) (by omega) ?_
    intro address above below
    rw [Item.around]
    rw [if_neg (by omega), if_pos below]
  · refine stands.inside (by omega) (by omega) ?_
    intro address above below
    rw [Item.around]
    rw [if_neg (by omega), if_neg (by omega), if_pos below]
  · refine stands.closed (by omega) (by omega) ?_
    intro outer
    rw [Item.around]
    rw [if_neg (by omega), if_neg (by omega), if_neg (by omega)]

theorem bind {names : List String} (stands : StandsIn program ip (.item (.bind place names body stop) :: rest) outer) :
    StandsIn program (ip + 1) (Piece.ofItems body ++ .mark (.unbind names) stop :: .mark .noop stop :: rest) outer := by
  have width := Item.add_width (.bind place names body stop) ip
  rw [Item.behind] at width
  have extent : Piece.extent (Piece.ofItems body ++ [.mark (.unbind names) stop]) = span body + 1 := by simp
  have extent' : Piece.extent ((Piece.ofItems body ++ [.mark (.unbind names) stop]) ++ [.mark .noop stop]) =
      span body + 1 + 1 := by
    rw [Piece.extent_append, extent]
    rfl
  have same : ∀ address, ip + 1 ≤ address → address < ip + 1 + (span body + 1 + 1) → ∀ outer,
      (Item.bind place names body stop).around ip address outer = Piece.aroundAll (ip + 1) address outer
        ((Piece.ofItems body ++ [.mark (.unbind names) stop]) ++ [.mark .noop stop]) := by
    intro address above below outer
    rw [Item.around, if_neg (by omega)]
    split
    · rw [Piece.aroundAll_of_lt _ above (by omega), Piece.aroundAll_body body above (by omega)]
      rfl
    · have last : address = ip + 1 + (span body + 1) := by omega
      rw [Piece.aroundAll_of_le _ (by omega), extent, last, Piece.aroundAll_self]
      rfl
  rw [← extent'] at same
  have opened := stands.opened (Nat.lt_succ_self ip) (by omega) same
  rwa [List.append_assoc, List.append_assoc] at opened

/-- Around the body of a function there is nothing, whatever is around its definition. -/
theorem define {heading : Heading}
    (stands : StandsIn program ip (.item (.define place heading body stop) :: rest) outer) :
    StandsIn program (ip + 1) (.mark .noop place :: .mark .enter place :: Piece.ofItems body) [] ∧
      enclosing program (ip + 3 + span body) = [] ∧
      StandsIn program (ip + 3 + span body + 1) (.mark .dropCell stop :: .mark .noop stop :: rest) outer := by
  have width := Item.add_width (.define place heading body stop) ip
  rw [Item.behind] at width
  have body_around : ∀ address, ip < address → address ≤ ip + 3 + span body →
      enclosing program address = aroundAll (ip + 3) address [] body := by
    intro address above below
    rw [stands address (by omega) (by rw [Piece.extent_cons, Piece.width]; omega), Piece.aroundAll,
      if_pos (by rw [Piece.width]; omega), Piece.around, Item.around, if_neg (by omega), if_pos below]
  refine ⟨?_, ?_, ?_⟩
  · intro address above below
    simp only [Piece.extent_cons, Piece.width_mark, Piece.extent_ofItems] at below
    rw [body_around address above (by omega), Piece.aroundAll, Piece.width_mark]
    split
    · rw [aroundAll_of_le _ (by omega)]
      simp [Piece.around, Piece.lets]
    · rw [Piece.aroundAll, Piece.width_mark]
      split
      · rw [aroundAll_of_le _ (by omega)]
        simp [Piece.around, Piece.lets]
      · rw [Piece.aroundAll_ofItems]
  · rw [body_around _ (by omega) (Nat.le_refl _), aroundAll_of_span_le _ (Nat.le_refl _)]
  · refine @opened _ _ _ _ _ (ip + 3 + span body + 1) [.mark .dropCell stop, .mark .noop stop] stands (by omega) ?_ ?_
    · simp only [Piece.extent_cons, Piece.width_mark, Piece.extent_nil]
      omega
    · intro address above below outer
      simp only [Piece.extent_cons, Piece.width_mark, Piece.extent_nil] at below
      rw [Item.around, if_neg (by omega), if_neg (by omega), Piece.aroundAll, Piece.width_mark]
      split
      · rfl
      · rw [Piece.aroundAll, Piece.width_mark, if_pos (by omega)]
        rfl

end StandsIn

end TapeMachine
