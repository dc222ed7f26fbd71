import TapeMachine.Proofs.Acceptance

namespace TapeMachine

/-- What an opcode becomes when its tape is moved to a later address. -/
def Opcode.moved (offset : Nat) : Opcode → Opcode
  | .branch alternative stop => .branch (alternative.map (· + offset)) (stop + offset)
  | .repeats start stop => .repeats (start + offset) (stop + offset)
  | .loop test body stop => .loop (test + offset) (body + offset) (stop + offset)
  | .cell name stop => .cell name (stop + offset)
  | .define definition =>
    .define { definition with start := definition.start + offset, stop := definition.stop + offset }
  | opcode => opcode

def Instruction.moved (offset : Nat) (instruction : Instruction) : Instruction :=
  { instruction with opcode := instruction.opcode.moved offset }

mutual

/-- An item that begins later has the same code, with the addresses in it moved as far. -/
theorem code_moved (item : Item) (start offset : Nat) :
    item.code (start + offset) = (item.code start).map (Instruction.moved offset) := by
  cases item with
  | number | string | word | imports => rfl
  | branch place body stop | repeats place body stop | cell place name body stop =>
    have inner := codeOf_moved body (start + 1) offset
    rw [Nat.add_right_comm] at inner
    simp only [Item.code, inner, List.map_append, List.map_cons, List.map_nil, List.length_map, Instruction.moved,
      Opcode.moved, Option.map_none]
    simp only [Nat.add_right_comm _ offset]
  | bind place names body stop =>
    have inner := codeOf_moved body (start + 1) offset
    rw [Nat.add_right_comm] at inner
    simp only [Item.code, inner, List.map_append, List.map_cons, List.map_nil, Instruction.moved, Opcode.moved]
  | define place heading body stop =>
    have inner := codeOf_moved body (start + 3) offset
    rw [Nat.add_right_comm] at inner
    simp only [Item.code, inner, List.map_append, List.map_cons, List.map_nil, List.length_map, Instruction.moved,
      Opcode.moved]
    simp only [Nat.add_right_comm _ offset]
  | choice place first middle second stop | loop place first middle second stop =>
    have inner := codeOf_moved first (start + 1) offset
    have later := codeOf_moved second (start + 1 + (codeOf (start + 1) first).length + 1) offset
    simp only [Nat.add_right_comm _ _ offset] at inner later
    simp only [Item.code, inner, later, List.map_append, List.map_cons, List.map_nil, List.length_map,
      Instruction.moved, Opcode.moved, Option.map_some]
    simp only [Nat.add_right_comm _ offset]

theorem codeOf_moved (items : List Item) (start offset : Nat) :
    codeOf (start + offset) items = (codeOf start items).map (Instruction.moved offset) := by
  match items with
  | [] => rfl
  | item :: rest =>
    have later := codeOf_moved rest (start + (item.code start).length) offset
    rw [Nat.add_right_comm] at later
    simp only [codeOf, code_moved item start offset, List.length_map, later, List.map_append]

end

/-- The lists of items inside an item. -/
def Item.bodies : Item → List (List Item)
  | .number .. | .string .. | .word .. | .imports .. => []
  | .branch _ body _ | .repeats _ body _ | .bind _ _ body _ | .cell _ _ body _ | .define _ _ body _ => [body]
  | .choice _ first _ second _ | .loop _ first _ second _ => [first, second]

/-- The items stand side by side in a program, inside whatever blocks. -/
inductive Within (block : List Item) : List Item → Prop
  | here (before behind : List Item) : Within block (before ++ (block ++ behind))
  | inside {item : Item} {body : List Item} (before behind : List Item) : body ∈ item.bodies → Within block body →
      Within block (before ++ item :: behind)

variable {block body items : List Item}

namespace Within

/-- What stands in a part of a program stands in the program. -/
theorem append (before behind : List Item) (within : Within block items) :
    Within block (before ++ (items ++ behind)) := by
  cases within with
  | here first last =>
    rw [List.append_assoc, ← List.append_assoc, List.append_assoc block]
    exact .here _ _
  | inside first last member inner =>
    rw [List.append_assoc, List.cons_append, ← List.append_assoc]
    exact .inside _ _ member inner

theorem trans (within : Within block body) (outer : Within body items) : Within block items := by
  induction outer with
  | here before behind => exact within.append before behind
  | inside before behind member _ ih => exact .inside before behind member ih

end Within

theorem codeOf_append (start : Nat) (first second : List Item) :
    codeOf start (first ++ second) = codeOf start first ++ codeOf (start + (codeOf start first).length) second := by
  induction first generalizing start with
  | nil => rfl
  | cons item rest ih =>
    rw [List.cons_append, codeOf, codeOf, ih, List.append_assoc, List.length_append, Nat.add_assoc]

/-- The two halves of a block with a middle are parts of its code. -/
theorem code_of_pair (head middle stop : Instruction) (start : Nat) {first second : List Item}
    (member : body ∈ [first, second]) :
    ∃ front back, head :: codeOf (start + 1) first ++
        middle :: codeOf (start + 1 + (codeOf (start + 1) first).length + 1) second ++ [stop] =
      front ++ (codeOf (start + front.length) body ++ back) := by
  rcases List.mem_cons.1 member with rfl | last
  · refine ⟨[head], middle :: (codeOf (start + 1 + (codeOf (start + 1) body).length + 1) second ++ [stop]), ?_⟩
    simp only [List.cons_append, List.append_assoc, List.nil_append]
    rfl
  · obtain rfl := List.mem_singleton.1 last
    refine ⟨head :: (codeOf (start + 1) first ++ [middle]), [stop], ?_⟩
    have address : start + (head :: (codeOf (start + 1) first ++ [middle])).length =
        start + 1 + (codeOf (start + 1) first).length + 1 := by
      rw [List.length_cons, List.length_append, List.length_singleton]
      omega
    rw [address]
    simp only [List.cons_append, List.append_assoc, List.nil_append]

/-- The code of a body is a part of the code of its block. -/
theorem Item.code_of_bodies {item : Item} (member : body ∈ item.bodies) (start : Nat) :
    ∃ front back, item.code start = front ++ (codeOf (start + front.length) body ++ back) := by
  cases item with
  | number | string | word | imports => cases member
  | branch place inner stop =>
    obtain rfl := List.mem_singleton.1 member
    exact ⟨[_], [_], rfl⟩
  | repeats place inner stop =>
    obtain rfl := List.mem_singleton.1 member
    exact ⟨[_], [_], rfl⟩
  | bind place names inner stop =>
    obtain rfl := List.mem_singleton.1 member
    exact ⟨[_], [_, _], rfl⟩
  | cell place name inner stop =>
    obtain rfl := List.mem_singleton.1 member
    exact ⟨[_], [_], rfl⟩
  | define place heading inner stop =>
    obtain rfl := List.mem_singleton.1 member
    exact ⟨[_, _, _], [_, _, _], rfl⟩
  | choice place first middle second stop | loop place first middle second stop =>
    exact code_of_pair _ _ _ start member

/-- Items have the code of a program of their own, but for the address at which it begins. -/
theorem Within.code (within : Within block items) (start : Nat) :
    ∃ front back, codeOf start items = front ++ (codeOf (start + front.length) block ++ back) := by
  induction within generalizing start with
  | here before behind =>
    rw [codeOf_append, codeOf_append]
    exact ⟨_, _, rfl⟩
  | @inside item body before behind member _ ih =>
    rw [codeOf_append, codeOf]
    generalize codeOf start before = first
    generalize codeOf _ behind = last
    obtain ⟨opening, closing, around⟩ := item.code_of_bodies member (start + first.length)
    obtain ⟨front, back, inner⟩ := ih (start + first.length + opening.length)
    rw [around, inner]
    refine ⟨first ++ (opening ++ front), back ++ (closing ++ last), ?_⟩
    simp only [List.length_append, List.append_assoc, Nat.add_assoc]

/-- Items of a program stand on its tape as they stand on a tape of their own, which is moved there. -/
theorem Within.holds (within : Within block items) :
    ∃ address, (Tape.ofItems items).Holds address ((Tape.ofItems block).toList.map (Instruction.moved address)) := by
  obtain ⟨front, back, code⟩ := within.code 0
  have whole := Tape.holds_ofItems items
  rw [code, Tape.holds_append, Tape.holds_append] at whole
  refine ⟨0 + front.length, ?_⟩
  rw [Tape.toList_ofItems, ← codeOf_moved, Nat.zero_add (0 + front.length)]
  exact whole.2.1

namespace Assembly

/-- The items already stand in the block that is open on this level, or before it. -/
def Has (block : List Item) (level : Level) : Prop :=
  Within block level.before.reverse ∨
    ∃ first middle, (level.opening = .choice first middle ∨ level.opening = .loop first middle) ∧ Within block first

/-- What stands in the first body of a block stands in the block, when it is closed. -/
theorem bodies_of_close {level : Level} {stop : Location} {item : Item} (closes : level.close body stop = some item) :
    body ∈ item.bodies ∧ ∀ first middle, level.opening = .choice first middle ∨ level.opening = .loop first middle →
      first ∈ item.bodies := by
  obtain ⟨opening, place, before⟩ := level
  cases opening <;> cases closes <;> simp [Item.bodies]

/-- Where the first body of a block ends, its level takes that body up and keeps what stands before the block. -/
theorem has_of_split {opening opening' : Opening} {place middle : Location} {earlier first : List Item}
    {levels : List Level} (whole : ∀ first middle, ¬(opening = .choice first middle ∨ opening = .loop first middle))
    (half : opening' = .choice first middle ∨ opening' = .loop first middle)
    (has : Within block first ∨ ∃ level ∈ (⟨opening, place, earlier⟩ : Level) :: levels, Has block level) :
    ∃ level ∈ (⟨opening', place, earlier⟩ : Level) :: levels, Has block level := by
  rcases has with within | ⟨other, member, has⟩
  · exact ⟨_, List.mem_cons_self, .inr ⟨_, _, half, within⟩⟩
  · rcases List.mem_cons.1 member with rfl | outer
    · rcases has with within | ⟨_, _, opens, -⟩
      · exact ⟨_, List.mem_cons_self, .inl within⟩
      · exact (whole _ _ opens).elim
    · exact ⟨other, List.mem_cons_of_mem _ outer, has⟩

/-- Nothing that has been put in a program is taken out again. -/
theorem Completes.within {levels : List Level} {before : List Item} {tokens : List Token}
    (completes : Completes levels before tokens items)
    (has : Within block before.reverse ∨ ∃ level ∈ levels, Has block level) : Within block items := by
  induction completes with
  | program before phrases =>
    rcases has with within | ⟨_, none, -⟩
    · exact within.append [] (itemsOf phrases)
    · cases none
  | @close level levels before phrases stop item tokens items closes _ ih =>
    obtain ⟨last, first⟩ := bodies_of_close closes
    refine ih ?_
    rw [List.reverse_cons]
    rcases has with within | ⟨other, member, has⟩
    · exact .inl (.inside _ [] last (within.append [] (itemsOf phrases)))
    · rcases List.mem_cons.1 member with rfl | outer
      · rcases has with within | ⟨consequent, middle, opening, within⟩
        · exact .inl (within.append [] [item])
        · exact .inl (.inside _ [] (first _ _ opening) within)
      · exact .inr ⟨other, outer, has⟩
  | alternative phrases _ ih =>
    have within := has.imp_left fun within => within.append [] (itemsOf phrases)
    exact ih (.inr (has_of_split (by simp) (.inl rfl) within))
  | body phrases _ ih =>
    have within := has.imp_left fun within => within.append [] (itemsOf phrases)
    exact ih (.inr (has_of_split (by simp) (.inr rfl) within))

/-- Items that are put on a level stand in the program in the end. -/
theorem within_of_run {assembly : Assembly} {tokens : List Token} {workspace after : Workspace}
    (built : run keepImports (assembly.addAll block) tokens workspace = (.ok items, after)) : Within block items := by
  refine (sure _ built (Nat.lt_succ_self _) rfl).within (.inl ?_)
  have level : (assembly.addAll block).items.reverse = assembly.items.reverse ++ (block ++ []) := by
    simp [addAll, List.reverseAux_eq]
  rw [level]
  exact .here _ _

end Assembly

end TapeMachine
