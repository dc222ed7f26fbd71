import TapeMachine.Proofs.Slices
import TapeMachine.Typing

namespace TapeMachine

namespace Typing

/-- There are no modules. -/
def noModules : Modules :=
  fun name place workspace => (.error ⟨.importCycle workspace.chain name, some place⟩, workspace)

/-- What is known behind items that can be checked. -/
def past (typing : Typing) (items : List Item) : Typing :=
  ((checkAll noModules typing items {}).1.toOption).getD typing

/-- What is known where the number that decides about a block has been taken. -/
def opened (typing : Typing) : Typing :=
  { typing with stack := typing.stack.drop 1 }

def bound (typing : Typing) (names : List String) : Typing :=
  ((typing.bind names).toOption).getD typing

/-- What is known at the beginning of the body of a function. -/
def entered (typing : Typing) (heading : Heading) : Typing :=
  ((heading.signature.bind (typing.enter heading.name)).toOption).getD typing

/-- What is known where the other branch of a choice begins. -/
def otherwise (typing : Typing) (consequent : List Item) : Typing :=
  { typing.opened.past consequent with stack := typing.opened.stack }

def types (typing : Typing) : List Ty :=
  typing.stack.entries

end Typing

/-- What a check knows before an address: the instruction there begins an item, or it is one of the others
that stand for an item. -/
structure Visit where
  address : Nat
  typing : Typing
  item : Option Item := none

mutual

/-- The addresses of an item with what a check knows there. -/
def Item.visits (start : Nat) (typing : Typing) (item : Item) : List Visit :=
  ⟨start, typing, some item⟩ ::
    match item with
    | .number .. | .string .. | .word .. | .imports .. => []
    | .branch _ body _ => visitsOf (start + 1) typing.opened body ++ [⟨start + 1 + span body, typing.past [item], none⟩]
    | .choice _ consequent _ alternative _ =>
      let middle := start + 1 + span consequent
      visitsOf (start + 1) typing.opened consequent ++ ⟨middle, typing.opened, none⟩ ::
        visitsOf (middle + 1) (typing.otherwise consequent) alternative ++
        [⟨middle + 1 + span alternative, typing.past [item], none⟩]
    | .repeats _ body _ =>
      visitsOf (start + 1) typing.opened body ++ [⟨start + 1 + span body, typing.past [item], none⟩]
    | .loop _ test _ body _ =>
      let middle := start + 1 + span test
      visitsOf (start + 1) typing test ++ ⟨middle, typing.past test, none⟩ ::
        visitsOf (middle + 1) (typing.past test).opened body ++ [⟨middle + 1 + span body, typing.past [item], none⟩]
    | .bind _ names body _ =>
      visitsOf (start + 1) (typing.bound names) body ++
        [⟨start + 1 + span body, (typing.bound names).past body, none⟩,
          ⟨start + 1 + span body + 1, typing.past [item], none⟩]
    | .cell _ name body _ =>
      visitsOf (start + 1) (typing.cell name) body ++ [⟨start + 1 + span body, typing.past [item], none⟩]
    | .define _ heading body _ =>
      let stop := start + 3 + span body
      ⟨start + 1, typing.entered heading, none⟩ :: ⟨start + 2, typing.entered heading, none⟩ ::
        visitsOf (start + 3) (typing.entered heading) body ++
        [⟨stop, (typing.entered heading).past body, none⟩, ⟨stop + 1, typing.past [item], none⟩,
          ⟨stop + 1 + 1, typing.past [item], none⟩]

/-- The addresses of items with what a check knows there. -/
def visitsOf (start : Nat) (typing : Typing) : List Item → List Visit
  | [] => []
  | item :: rest => item.visits start typing ++ visitsOf (start + item.width) (typing.past [item]) rest

end

/-- What the check of a program knows at each address of its tape. -/
def visits (items : List Item) : List Visit :=
  visitsOf 0 .start items

/-- The addresses of the visits run from `start` up to `stop`. -/
def Consecutive (start stop : Nat) (visits : List Visit) : Prop :=
  visits.map Visit.address = List.range' start (stop - start) ∧ start ≤ stop

theorem consecutive_nil (start : Nat) : Consecutive start start [] :=
  ⟨by rw [Nat.sub_self]; rfl, Nat.le_refl start⟩

theorem Consecutive.append {start middle stop : Nat} {first second : List Visit}
    (before : Consecutive start middle first) (behind : Consecutive middle stop second) :
    Consecutive start stop (first ++ second) := by
  obtain ⟨left, below⟩ := before
  obtain ⟨right, above⟩ := behind
  refine ⟨?_, Nat.le_trans below above⟩
  have split : stop - start = (middle - start) + (stop - middle) := by omega
  have there : start + 1 * (middle - start) = middle := by omega
  rw [List.map_append, left, right, split, ← List.range'_append, there]

theorem Consecutive.cons {start stop : Nat} {rest : List Visit} (typing : Typing) (item : Option Item)
    (behind : Consecutive (start + 1) stop rest) : Consecutive start stop (⟨start, typing, item⟩ :: rest) := by
  obtain ⟨same, below⟩ := behind
  refine ⟨?_, by omega⟩
  have split : stop - start = stop - (start + 1) + 1 := by omega
  rw [List.map_cons, same, split, List.range'_succ]

theorem Consecutive.one (start : Nat) (typing : Typing) (item : Option Item) :
    Consecutive start (start + 1) [⟨start, typing, item⟩] :=
  .cons typing item (consecutive_nil _)

mutual

theorem consecutive_item (item : Item) (start : Nat) (typing : Typing) :
    Consecutive start (start + item.width) (item.visits start typing) := by
  cases item with
  | number | string | word | imports => exact .one ..
  | branch _ body _ | repeats _ body _ | cell _ _ body _ =>
    rw [Item.add_width]
    exact .cons _ _ ((consecutive_items body _ _).append (.one ..))
  | bind _ _ body _ =>
    rw [Item.add_width]
    exact .cons _ _ ((consecutive_items body _ _).append (.cons _ _ (.one ..)))
  | choice _ first _ second _ | loop _ first _ second _ =>
    rw [Item.add_width]
    refine .cons _ _ ?_
    exact ((consecutive_items first _ _).append (.cons _ _ (consecutive_items second _ _))).append (.one ..)
  | define _ _ body _ =>
    rw [Item.add_width]
    refine .cons _ _ (.cons _ _ (.cons _ _ ?_))
    exact (consecutive_items body _ _).append (.cons _ _ (.cons _ _ (.one ..)))

theorem consecutive_items (items : List Item) (start : Nat) (typing : Typing) :
    Consecutive start (start + span items) (visitsOf start typing items) := by
  match items with
  | [] => exact consecutive_nil start
  | item :: rest =>
    rw [span_cons, ← Nat.add_assoc]
    exact (consecutive_item item start typing).append (consecutive_items rest _ _)

end

/-- A visit of a program is found by its address. -/
theorem getElem?_visits {items : List Item} {visit : Visit} (member : visit ∈ visits items) :
    (visits items)[visit.address]? = some visit := by
  obtain ⟨index, found⟩ := List.mem_iff_getElem?.1 member
  have addresses : (visits items).map Visit.address = List.range' 0 (0 + span items - 0) :=
    (consecutive_items items 0 .start).1
  have there : ((visits items).map Visit.address)[index]? = some visit.address := by
    rw [List.getElem?_map, found]
    rfl
  rw [addresses] at there
  obtain ⟨inside, same⟩ := List.getElem?_eq_some_iff.1 there
  rw [List.getElem_range', Nat.one_mul, Nat.zero_add] at same
  exact same ▸ found

namespace Build

variable {α β : Type}

theorem andThen_eq_ok {build : Build α} {next : α → Workspace → Build β} {made : β} {after : Workspace}
    (done : build.andThen next = (.ok made, after)) :
    ∃ found between, build = (.ok found, between) ∧ next found between = (.ok made, after) := by
  obtain ⟨outcome, between⟩ := build
  cases outcome with
  | error => cases done
  | ok found => exact ⟨found, between, rfl, done⟩

/-- Two builds that do the same wherever they begin do the same one behind the other. -/
theorem andThen_congr {build other : Build α} {next later : α → Workspace → Build β} {workspace : Workspace}
    (first : build = (other.1, workspace))
    (second : ∀ made elsewhere, next made workspace = ((later made elsewhere).1, workspace)) :
    build.andThen next = ((other.andThen later).1, workspace) := by
  subst first
  obtain ⟨outcome, elsewhere⟩ := other
  cases outcome with
  | error => rfl
  | ok made => exact second made elsewhere

end Build

namespace Typing

mutual

/-- Where nothing is imported, a check depends on neither modules nor files. -/
theorem check_alone (item : Item) (free : item.standsAlone = true) (modules others : Modules) (typing : Typing)
    (workspace elsewhere : Workspace) :
    check modules typing item workspace = ((check others typing item elsewhere).1, workspace) := by
  cases item with
  | number | string | word => rfl
  | imports => cases free
  | branch _ body _ =>
    refine Build.andThen_congr rfl fun opened elsewhere => ?_
    refine Build.andThen_congr (checkAll_alone body free modules others opened workspace _) fun closed elsewhere => ?_
    split <;> rfl
  | choice _ first _ second _ =>
    obtain ⟨left, right⟩ := Bool.and_eq_true_iff.1 free
    refine Build.andThen_congr rfl fun opened elsewhere => ?_
    refine Build.andThen_congr (checkAll_alone first left modules others opened workspace _) fun middle elsewhere => ?_
    refine Build.andThen_congr (checkAll_alone second right modules others _ workspace _) fun closed elsewhere => ?_
    split <;> rfl
  | repeats _ body _ =>
    refine Build.andThen_congr rfl fun opened elsewhere => ?_
    exact checkAll_alone body free modules others opened workspace _
  | loop _ test _ body _ =>
    obtain ⟨left, right⟩ := Bool.and_eq_true_iff.1 free
    refine Build.andThen_congr (checkAll_alone test left modules others typing workspace _) fun tested elsewhere => ?_
    split
    · refine Build.andThen_congr rfl fun opened elsewhere => ?_
      exact checkAll_alone body right modules others opened workspace _
    · rfl
  | bind _ names body _ =>
    refine Build.andThen_congr rfl fun opened elsewhere => ?_
    exact Build.andThen_congr (checkAll_alone body free modules others opened workspace _) fun closed elsewhere => rfl
  | cell _ name body _ =>
    exact Build.andThen_congr (checkAll_alone body free modules others _ workspace _) fun closed elsewhere => rfl
  | define _ heading body _ =>
    refine Build.andThen_congr rfl fun signature elsewhere => ?_
    refine Build.andThen_congr rfl fun opened elsewhere => ?_
    refine Build.andThen_congr (checkAll_alone body free modules others opened workspace _) fun closed elsewhere => ?_
    exact Build.andThen_congr rfl fun done elsewhere => rfl

theorem checkAll_alone (items : List Item) (free : standAlone items = true) (modules others : Modules) (typing : Typing)
    (workspace elsewhere : Workspace) :
    checkAll modules typing items workspace = ((checkAll others typing items elsewhere).1, workspace) := by
  match items with
  | [] => rfl
  | item :: rest =>
    obtain ⟨first, others'⟩ := Bool.and_eq_true_iff.1 free
    refine Build.andThen_congr (check_alone item first modules others typing workspace _) fun next elsewhere => ?_
    exact checkAll_alone rest others' modules others next workspace _

end

theorem past_eq {modules : Modules} {typing closed : Typing} {items : List Item} {workspace after : Workspace}
    (free : standAlone items = true) (checked : checkAll modules typing items workspace = (.ok closed, after)) :
    typing.past items = closed := by
  have same := checkAll_alone items free noModules modules typing {} workspace
  rw [past, same, checked]
  rfl

/-- What is known behind one item. -/
theorem past_item {modules : Modules} {typing closed : Typing} {item : Item} {workspace after : Workspace}
    (free : item.standsAlone = true) (checked : check modules typing item workspace = (.ok closed, after)) :
    typing.past [item] = closed := by
  have single : checkAll modules typing [item] workspace = (.ok closed, after) := by
    rw [checkAll, checked]
    rfl
  refine past_eq ?_ single
  rw [standAlone, free]
  rfl

end Typing

end TapeMachine
