import Mathlib
import TapeMachine.Proofs.Checked
import TapeMachine.Proofs.Frames
import TapeMachine.Proofs.Unfolding

namespace TapeMachine

mutual

/-- No function in the item has the name of a builtin. -/
def Item.sparesBuiltins : Item → Bool
  | .number .. | .string .. | .word .. | .imports .. => true
  | .branch _ body _ | .repeats _ body _ | .bind _ _ body _ | .cell _ _ body _ => spareBuiltins body
  | .choice _ first _ second _ | .loop _ first _ second _ => spareBuiltins first && spareBuiltins second
  | .define _ heading body _ => (Builtin.find? heading.name).isNone && spareBuiltins body

/-- No function in the items has the name of a builtin. -/
def spareBuiltins : List Item → Bool
  | [] => true
  | item :: rest => item.sparesBuiltins && spareBuiltins rest

end

@[simp]
theorem spareBuiltins_append (first second : List Item) :
    spareBuiltins (first ++ second) = (spareBuiltins first && spareBuiltins second) := by
  induction first with
  | nil => rfl
  | cons item rest ih => rw [List.cons_append, spareBuiltins, spareBuiltins, ih, Bool.and_assoc]

/-- A name that no builtin has differs from the name of each. -/
theorem Builtin.ne_name_of_find? {name : String} (spared : (find? name).isNone = true) (word : Builtin) :
    name ≠ word.name := by
  rintro rfl
  rw [find?_name] at spared
  cases spared

section

variable (resolves : String → List Item → Prop) (near : Location → Location → Prop)

/-- The items unfold to others that leave the names of the builtins alone. -/
structure Mirrors (kept unfolded : List Item) : Prop where
  unfolds : Unfolds resolves near kept unfolded
  spares : spareBuiltins unfolded = true

/-- What is left to do on a level, and on the level that mirrors it. -/
inductive Piece.Mirrors : List Piece → List Piece → Prop
  | nil : Piece.Mirrors [] []
  | mark {meant place place' rest rest'} : near place place' → Piece.Mirrors rest rest' →
      Piece.Mirrors (.mark meant place :: rest) (.mark meant place' :: rest')
  | item {whole unfolded rest rest'} : TapeMachine.Mirrors resolves near [whole] unfolded →
      Piece.Mirrors rest rest' → Piece.Mirrors (.item whole :: rest) (Piece.ofItems unfolded ++ rest')

structure Closing.Mirrors (closing closing' : Closing) : Prop where
  place : near closing.place closing'.place
  rest : Piece.Mirrors resolves near closing.rest closing'.rest

structure Loop.Mirrors (loop loop' : Loop) : Prop where
  test : TapeMachine.Mirrors resolves near loop.test loop'.test
  place : near loop.place loop'.place
  body : TapeMachine.Mirrors resolves near loop.body loop'.body

/-- A block and the block that mirrors it. They may stand at different addresses, on different tapes. -/
inductive Block.Mirrors : Block → Block → Prop
  | consequent {bound bound' closing closing'} : Closing.Mirrors resolves near closing closing' →
      Block.Mirrors (.consequent bound closing) (.consequent bound' closing')
  | repeats {start start' body body' remaining closing closing'} : TapeMachine.Mirrors resolves near body body' →
      Closing.Mirrors resolves near closing closing' →
      Block.Mirrors (.repeats start body remaining closing) (.repeats start' body' remaining closing')
  | test {loop loop' closing closing'} : Loop.Mirrors resolves near loop loop' →
      Closing.Mirrors resolves near closing closing' → Block.Mirrors (.test loop closing) (.test loop' closing')
  | body {loop loop' closing closing'} : Loop.Mirrors resolves near loop loop' →
      Closing.Mirrors resolves near closing closing' → Block.Mirrors (.body loop closing) (.body loop' closing')
  | cell {owned closing closing'} : Closing.Mirrors resolves near closing closing' →
      Block.Mirrors (.cell owned closing) (.cell owned closing')
  | call {tape tape' address address' rest rest'} : Piece.Mirrors resolves near rest rest' →
      Block.Mirrors (.call tape address rest) (.call tape' address' rest')

/-- What a name stands for, and what it stands for in the table that mirrors it. -/
inductive Routine.Mirrors : Option Routine → Option Routine → Prop
  | none : Routine.Mirrors none none
  | builtin {word} : Routine.Mirrors (some (.builtin word)) (some (.builtin word))
  | user {tape tape' definition definition' place place' body body'} : near place place' →
      TapeMachine.Mirrors resolves near body body' →
      Routine.Mirrors (some (.user tape definition place body)) (some (.user tape' definition' place' body'))

/-- A walker whose imports have to be resolved, and one who finds them resolved. -/
structure Walker.Mirrors (walker walker' : Walker) : Prop where
  code : Piece.Mirrors resolves near walker.code walker'.code
  blocks : List.Forall₂ (Block.Mirrors resolves near) walker.blocks walker'.blocks
  functions : ∀ name, Routine.Mirrors resolves near (walker.functions.get? name) (walker'.functions.get? name)
  builtins : ∀ word : Builtin, walker.functions.get? word.name = some (.builtin word)
  store : walker.store = walker'.store

/-- The two do the same next. -/
inductive Walker.Move.Mirrors : Walker.Move → Walker.Move → Prop
  | crossed {next next'} : Walker.Mirrors resolves near next next' → Walker.Move.Mirrors (.crossed next) (.crossed next')
  | ran {next next'} : Walker.Mirrors resolves near next next' → Walker.Move.Mirrors (.ran next) (.ran next')
  | prints {text next next'} : Walker.Mirrors resolves near next next' →
      Walker.Move.Mirrors (.prints text next) (.prints text next')
  | asks {kind prompt place place' next next'} : near place place' → Walker.Mirrors resolves near next next' →
      Walker.Move.Mirrors (.asks kind prompt place next) (.asks kind prompt place' next')
  | failed {cause place place'} : near place place' →
      Walker.Move.Mirrors (.failed ⟨cause, some place⟩) (.failed ⟨cause, some place'⟩)
  | ends : Walker.Move.Mirrors .ends .ends

end

section

variable {resolves : String → List Item → Prop} {near near' : Location → Location → Prop}

/-- The first item unfolds on its own. -/
theorem Unfolds.split {item : Item} {rest unfolded : List Item}
    (unfolds : Unfolds resolves near (item :: rest) unfolded) :
    ∃ first others, unfolded = first ++ others ∧ Unfolds resolves near [item] first ∧
      Unfolds resolves near rest others := by
  cases unfolds with
  | number place later => exact ⟨[_], _, rfl, .number place .nil, later⟩
  | string place later => exact ⟨[_], _, rfl, .string place .nil, later⟩
  | word place later => exact ⟨[_], _, rfl, .word place .nil, later⟩
  | @imports place name included _ _ resolved later =>
    have alone : Unfolds resolves near [.imports place name] (included ++ []) := .imports resolved .nil
    rw [List.append_nil] at alone
    exact ⟨included, _, rfl, alone, later⟩
  | branch place stop body later => exact ⟨[_], _, rfl, .branch place stop body .nil, later⟩
  | choice place middle stop first second later =>
    exact ⟨[_], _, rfl, .choice place middle stop first second .nil, later⟩
  | repeats place stop body later => exact ⟨[_], _, rfl, .repeats place stop body .nil, later⟩
  | loop place middle stop test body later => exact ⟨[_], _, rfl, .loop place middle stop test body .nil, later⟩
  | bind place stop body later => exact ⟨[_], _, rfl, .bind place stop body .nil, later⟩
  | cell place stop body later => exact ⟨[_], _, rfl, .cell place stop body .nil, later⟩
  | define place stop body later => exact ⟨[_], _, rfl, .define place stop body .nil, later⟩

theorem Mirrors.mono {kept unfolded : List Item} (nearing : ∀ place place', near place place' → near' place place')
    (mirrors : Mirrors resolves near kept unfolded) : Mirrors resolves near' kept unfolded :=
  ⟨mirrors.unfolds.mono (fun _ _ => id) nearing, mirrors.spares⟩

namespace Piece.Mirrors

theorem mono {pieces pieces' : List Piece} (nearing : ∀ place place', near place place' → near' place place')
    (mirrors : Piece.Mirrors resolves near pieces pieces') : Piece.Mirrors resolves near' pieces pieces' := by
  induction mirrors with
  | nil => exact .nil
  | mark place _ ih => exact .mark (nearing _ _ place) ih
  | item whole _ ih => exact .item (whole.mono nearing) ih

/-- Pieces that begin with items mirror one another where the items and the rest do. -/
theorem items {kept unfolded : List Item} {rest rest' : List Piece} (mirrors : TapeMachine.Mirrors resolves near kept unfolded)
    (later : Piece.Mirrors resolves near rest rest') :
    Piece.Mirrors resolves near (Piece.ofItems kept ++ rest) (Piece.ofItems unfolded ++ rest') := by
  induction kept generalizing unfolded with
  | nil =>
    cases mirrors.unfolds
    exact later
  | cons item kept ih =>
    obtain ⟨first, others, rfl, head, tail⟩ := mirrors.unfolds.split
    have spares := mirrors.spares
    rw [spareBuiltins_append, Bool.and_eq_true] at spares
    have all := Piece.Mirrors.item ⟨head, spares.1⟩ (ih ⟨tail, spares.2⟩)
    rw [← List.append_assoc] at all
    simpa [Piece.ofItems] using all

theorem ofItems {kept unfolded : List Item} (mirrors : TapeMachine.Mirrors resolves near kept unfolded) :
    Piece.Mirrors resolves near (Piece.ofItems kept) (Piece.ofItems unfolded) := by
  have all := items mirrors .nil
  rwa [List.append_nil, List.append_nil] at all

end Piece.Mirrors

theorem Closing.Mirrors.mono {closing closing' : Closing}
    (nearing : ∀ place place', near place place' → near' place place')
    (mirrors : Closing.Mirrors resolves near closing closing') : Closing.Mirrors resolves near' closing closing' :=
  ⟨nearing _ _ mirrors.place, mirrors.rest.mono nearing⟩

theorem Closing.Mirrors.code {closing closing' : Closing} (mirrors : Closing.Mirrors resolves near closing closing') :
    Piece.Mirrors resolves near closing.code closing'.code :=
  .mark mirrors.place mirrors.rest

theorem Loop.Mirrors.mono {loop loop' : Loop} (nearing : ∀ place place', near place place' → near' place place')
    (mirrors : Loop.Mirrors resolves near loop loop') : Loop.Mirrors resolves near' loop loop' :=
  ⟨mirrors.test.mono nearing, nearing _ _ mirrors.place, mirrors.body.mono nearing⟩

theorem Block.Mirrors.mono {block block' : Block} (nearing : ∀ place place', near place place' → near' place place')
    (mirrors : Block.Mirrors resolves near block block') : Block.Mirrors resolves near' block block' := by
  cases mirrors with
  | consequent closing => exact .consequent (closing.mono nearing)
  | repeats body closing => exact .repeats (body.mono nearing) (closing.mono nearing)
  | test loop closing => exact .test (loop.mono nearing) (closing.mono nearing)
  | body loop closing => exact .body (loop.mono nearing) (closing.mono nearing)
  | cell closing => exact .cell (closing.mono nearing)
  | call rest => exact .call (rest.mono nearing)

theorem Routine.Mirrors.mono {routine routine' : Option Routine}
    (nearing : ∀ place place', near place place' → near' place place')
    (mirrors : Routine.Mirrors resolves near routine routine') : Routine.Mirrors resolves near' routine routine' := by
  cases mirrors with
  | none => exact .none
  | builtin => exact .builtin
  | user place body => exact .user (nearing _ _ place) (body.mono nearing)

end

namespace Walker

variable {resolves : String → List Item → Prop} {near : Location → Location → Prop} {walker walker' : Walker}

/-- Moving on keeps walkers alike, wherever on its own tape each of them goes. -/
theorem Mirrors.goto (mirrors : walker.Mirrors resolves near walker') {address address' : Nat}
    {code code' : List Piece} (store : Store) (there : Piece.Mirrors resolves near code code') :
    ({ walker with store }.goto address code).Mirrors resolves near ({ walker' with store }.goto address' code') :=
  ⟨there, mirrors.blocks, mirrors.functions, mirrors.builtins, rfl⟩

/-- Both enter a block, with bodies and surroundings that mirror one another. -/
theorem Mirrors.inside (mirrors : walker.Mirrors resolves near walker') {block block' : Block}
    {address address' : Nat} {body body' : List Item} {outer outer' : List Block} (store : Store)
    (inner : TapeMachine.Mirrors resolves near body body') (around : Block.Mirrors resolves near block block')
    (outside : List.Forall₂ (Block.Mirrors resolves near) outer outer') :
    ({ walker with store }.inside block address body outer).Mirrors resolves near
      ({ walker' with store }.inside block' address' body' outer') :=
  ⟨.ofItems inner, .cons around outside, mirrors.functions, mirrors.builtins, rfl⟩

theorem Mirrors.leave (mirrors : walker.Mirrors resolves near walker') {closing closing' : Closing}
    {outer outer' : List Block} (store : Store) (there : Closing.Mirrors resolves near closing closing')
    (outside : List.Forall₂ (Block.Mirrors resolves near) outer outer') :
    ({ walker with store }.leave closing outer).Mirrors resolves near
      ({ walker' with store }.leave closing' outer') :=
  ⟨there.code, outside, mirrors.functions, mirrors.builtins, rfl⟩

/-- An instruction that works on the store first has one outcome on both sides, since the store is one. -/
theorem mirrors_after {α : Type} {outcome : Outcome α} {place place' : Location} {onward onward' : α → Move}
    (there : near place place')
    (same : ∀ found, outcome = .ok found → (onward found).Mirrors resolves near (onward' found)) :
    (Move.after outcome place onward).Mirrors resolves near (Move.after outcome place' onward') := by
  cases outcome with
  | ok found => exact same found rfl
  | error cause => exact .failed there

/-- A name means the same on both sides: a builtin, a bound value, or functions whose bodies mirror one another. -/
theorem Mirrors.word (mirrors : walker.Mirrors resolves near walker') (name : String) {place place' : Location}
    {rest rest' : List Piece} (there : near place place') (later : Piece.Mirrors resolves near rest rest') :
    (walker.word name place rest).Mirrors resolves near (walker'.word name place' rest') := by
  have next : ∀ store, (walker.next rest store).Mirrors resolves near (walker'.next rest' store) :=
    fun store => mirrors.goto store later
  have known := mirrors.functions name
  unfold Walker.word
  generalize walker.functions.get? name = found at known ⊢
  generalize walker'.functions.get? name = found' at known ⊢
  cases known with
  | none =>
    dsimp only
    rw [mirrors.store]
    exact mirrors_after there fun store _ => .ran (next store)
  | builtin =>
    dsimp only [builtin]
    rw [mirrors.store]
    refine mirrors_after there ?_
    rintro ⟨effect, store⟩ -
    cases effect with
    | «continue» => exact .ran (next store)
    | print text => exact .prints (next store)
    | input kind prompt => exact .asks there (next store)
  | user from_ body =>
    refine .ran ⟨?_, ?_, mirrors.functions, mirrors.builtins, mirrors.store⟩
    · exact .mark from_ (.mark from_ (.ofItems body))
    · exact .cons (.call later) mirrors.blocks

/-- The tables of functions stay alike. The name must not be that of a builtin, which an import could bring back. -/
theorem Mirrors.define (mirrors : walker.Mirrors resolves near walker') {heading : Heading} {place place' : Location}
    {body body' : List Item} {tape tape' : Tape} {definition definition' : Definition} (there : near place place')
    (inner : TapeMachine.Mirrors resolves near body body') (spared : (Builtin.find? heading.name).isNone = true) :
    (∀ name, Routine.Mirrors resolves near
      ((walker.functions.insert heading.name (.user tape definition place body)).get? name)
      ((walker'.functions.insert heading.name (.user tape' definition' place' body')).get? name)) ∧
    ∀ word : Builtin, (walker.functions.insert heading.name (.user tape definition place body)).get? word.name =
      some (.builtin word) := by
  constructor
  · intro name
    rw [Dictionary.get?_insert, Dictionary.get?_insert]
    split
    · exact .user there inner
    · exact mirrors.functions name
  · intro word
    rw [Dictionary.get?_insert, if_neg (Builtin.ne_name_of_find? spared word)]
    exact mirrors.builtins word

/-- Items that are no imports are begun alike. -/
theorem Mirrors.perform (mirrors : walker.Mirrors resolves near walker') {item : Item} {unfolded : List Item}
    {rest rest' : List Piece} (here : TapeMachine.Mirrors resolves near [item] unfolded)
    (later : Piece.Mirrors resolves near rest rest') (ordinary : ∀ place name, item ≠ .imports place name) :
    ∃ item', unfolded = [item'] ∧ (walker.perform item rest).Mirrors resolves near (walker'.perform item' rest') := by
  obtain ⟨unfolds, spares⟩ := here
  cases unfolds with
  | number place last =>
    cases last
    refine ⟨_, rfl, ?_⟩
    unfold Walker.perform
    dsimp only
    rw [mirrors.store]
    exact mirrors_after place fun store _ => .ran (mirrors.goto store later)
  | string place last =>
    cases last
    refine ⟨_, rfl, ?_⟩
    unfold Walker.perform
    dsimp only
    rw [mirrors.store]
    exact mirrors_after place fun store _ => .ran (mirrors.goto store later)
  | word place last =>
    cases last
    exact ⟨_, rfl, mirrors.word _ place later⟩
  | imports => exact (ordinary _ _ rfl).elim
  | branch place stop body last =>
    cases last
    simp only [spareBuiltins, Item.sparesBuiltins, Bool.and_true] at spares
    refine ⟨_, rfl, ?_⟩
    unfold Walker.perform
    dsimp only
    rw [mirrors.store]
    refine mirrors_after place ?_
    rintro ⟨n, store⟩ -
    dsimp only
    split
    · exact .ran (mirrors.goto store (.items ⟨body, spares⟩ (.mark stop later)))
    · exact .ran (mirrors.goto store (.mark stop later))
  | choice place middle stop first second last =>
    cases last
    simp only [spareBuiltins, Item.sparesBuiltins, Bool.and_true, Bool.and_eq_true] at spares
    refine ⟨_, rfl, ?_⟩
    unfold Walker.perform
    dsimp only
    rw [mirrors.store]
    refine mirrors_after place ?_
    rintro ⟨n, store⟩ -
    dsimp only
    split
    · exact .ran (mirrors.inside store ⟨first, spares.1⟩ (.consequent ⟨stop, later⟩) mirrors.blocks)
    · exact .ran (mirrors.goto store (.mark middle (.items ⟨second, spares.2⟩ (.mark stop later))))
  | repeats place stop body last =>
    cases last
    simp only [spareBuiltins, Item.sparesBuiltins, Bool.and_true] at spares
    refine ⟨_, rfl, ?_⟩
    unfold Walker.perform
    dsimp only
    rw [mirrors.store]
    refine mirrors_after place ?_
    rintro ⟨count, store⟩ -
    cases count with
    | zero => exact .ran (mirrors.goto store (.mark stop later))
    | succ more =>
      exact .ran (mirrors.inside store ⟨body, spares⟩ (.repeats ⟨body, spares⟩ ⟨stop, later⟩) mirrors.blocks)
  | loop place middle stop test body last =>
    cases last
    simp only [spareBuiltins, Item.sparesBuiltins, Bool.and_true, Bool.and_eq_true] at spares
    refine ⟨_, rfl, ?_⟩
    have same := mirrors.store
    refine .ran ⟨.ofItems ⟨test, spares.1⟩, .cons (.test ?_ ⟨stop, later⟩) mirrors.blocks, mirrors.functions,
      mirrors.builtins, same⟩
    exact ⟨⟨test, spares.1⟩, middle, ⟨body, spares.2⟩⟩
  | bind place stop body last =>
    cases last
    simp only [spareBuiltins, Item.sparesBuiltins, Bool.and_true] at spares
    refine ⟨_, rfl, ?_⟩
    unfold Walker.perform
    dsimp only
    rw [mirrors.store]
    refine mirrors_after place fun store _ => ?_
    exact .ran (mirrors.goto store (.items ⟨body, spares⟩ (.mark stop (.mark stop later))))
  | cell place stop body last =>
    cases last
    simp only [spareBuiltins, Item.sparesBuiltins, Bool.and_true] at spares
    refine ⟨_, rfl, ?_⟩
    unfold Walker.perform
    dsimp only
    rw [mirrors.store]
    refine mirrors_after place ?_
    rintro ⟨owned, store⟩ -
    exact .ran (mirrors.inside store ⟨body, spares⟩ (.cell ⟨stop, later⟩) mirrors.blocks)
  | define place stop body last =>
    cases last
    simp only [spareBuiltins, Item.sparesBuiltins, Bool.and_true, Bool.and_eq_true] at spares
    obtain ⟨functions, builtins⟩ := mirrors.define place ⟨body, spares.2⟩ spares.1
    exact ⟨_, rfl, .ran ⟨.mark stop (.mark stop later), mirrors.blocks, functions, builtins, mirrors.store⟩⟩

/-- Blocks are closed alike. -/
theorem Mirrors.close (mirrors : walker.Mirrors resolves near walker') {block block' : Block}
    {outer outer' : List Block} (here : Block.Mirrors resolves near block block')
    (outside : List.Forall₂ (Block.Mirrors resolves near) outer outer') :
    (walker.close block outer).Mirrors resolves near (walker'.close block' outer') := by
  have withStore : ∀ {closing closing'}, Closing.Mirrors resolves near closing closing' →
      (walker.leave closing outer).Mirrors resolves near (walker'.leave closing' outer') :=
    fun closing => ⟨closing.code, outside, mirrors.functions, mirrors.builtins, mirrors.store⟩
  cases here with
  | consequent closing => exact .crossed (withStore closing)
  | @repeats _ _ _ _ remaining _ _ body closing =>
    cases remaining with
    | zero => exact .crossed (withStore closing)
    | succ remaining =>
      exact .crossed ⟨.ofItems body, .cons (.repeats body closing) outside, mirrors.functions, mirrors.builtins,
        mirrors.store⟩
  | test loop closing =>
    unfold Walker.close
    dsimp only
    rw [mirrors.store]
    refine mirrors_after loop.place ?_
    rintro ⟨n, store⟩ -
    dsimp only
    split
    · exact .crossed (mirrors.leave store closing outside)
    · exact .crossed (mirrors.inside store loop.body (.body loop closing) outside)
  | body loop closing =>
    exact .crossed ⟨.ofItems loop.test, .cons (.test loop closing) outside, mirrors.functions, mirrors.builtins,
      mirrors.store⟩
  | cell closing =>
    unfold Walker.close
    dsimp only
    rw [mirrors.store]
    exact mirrors_after closing.place fun store _ => .crossed (mirrors.leave store closing outside)
  | call rest => exact .ran ⟨rest, outside, mirrors.functions, mirrors.builtins, mirrors.store⟩

/-- The walker stands before an import, and the other one before what it resolves to. -/
structure AtImport (resolves : String → List Item → Prop) (near : Location → Location → Prop) (walker walker' : Walker)
    (place : Location) (name : String) (rest : List Piece) (included : List Item) (rest' : List Piece) : Prop where
  code : walker.code = .item (.imports place name) :: rest
  code' : walker'.code = Piece.ofItems included ++ rest'
  resolved : resolves name included
  spares : spareBuiltins included = true
  later : Piece.Mirrors resolves near rest rest'

/-- A walker does what the other one does, unless he has to import something. -/
theorem Mirrors.move (mirrors : walker.Mirrors resolves near walker') :
    (∃ place name rest included rest', AtImport resolves near walker walker' place name rest included rest') ∨
      walker.move.Mirrors resolves near walker'.move := by
  have code := mirrors.code
  have blocks := mirrors.blocks
  generalize here : walker.code = pieces at code
  generalize here' : walker'.code = pieces' at code
  cases code with
  | nil =>
    refine .inr ?_
    generalize around : walker.blocks = enclosing at blocks
    generalize around' : walker'.blocks = enclosing' at blocks
    cases blocks with
    | nil =>
      simp only [Walker.move, here, here', around, around']
      exact .ends
    | cons block outer =>
      simp only [Walker.move, here, here', around, around']
      exact mirrors.close block outer
  | @mark meant place place' rest rest' there later =>
    refine .inr ?_
    simp only [Walker.move, here, here']
    have same := mirrors.store
    cases meant with
    | noop | enter | dropCell =>
      exact .ran ⟨later, mirrors.blocks, mirrors.functions, mirrors.builtins, same⟩
    | unbind names =>
      exact .ran ⟨later, mirrors.blocks, mirrors.functions, mirrors.builtins, congrArg Store.unbind same⟩
  | @item whole unfolded rest rest' mirrored later =>
    by_cases imports : ∃ place name, whole = .imports place name
    · obtain ⟨place, name, rfl⟩ := imports
      refine .inl ⟨place, name, rest, unfolded, rest', ⟨here, here', ?_, mirrored.spares, later⟩⟩
      have unfolds := mirrored.unfolds
      generalize only : [Item.imports place name] = items at unfolds
      cases unfolds with
      | @imports _ _ included _ _ resolved last =>
        cases only
        cases last
        rw [List.append_nil]
        exact resolved
      | nil | number | string | word | branch | choice | repeats | loop | bind | cell | define => cases only
    · refine .inr ?_
      obtain ⟨item', rfl, moved⟩ := mirrors.perform mirrored later fun place name same => imports ⟨place, name, same⟩
      simp only [Walker.move, here, here', Piece.ofItems, List.map_cons, List.map_nil, List.singleton_append]
      exact moved

end Walker

end TapeMachine
