import Mathlib.Order.BooleanAlgebra.Set
import TapeMachine.Proofs.Tiling

namespace TapeMachine

namespace Heap

/-- A live block of memory: where it begins, how many addresses it has, and what was saved there last. -/
@[ext]
structure Block where
  start : Nat
  size : Nat
  contents : Nat → Option Value

namespace Block

def Owns (block : Block) (address : Nat) : Prop :=
  block.start ≤ address ∧ address < block.start + block.size

/-- A block to which nothing has been saved. -/
def fresh (start size : Nat) : Block where
  start := start
  size := size
  contents _ := none

def write (block : Block) (address : Nat) (value : Value) : Block :=
  { block with contents := fun other => if other = address then some value else block.contents other }

end Block

/-- Memory as a set of live blocks answers a call and becomes another one. Where a new block comes to stand is left
open, but it shares no address with a live one. Nothing else is: `save` and `load` look for the block that owns their
address, `free` for the block that begins there, and a call that fails changes nothing. -/
inductive Explains (memory : Set Block) : Call → Answer → Set Block → Prop
  | alloc {size address : Nat} : 0 < size →
      (∀ block ∈ memory, ∀ other, block.Owns other → ¬(Block.fresh address size).Owns other) →
      Explains memory (.alloc size) (.pointer address) (insert (.fresh address size) memory)
  | allocNothing {cause : Cause} : cause.code = .invalidAllocation →
      Explains memory (.alloc 0) (.failed cause) memory
  | allocTooMuch {size : Nat} {cause : Cause} : 0 < size → cause.code = .outOfMemory →
      Explains memory (.alloc size) (.failed cause) memory
  | free {block : Block} : block ∈ memory → Explains memory (.free block.start) .done (memory \ {block})
  | freeElsewhere {address : Nat} {cause : Cause} : (∀ block ∈ memory, block.start ≠ address) →
      cause.code = .invalidPointer → Explains memory (.free address) (.failed cause) memory
  | save {block : Block} {address : Nat} (value : Value) : block ∈ memory → block.Owns address →
      Explains memory (.save address value) .done (insert (block.write address value) (memory \ {block}))
  | saveElsewhere {address : Nat} (value : Value) {cause : Cause} : (∀ block ∈ memory, ¬block.Owns address) →
      cause.code = .invalidPointer → Explains memory (.save address value) (.failed cause) memory
  | load {block : Block} {address : Nat} {value : Value} : block ∈ memory → block.Owns address →
      block.contents address = some value → Explains memory (.load address) (.value value) memory
  | loadUnwritten {block : Block} {address : Nat} {cause : Cause} : block ∈ memory → block.Owns address →
      block.contents address = none → cause.code = .uninitializedMemory →
      Explains memory (.load address) (.failed cause) memory
  | loadElsewhere {address : Nat} {cause : Cause} : (∀ block ∈ memory, ¬block.Owns address) →
      cause.code = .invalidPointer → Explains memory (.load address) (.failed cause) memory
  | condense : Explains memory .condense .done memory

/-- Memory as a set of live blocks answers one call after another. -/
inductive ExplainsAll : Set Block → List (Call × Answer) → Set Block → Prop
  | nil (memory : Set Block) : ExplainsAll memory [] memory
  | cons {memory next last : Set Block} {call : Call} {answer : Answer} {rest : List (Call × Answer)} :
      Explains memory call answer next → ExplainsAll next rest last → ExplainsAll memory ((call, answer) :: rest) last

/-- No two blocks share an address, and a block holds values at its own addresses only. -/
structure Isolated (memory : Set Block) : Prop where
  apart : ∀ first ∈ memory, ∀ second ∈ memory, ∀ address, first.Owns address → second.Owns address → first = second
  inside : ∀ block ∈ memory, ∀ address value, block.contents address = some value → block.Owns address

/-- The calls made of a heap with its answers. -/
def transcript : Heap → List Call → List (Call × Answer)
  | _, [] => []
  | heap, call :: rest => (call, (heap.respond call).1) :: (heap.respond call).2.transcript rest

end Heap

/-- The block that a region stands for while it holds `cells`. -/
def Region.blockWith (region : Region) (cells : Cells) : Heap.Block where
  start := region.start
  size := region.size
  contents address := cells[address]?

/-- The block that a region in use stands for. -/
def Region.block? (region : Region) : Option Heap.Block :=
  region.cells.map region.blockWith

/-- The live blocks among regions. -/
def blocksOf (regions : List Region) : Set Heap.Block :=
  { block | ∃ region ∈ regions, region.block? = some block }

def Heap.blocks (heap : Heap) : Set Heap.Block :=
  blocksOf heap.regions

variable {regions before behind result : List Region} {region : Region} {size address capacity : Nat} {value : Value}

theorem Region.block?_of_cells {cells : Cells} (used : region.cells = some cells) :
    region.block? = some (region.blockWith cells) := by
  rw [block?, used]
  rfl

theorem Region.blockWith_insert (region : Region) (cells : Cells) (address : Nat) (value : Value) :
    region.blockWith (cells.insert address value) = (region.blockWith cells).write address value := by
  have contents : ∀ other, (cells.insert address value)[other]? =
      if other = address then some value else cells[other]? := by
    intro other
    rw [Std.TreeMap.getElem?_insert]
    simp only [Nat.compare_eq_eq, @eq_comm _ address other]
  simp only [blockWith, Heap.Block.write, contents]

theorem blocksOf_append (first second : List Region) :
    blocksOf (first ++ second) = blocksOf first ∪ blocksOf second := by
  ext block
  simp only [blocksOf, Set.mem_ofPred_eq, Set.mem_union, List.mem_append, or_and_right, exists_or]

theorem blocksOf_cons_free (free : region.isFree = true) (rest : List Region) :
    blocksOf (region :: rest) = blocksOf rest := by
  ext block
  simp [blocksOf, Region.block?, Region.isFree_iff.1 free]

theorem blocksOf_cons_used {block : Heap.Block} (used : region.block? = some block) (rest : List Region) :
    blocksOf (region :: rest) = insert block (blocksOf rest) := by
  ext other
  simp [blocksOf, used, eq_comm]

/-- Where addresses are given away, a new block appears and all others stay. -/
theorem blocksOf_allocIn (found : allocIn size regions = some (address, result)) :
    blocksOf result = insert (.fresh address size) (blocksOf regions) := by
  obtain ⟨before, region, behind, rfl, -, free, -, rfl, rfl⟩ := allocIn_eq_some found
  have new : (⟨region.start, size, some ∅⟩ : Region).block? = some (.fresh region.start size) := by
    simp [Region.block?, Region.blockWith, Heap.Block.fresh]
  have parts : blocksOf (region.split size ++ behind) = insert (.fresh region.start size) (blocksOf behind) := by
    unfold Region.split
    rw [List.cons_append, blocksOf_cons_used new]
    split
    · rw [List.singleton_append, blocksOf_cons_free rfl]
    · rfl
  rw [blocksOf_append, parts, blocksOf_append, blocksOf_cons_free free, Set.union_insert]

theorem blocksOf_mergeFirst (found : mergeFirst regions = some result) : blocksOf result = blocksOf regions := by
  obtain ⟨before, first, second, behind, rfl, here, there, rfl⟩ := mergeFirst_eq_some found
  rw [blocksOf_append, blocksOf_append, blocksOf_cons_free here, blocksOf_cons_free there, blocksOf_cons_free]
  exact here

theorem blocksOf_condense (regions : List Region) : blocksOf (condense regions) = blocksOf regions :=
  condense_induct (fun _ _ step same => (blocksOf_mergeFirst step).trans same) regions rfl

theorem Region.owns_iff {block : Heap.Block} (used : region.block? = some block) :
    block.Owns address ↔ region.contains address = true := by
  obtain ⟨cells, -, rfl⟩ := Option.map_eq_some_iff.1 used
  exact Region.contains_iff.symm

theorem blocksOf_split {block : Heap.Block} (used : region.block? = some block) :
    blocksOf (before ++ region :: behind) = insert block (blocksOf (before ++ behind)) := by
  rw [blocksOf_append, blocksOf_cons_used used, Set.union_insert, blocksOf_append]

/-- No two regions stand for the same block. -/
theorem Laid.notMem_blocksOf (laid : Laid capacity (before ++ region :: behind)) {block : Heap.Block}
    (used : region.block? = some block) : block ∉ blocksOf (before ++ behind) := by
  have size_pos : ∀ other ∈ before ++ region :: behind, other.block? = some block → 0 < other.size := by
    intro other member same
    obtain ⟨cells, inUse, -⟩ := Option.map_eq_some_iff.1 same
    refine (laid.positive other member).resolve_right ?_
    simp [Region.isFree, inUse]
  rintro ⟨other, member, same⟩
  have start_eq : other.start = region.start := by
    obtain ⟨_, -, here⟩ := Option.map_eq_some_iff.1 used
    obtain ⟨_, -, there⟩ := Option.map_eq_some_iff.1 same
    exact (congrArg Heap.Block.start there).trans (congrArg Heap.Block.start here).symm
  have ordered := laid.tiles.ordered
  rw [List.pairwise_append, List.pairwise_cons] at ordered
  obtain ⟨-, ⟨later, -⟩, earlier⟩ := ordered
  rcases List.mem_append.1 member with first | last
  · have apart := earlier other first region List.mem_cons_self
    have positive := size_pos other (by simp [first]) same
    omega
  · have apart := later other last
    have positive := size_pos region (by simp) used
    omega

theorem Laid.blocksOf_split_diff (laid : Laid capacity (before ++ region :: behind)) {block : Heap.Block}
    (used : region.block? = some block) :
    blocksOf (before ++ region :: behind) \ {block} = blocksOf (before ++ behind) := by
  rw [blocksOf_split used]
  exact Set.insert_sdiff_self_of_notMem (laid.notMem_blocksOf used)

namespace Heap.Tiled

variable {heap : Heap}

theorem explains_alloc (tiled : heap.Tiled) (size : Nat) :
    Explains heap.blocks (.alloc size) (heap.respond (.alloc size)).1 (heap.respond (.alloc size)).2.blocks := by
  rw [Heap.respond]
  cases allocated : heap.alloc size with
  | error cause =>
    unfold Heap.alloc at allocated
    split at allocated
    · rename_i nothing
      cases allocated
      subst nothing
      exact .allocNothing rfl
    · rename_i some
      split at allocated
      · cases allocated
      · cases allocated
        exact .allocTooMuch (Nat.pos_of_ne_zero some) rfl
  | ok found =>
    obtain ⟨address, next⟩ := found
    have positive := (alloc_eq_ok allocated).1
    obtain ⟨regions, found, rfl⟩ := tiled.alloc_eq allocated
    have same : blocksOf regions = insert (.fresh address size) heap.blocks := blocksOf_allocIn found
    show Explains heap.blocks _ _ (blocksOf regions)
    rw [same]
    refine .alloc positive ?_
    -- The block lies in a region that was free, and no block in use shares addresses with that.
    obtain ⟨before, region, behind, whole, -, free, room, rfl, -⟩ := allocIn_eq_some found
    rintro block ⟨owner, member, used⟩ other owned ⟨lower, upper⟩
    have inside : region.contains other = true := by
      simp only [Block.fresh] at lower upper
      exact Region.contains_iff.2 (by omega)
    have same := tiled.toLaid.eq_of_contains member ((Region.owns_iff used).1 owned) (by simp [whole]) inside
    rw [same, Region.block?, Region.isFree_iff.1 free] at used
    cases used

theorem explains_free (tiled : heap.Tiled) (address : Nat) :
    Explains heap.blocks (.free address) (heap.respond (.free address)).1 (heap.respond (.free address)).2.blocks := by
  rw [Heap.respond]
  cases freed : heap.free address with
  | error cause =>
    unfold Heap.free at freed
    split at freed
    · cases freed
    · rename_i failed
      cases freed
      refine .freeElsewhere ?_ rfl
      rintro block ⟨region, member, used⟩ begins
      obtain ⟨cells, inUse, rfl⟩ := Option.map_eq_some_iff.1 used
      have free := Region.isFree_iff.1 (freeIn_eq_none failed member begins)
      rw [free] at inUse
      cases inUse
  | ok next =>
    obtain ⟨regions, found, rfl⟩ := free_eq_ok freed
    obtain ⟨before, region, behind, whole, begins, inUse, rfl⟩ := freeIn_eq_some found
    obtain ⟨cells, used⟩ : ∃ cells, region.cells = some cells := by
      cases same : region.cells with
      | none => simp [Region.isFree, same] at inUse
      | some cells => exact ⟨cells, rfl⟩
    have block := Region.block?_of_cells used
    have laid := tiled.toLaid
    rw [whole] at laid
    have left : heap.blocks \ {region.blockWith cells} = blocksOf (before ++ behind) := by
      rw [Heap.blocks, whole, laid.blocksOf_split_diff block]
    have result : blocksOf (TapeMachine.condense (before ++ { region with cells := none } :: behind)) =
        heap.blocks \ {region.blockWith cells} := by
      rw [blocksOf_condense, blocksOf_append, blocksOf_cons_free rfl, ← blocksOf_append, left]
    show Explains heap.blocks (.free address) .done (blocksOf (TapeMachine.condense _))
    rw [result, ← begins]
    exact @Explains.free _ (region.blockWith cells) ⟨region, by simp [whole], block⟩

/-- An address outside the heap lies in no block. -/
theorem not_owns_of_le (tiled : heap.Tiled) {block : Block} (member : block ∈ heap.blocks)
    (outside : heap.capacity ≤ address) : ¬block.Owns address := by
  obtain ⟨region, inside, used⟩ := member
  rw [Region.owns_iff used, Region.contains_iff]
  have bounds := tiled.tiles.bounds inside
  omega

/-- An address inside a free region lies in no block. -/
theorem not_owns_of_free (tiled : heap.Tiled) (whole : heap.regions = before ++ region :: behind)
    (inside : region.contains address = true) (free : region.cells = none) {block : Block}
    (member : block ∈ heap.blocks) : ¬block.Owns address := by
  obtain ⟨other, found, used⟩ := member
  rw [Region.owns_iff used]
  intro inside'
  have same := tiled.toLaid.eq_of_contains found inside' (by simp [whole]) inside
  rw [same, Region.block?, free] at used
  cases used

theorem explains_save (tiled : heap.Tiled) (address : Nat) (value : Value) :
    Explains heap.blocks (.save address value) (heap.respond (.save address value)).1
      (heap.respond (.save address value)).2.blocks := by
  rw [Heap.respond]
  by_cases outside : heap.capacity ≤ address
  · rw [Heap.save, Heap.cellsAt, if_pos outside]
    exact .saveElsewhere value (fun block member => tiled.not_owns_of_le member outside) rfl
  · obtain ⟨before, region, behind, whole, inside, -⟩ := tiled.toLaid.exists_split (Nat.lt_of_not_le outside)
    rw [tiled.save_eq whole inside]
    cases used : region.cells with
    | none => exact .saveElsewhere value (fun block member => tiled.not_owns_of_free whole inside used member) rfl
    | some cells =>
      have block := Region.block?_of_cells used
      have laid := tiled.toLaid
      rw [whole] at laid
      have result : blocksOf (before ++ { region with cells := some (cells.insert address value) } :: behind) =
          insert ((region.blockWith cells).write address value) (heap.blocks \ {region.blockWith cells}) := by
        rw [Heap.blocks, whole, laid.blocksOf_split_diff block]
        exact blocksOf_split (congrArg some (region.blockWith_insert cells address value))
      show Explains heap.blocks (.save address value) .done
        (blocksOf (before ++ { region with cells := some (cells.insert address value) } :: behind))
      rw [result]
      exact .save value ⟨region, by simp [whole], block⟩ ((Region.owns_iff block).2 inside)

theorem explains_load (tiled : heap.Tiled) (address : Nat) :
    Explains heap.blocks (.load address) (heap.respond (.load address)).1 (heap.respond (.load address)).2.blocks := by
  rw [Heap.respond, Heap.load]
  by_cases outside : heap.capacity ≤ address
  · rw [Heap.cellsAt, if_pos outside]
    exact .loadElsewhere (fun block member => tiled.not_owns_of_le member outside) rfl
  · obtain ⟨before, region, behind, whole, inside, -⟩ := tiled.toLaid.exists_split (Nat.lt_of_not_le outside)
    rw [tiled.cellsAt_eq whole inside]
    cases used : region.cells with
    | none => exact .loadElsewhere (fun block member => tiled.not_owns_of_free whole inside used member) rfl
    | some cells =>
      have block := Region.block?_of_cells used
      have live : region.blockWith cells ∈ heap.blocks := ⟨region, by simp [whole], block⟩
      have owned := (Region.owns_iff block).2 inside
      cases kept : cells[address]? with
      | none =>
        simp only [kept]
        exact .loadUnwritten live owned kept rfl
      | some value =>
        simp only [kept]
        exact .load live owned kept

/-- Every call is answered as the live blocks say, and leaves the blocks that they become. -/
theorem explains (tiled : heap.Tiled) (call : Call) :
    Explains heap.blocks call (heap.respond call).1 (heap.respond call).2.blocks := by
  cases call with
  | alloc size => exact tiled.explains_alloc size
  | free address => exact tiled.explains_free address
  | save address value => exact tiled.explains_save address value
  | load address => exact tiled.explains_load address
  | condense =>
    rw [Heap.respond, tiled.condense]
    exact .condense

theorem explains_all (tiled : heap.Tiled) (calls : List Call) :
    ExplainsAll heap.blocks (heap.transcript calls) (heap.after calls).blocks := by
  induction calls generalizing heap with
  | nil => exact .nil heap.blocks
  | cons call rest ih => exact .cons (tiled.explains call) (ih (tiled.respond call).1)

theorem isolated (tiled : heap.Tiled) : Isolated heap.blocks where
  apart := by
    rintro first ⟨region, member, used⟩ second ⟨region', member', used'⟩ address owned owned'
    have same := tiled.toLaid.eq_of_contains member ((Region.owns_iff used).1 owned) member'
      ((Region.owns_iff used').1 owned')
    rw [same, used'] at used
    exact (Option.some.inj used).symm
  inside := by
    rintro block ⟨region, member, used⟩ address value kept
    rw [Region.owns_iff used]
    obtain ⟨cells, inUse, rfl⟩ := Option.map_eq_some_iff.1 used
    exact tiled.written region member cells inUse address
      (Std.TreeMap.mem_iff_isSome_getElem?.2 (Option.isSome_of_eq_some kept))

end Heap.Tiled

theorem Heap.settle_failed {α : Type} {heap : Heap} {outcome : Outcome α} {succeed : α → Heap.Answer × Heap}
    {cause : Cause} (answers : ∀ found, (succeed found).1 ≠ .failed cause)
    (failed : (heap.settle (outcome.map succeed)).1 = .failed cause) :
    (heap.settle (outcome.map succeed)).2 = heap := by
  cases outcome with
  | error cause => rfl
  | ok found => exact absurd failed (answers found)

/-- A call that fails leaves the heap as it is, and not only its blocks. -/
theorem Heap.respond_failed {heap : Heap} {call : Heap.Call} {cause : Cause}
    (failed : (heap.respond call).1 = .failed cause) : (heap.respond call).2 = heap := by
  cases call with
  | alloc size => exact settle_failed (fun _ => nofun) failed
  | free address => exact settle_failed (fun _ => nofun) failed
  | save address value => exact settle_failed (fun _ => nofun) failed
  | load address => exact settle_failed (fun _ => nofun) failed
  | condense => cases failed

theorem Heap.blocks_new (capacity : Nat) : (Heap.new capacity).blocks = ∅ :=
  blocksOf_cons_free rfl [] |>.trans (by simp [blocksOf])

/-- A heap behaves as isolated blocks. Whatever its capacity is and whatever is asked of it, its answers are those of a
set of live blocks, none at first: `alloc` brings a block apart from all others and changes none of them, `free` takes
away the block that begins at the address, `save` and `load` reach the block that owns the address, and what `load`
finds is what was saved there last since that block came to be. A call that fails changes nothing. -/
theorem heap_answers_as_blocks (capacity : Nat) (calls : List Heap.Call) :
    Heap.ExplainsAll ∅ ((Heap.new capacity).transcript calls) ((Heap.new capacity).after calls).blocks ∧
    Heap.Isolated ((Heap.new capacity).after calls).blocks ∧
    ∀ call cause, (((Heap.new capacity).after calls).respond call).1 = .failed cause →
      (((Heap.new capacity).after calls).respond call).2 = (Heap.new capacity).after calls := by
  have tiled := Heap.new_tiled capacity
  refine ⟨?_, (tiled.after calls).1.isolated, fun call cause => Heap.respond_failed⟩
  have all := tiled.explains_all calls
  rwa [Heap.blocks_new] at all

end TapeMachine
