import TapeMachine.Address
import TapeMachine.Proofs.Regions

namespace TapeMachine

variable {before behind : List Region} {size address : Nat} {value : Value}

/-- The state of a heap between two calls: its regions tile the slots in the order of their addresses, none of them
is empty unless the heap is, no two neighbours are free, and what has been written lies in a region in use. -/
structure Heap.Tiled (heap : Heap) : Prop extends Laid heap.capacity heap.regions where
  apart : heap.regions.IsChain Region.Apart

namespace Heap

/-- The first region that contains `address`. -/
def region? (heap : Heap) (address : Nat) : Option Region :=
  heap.regions.find? fun region => region.contains address

/-- What can be asked of a heap. -/
inductive Call
  | alloc (size : Nat)
  | free (address : Nat)
  | save (address : Nat) (value : Value)
  | load (address : Nat)
  | condense

inductive Answer
  | pointer (address : Nat)
  | value (found : Value)
  | done
  | failed (cause : Cause)

/-- The answer to a call whose success leaves another heap. -/
def settle (heap : Heap) : Outcome (Answer × Heap) → Answer × Heap
  | .ok answered => answered
  | .error cause => (.failed cause, heap)

/-- What a heap answers, and the heap behind the call. -/
def respond (heap : Heap) : Call → Answer × Heap
  | .alloc size => heap.settle ((heap.alloc size).map fun (address, next) => (.pointer address, next))
  | .free address => heap.settle ((heap.free address).map fun next => (.done, next))
  | .save address value => heap.settle ((heap.save address value).map fun next => (.done, next))
  | .load address => heap.settle ((heap.load address).map fun value => (.value value, heap))
  | .condense => (.done, { heap with regions := TapeMachine.condense heap.regions })

/-- The heap behind a sequence of calls, those that fail included. -/
def after (heap : Heap) (calls : List Call) : Heap :=
  calls.foldl (fun heap call => (heap.respond call).2) heap

variable {heap next : Heap}

theorem alloc_eq_ok (allocated : heap.alloc size = .ok (address, next)) :
    0 < size ∧ ∃ regions, allocIn size heap.regions = some (address, regions) ∧
      next = { heap with regions := TapeMachine.condense regions } := by
  unfold alloc at allocated
  split at allocated
  · cases allocated
  · rename_i some
    split at allocated
    · rename_i found regions allocatedIn
      cases allocated
      exact ⟨Nat.pos_of_ne_zero some, regions, allocatedIn, rfl⟩
    · cases allocated

theorem free_eq_ok (freed : heap.free address = .ok next) :
    ∃ regions, freeIn address heap.regions = some regions ∧
      next = { heap with regions := TapeMachine.condense regions } := by
  unfold free at freed
  split at freed
  · rename_i regions freedIn
    cases freed
    exact ⟨regions, freedIn, rfl⟩
  · cases freed

theorem cellsAt_eq_ok {place : Nat} {cells : Cells} (found : heap.cellsAt address = .ok (place, cells)) :
    address < heap.capacity ∧ heap.ownerAt? address = some place ∧
      ∃ region, heap.regions[place]? = some region ∧ region.cells = some cells := by
  unfold cellsAt at found
  split at found
  · cases found
  · rename_i below
    split at found
    · rename_i used here
      cases found
      obtain ⟨owner, searched, inUse⟩ := Option.bind_eq_some_iff.1 here
      obtain ⟨_, held, same⟩ := Option.map_eq_some_iff.1 inUse
      cases same
      exact ⟨Nat.lt_of_not_le below, searched, Option.bind_eq_some_iff.1 held⟩
    · cases found

theorem modify_append (write : Region → Region) (before behind : List Region) (region : Region) :
    (before ++ region :: behind).modify before.length write = before ++ write region :: behind := by
  rw [List.modify_eq_take_cons_drop (by simp)]
  simp

/-- Where a value is saved, one region in use has changed, whose place the search has found. -/
theorem save_eq_ok (saved : heap.save address value = .ok next) :
    ∃ before region cells behind, heap.regions = before ++ region :: behind ∧ address < heap.capacity ∧
      heap.ownerAt? address = some before.length ∧ region.cells = some cells ∧
      next = { heap with regions := before ++ { region with cells := some (cells.insert address value) } :: behind } := by
  unfold save at saved
  split at saved
  · rename_i place cells found
    cases saved
    obtain ⟨below, searched, region, there, used⟩ := cellsAt_eq_ok found
    obtain ⟨bound, rfl⟩ := List.getElem?_eq_some_iff.1 there
    have whole : heap.regions = heap.regions.take place ++ heap.regions[place] :: heap.regions.drop (place + 1) := by
      simp
    have length : (heap.regions.take place).length = place := List.length_take_of_le bound.le
    refine ⟨_, _, cells, _, whole, below, searched.trans (congrArg some length.symm), used, ?_⟩
    rw [List.modify_eq_take_cons_drop bound]
  · cases saved

/-- What every save keeps is kept where several values are saved. -/
theorem saveAll_keeps (holds : Heap → Prop) {values : List Value}
    (keeps : ∀ {heap next : Heap} {address : Nat} {value : Value}, holds heap → heap.save address value = .ok next →
      holds next) (before : holds heap) (saved : heap.saveAll address values = .ok next) : holds next := by
  induction values generalizing heap address with
  | nil =>
    cases saved
    exact before
  | cons value rest ih =>
    rw [saveAll] at saved
    split at saved
    · rename_i one written
      exact ih (keeps before written) saved
    · cases saved

theorem new_tiled (capacity : Nat) : (new capacity).Tiled where
  tiles := ⟨rfl, Nat.zero_add capacity⟩
  positive := by
    intro region member
    cases List.mem_singleton.1 member
    rcases Nat.eq_zero_or_pos capacity with empty | positive
    · exact .inr ⟨empty, rfl⟩
    · exact .inl positive
  written := by
    intro region member
    cases List.mem_singleton.1 member
    exact Region.keeps_of_none rfl
  apart := .singleton _

namespace Tiled

/-- Of the places that a search may find, the one before the border is that of the region around the address. -/
theorem ownerAt?_eq (tiled : heap.Tiled) {place : Nat} {region : Region} (found : heap.regions[place]? = some region)
    (inside : region.contains address = true) : heap.ownerAt? address = some place := by
  have bounds := Region.contains_iff.1 inside
  have positive : 0 < heap.capacity := by
    have last := (tiled.tiles.bounds (List.mem_of_getElem? found)).2
    omega
  have finds : Finds heap.regions address (search heap.regions address) :=
    search_finds (tiled.toLaid.ascending positive)
  rw [ownerAt?]
  cases searched : search heap.regions address with
  | ok other =>
    rw [searched] at finds
    obtain ⟨region', found', begins⟩ := finds
    have size := (tiled.positive region' (List.mem_of_getElem? found')).resolve_right (by omega)
    have inside' : region'.contains address = true := Region.contains_iff.2 (by omega)
    exact congrArg some (tiled.toLaid.contains_unique found' inside' found inside)
  | error border =>
    rw [searched] at finds
    obtain ⟨upto, divides⟩ := finds
    have before : place < border := by
      have here := divides place region found
      split at here
      · assumption
      · omega
    cases border with
    | zero => cases before
    | succ last =>
      -- A region behind the owner begins behind the address, so the border cannot lie further on.
      suffices place = last by rw [this]
      by_contra differ
      obtain ⟨bound, here⟩ := List.getElem?_eq_some_iff.1 found
      have order := List.pairwise_iff_getElem.1 tiled.tiles.ordered place last bound (by omega) (by omega)
      have begins := divides last heap.regions[last] (List.getElem?_eq_getElem (by omega))
      rw [if_pos (Nat.lt_succ_self last)] at begins
      rw [here] at order
      omega

/-- Where the search ends, the address is inside the region. -/
theorem contains_of_ownerAt? (tiled : heap.Tiled) (below : address < heap.capacity) {place : Nat} {region : Region}
    (searched : heap.ownerAt? address = some place) (found : heap.regions[place]? = some region) :
    region.contains address = true := by
  obtain ⟨owner, around, there, inside⟩ := tiled.tiles.exists_contains (Nat.zero_le address) below
  cases searched.symm.trans (tiled.ownerAt?_eq there inside)
  cases found.symm.trans there
  exact inside

/-- The cells around an address are those of the region that contains it. -/
theorem cellsAt_eq {region : Region} (tiled : heap.Tiled) (whole : heap.regions = before ++ region :: behind)
    (inside : region.contains address = true) :
    heap.cellsAt address =
      match region.cells with
      | some cells => .ok (before.length, cells)
      | none => .error (.notAllocated address) := by
  have here : heap.regions[before.length]? = some region := by simp [whole]
  have below : ¬heap.capacity ≤ address := by
    have within := Region.contains_iff.1 inside
    have bounds := (tiled.tiles.bounds (List.mem_of_getElem? here)).2
    omega
  rw [cellsAt, if_neg below, tiled.ownerAt?_eq here inside, Option.bind_some, usedAt?, here, Option.bind_some]
  cases region.cells <;> rfl

/-- A value goes into the region that contains the address, if it is in use. -/
theorem save_eq {region : Region} (tiled : heap.Tiled) (whole : heap.regions = before ++ region :: behind)
    (inside : region.contains address = true) (value : Value) :
    heap.save address value =
      match region.cells with
      | some cells =>
        .ok { heap with regions := before ++ { region with cells := some (cells.insert address value) } :: behind }
      | none => .error (.notAllocated address) := by
  rw [save, tiled.cellsAt_eq whole inside]
  cases region.cells with
  | none => rfl
  | some cells => simp only [whole, modify_append]

/-- An allocation makes no free neighbours. -/
theorem apart_of_allocIn (tiled : heap.Tiled) {result : List Region}
    (found : allocIn size heap.regions = some (address, result)) : result.IsChain Region.Apart := by
  obtain ⟨before, region, behind, same, -, free, -, -, rfl⟩ := allocIn_eq_some found
  have apart := tiled.apart
  rw [same, List.isChain_append] at apart
  obtain ⟨first, rest, -⟩ := apart
  have used : ∀ other : Region,
      other.Apart ⟨region.start, size, some ∅⟩ ∧ Region.Apart ⟨region.start, size, some ∅⟩ other :=
    fun other => ⟨by simp [Region.Apart, Region.isFree], by simp [Region.Apart, Region.isFree]⟩
  -- Only what is left of the region can be free, and behind it stands what stood behind the region.
  have last : (region.split size ++ behind).IsChain Region.Apart := by
    unfold Region.split
    rw [List.isChain_cons] at rest
    split
    · refine .cons_cons (used _).2 (List.isChain_cons.2 ⟨?_, rest.2⟩)
      intro other member both
      exact rest.1 other member ⟨free, both.2⟩
    · exact List.isChain_cons.2 ⟨fun other _ => (used other).2, rest.2⟩
  refine List.isChain_append.2 ⟨first, last, ?_⟩
  intro other _ head member
  cases Option.some.inj member
  exact (used other).1

/-- Behind an allocation there is nothing to condense. -/
theorem alloc_eq (tiled : heap.Tiled) (allocated : heap.alloc size = .ok (address, next)) :
    ∃ regions, allocIn size heap.regions = some (address, regions) ∧ next = { heap with regions } := by
  obtain ⟨-, regions, found, rfl⟩ := alloc_eq_ok allocated
  exact ⟨regions, found, by rw [condense_of_apart (tiled.apart_of_allocIn found)]⟩

theorem alloc (tiled : heap.Tiled) (allocated : heap.alloc size = .ok (address, next)) : next.Tiled := by
  obtain ⟨positive, regions, found, rfl⟩ := alloc_eq_ok allocated
  exact ⟨(tiled.toLaid.allocIn positive found).condense, condense_apart regions⟩

theorem free (tiled : heap.Tiled) (freed : heap.free address = .ok next) : next.Tiled := by
  obtain ⟨regions, found, rfl⟩ := free_eq_ok freed
  exact ⟨(tiled.toLaid.freeIn found).condense, condense_apart regions⟩

theorem save (tiled : heap.Tiled) (saved : heap.save address value = .ok next) : next.Tiled := by
  obtain ⟨before, region, cells, behind, whole, below, searched, used, rfl⟩ := save_eq_ok saved
  have here : heap.regions[before.length]? = some region := by simp [whole]
  have inside := tiled.contains_of_ownerAt? below searched here
  have laid := tiled.toLaid
  rw [whole] at laid
  refine ⟨laid.write inside used value, ?_⟩
  have free : (before ++ { region with cells := some (cells.insert address value) } :: behind).map Region.isFree =
      heap.regions.map Region.isFree := by
    simp [whole, Region.isFree, used]
  rw [apart_iff_map, free, ← apart_iff_map]
  exact tiled.apart

theorem saveAll {values : List Value} (tiled : heap.Tiled) (saved : heap.saveAll address values = .ok next) :
    next.Tiled :=
  saveAll_keeps Tiled (fun tiled saved => tiled.save saved) tiled saved

theorem condense (tiled : heap.Tiled) : { heap with regions := TapeMachine.condense heap.regions } = heap := by
  rw [condense_of_apart tiled.apart]

/-- No call breaks the tiling. -/
theorem respond (tiled : heap.Tiled) (call : Call) :
    (heap.respond call).2.Tiled ∧ (heap.respond call).2.capacity = heap.capacity := by
  cases call with
  | alloc size =>
    rw [Heap.respond]
    cases allocated : heap.alloc size with
    | error cause => exact ⟨tiled, rfl⟩
    | ok found =>
      obtain ⟨address, next⟩ := found
      have next_tiled := tiled.alloc allocated
      obtain ⟨-, regions, -, rfl⟩ := alloc_eq_ok allocated
      exact ⟨next_tiled, rfl⟩
  | free address =>
    rw [Heap.respond]
    cases freed : heap.free address with
    | error cause => exact ⟨tiled, rfl⟩
    | ok next =>
      have next_tiled := tiled.free freed
      obtain ⟨regions, -, rfl⟩ := free_eq_ok freed
      exact ⟨next_tiled, rfl⟩
  | save address value =>
    rw [Heap.respond]
    cases saved : heap.save address value with
    | error cause => exact ⟨tiled, rfl⟩
    | ok next =>
      have next_tiled := tiled.save saved
      obtain ⟨before, region, cells, behind, -, -, -, -, rfl⟩ := save_eq_ok saved
      exact ⟨next_tiled, rfl⟩
  | load address =>
    rw [Heap.respond]
    cases heap.load address with
    | error cause => exact ⟨tiled, rfl⟩
    | ok found => exact ⟨tiled, rfl⟩
  | condense =>
    rw [Heap.respond, tiled.condense]
    exact ⟨tiled, rfl⟩

theorem after (tiled : heap.Tiled) (calls : List Call) :
    (heap.after calls).Tiled ∧ (heap.after calls).capacity = heap.capacity := by
  induction calls generalizing heap with
  | nil => exact ⟨tiled, rfl⟩
  | cons call rest ih =>
    obtain ⟨next, same⟩ := tiled.respond call
    obtain ⟨last, same'⟩ := ih next
    exact ⟨last, same'.trans same⟩

/-- An address of the heap lies in one region, which the search by halving and the search from the left both find. -/
theorem owner (tiled : heap.Tiled) (below : address < heap.capacity) :
    ∃ place region, heap.ownerAt? address = some place ∧ heap.regions[place]? = some region ∧
      heap.region? address = some region ∧ region.contains address = true := by
  obtain ⟨place, region, found, inside⟩ := tiled.tiles.exists_contains (Nat.zero_le address) below
  exact ⟨place, region, tiled.ownerAt?_eq found inside, found, tiled.toLaid.find?_eq found inside, inside⟩

end Tiled

end Heap

/-- The regions of a heap stay in order. Whatever the capacity is and whatever has been asked of a heap, also in vain,
its regions tile the slots in the order of their addresses; they are not empty unless the heap has no slots at all; no
two neighbours are free; and what has been written lies in a region in use. Therefore no region of a heap whose slots
have addresses ends behind the last address; and for every slot the search by halving, which looks one place before the
border that it finds, comes to a region that is there and contains the slot. -/
theorem heap_stays_tiled (capacity : Nat) (calls : List Heap.Call) :
    ((Heap.new capacity).after calls).capacity = capacity ∧
    Tiles 0 capacity ((Heap.new capacity).after calls).regions ∧
    (0 < capacity → ∀ region ∈ ((Heap.new capacity).after calls).regions, 0 < region.size) ∧
    ((Heap.new capacity).after calls).regions.IsChain Region.Apart ∧
    (∀ region ∈ ((Heap.new capacity).after calls).regions, region.Keeps) ∧
    (capacity < addressLimit → ∀ region ∈ ((Heap.new capacity).after calls).regions,
      region.start + region.size < addressLimit) ∧
    ∀ address < capacity, ∃ place region, ((Heap.new capacity).after calls).ownerAt? address = some place ∧
      ((Heap.new capacity).after calls).regions[place]? = some region ∧
      ((Heap.new capacity).after calls).region? address = some region ∧ region.contains address = true := by
  obtain ⟨tiled, same⟩ := (Heap.new_tiled capacity).after calls
  generalize (Heap.new capacity).after calls = heap at tiled same
  have same : heap.capacity = capacity := same
  subst same
  refine ⟨rfl, tiled.tiles, ?_, tiled.apart, tiled.written, ?_, fun address below => tiled.owner below⟩
  · intro positive region member
    exact (tiled.positive region member).resolve_right (by omega)
  · intro limited region member
    have last := (tiled.tiles.bounds member).2
    omega

end TapeMachine
