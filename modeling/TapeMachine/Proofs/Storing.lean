import TapeMachine.Proofs.Coalescing
import TapeMachine.Proofs.Congruence
import TapeMachine.Proofs.Operands
import TapeMachine.Proofs.Vacancy

namespace TapeMachine

variable {front behind rest : List Region} {start size address : Nat}

/-- The cells with values in the slots from `address` on. -/
def Cells.put (cells : Cells) (address : Nat) : List Value → Cells
  | [] => cells
  | value :: rest => put (cells.insert address value) (address + 1) rest

theorem Cells.getElem?_put (cells : Cells) (first address : Nat) (values : List Value) :
    (cells.put first values)[address]? =
      if first ≤ address ∧ address < first + values.length then values[address - first]? else cells[address]? := by
  induction values generalizing cells first with
  | nil => rw [put, if_neg (by simp)]
  | cons value rest ih =>
    rw [put, ih, Std.TreeMap.getElem?_insert, List.length_cons]
    by_cases here : first = address
    · have before : ¬(first + 1 ≤ address ∧ address < first + 1 + rest.length) := by omega
      have inside : first ≤ address ∧ address < first + (rest.length + 1) := by omega
      rw [if_neg before, if_pos inside, if_pos (Nat.compare_eq_eq.2 here), here, Nat.sub_self]
      rfl
    · have same : (first + 1 ≤ address ∧ address < first + 1 + rest.length) ↔
          (first ≤ address ∧ address < first + (rest.length + 1)) := by omega
      rw [if_neg (mt Nat.compare_eq_eq.1 here)]
      by_cases inside : first ≤ address ∧ address < first + (rest.length + 1)
      · have later : address - first = address - (first + 1) + 1 := by omega
        rw [if_pos (same.2 inside), if_pos inside, later, List.getElem?_cons_succ]
      · rw [if_neg (mt same.1 inside), if_neg inside]

/-- The cells of the first region around an address. -/
def cellsIn (address : Nat) (regions : List Region) : Option Cells :=
  (regions.find? fun region => region.contains address).bind Region.cells

theorem cellsIn_append (outside : ∀ region ∈ front, region.contains address = false) :
    cellsIn address (front ++ rest) = cellsIn address rest := by
  have none := List.find?_eq_none.2 fun region member => Bool.not_eq_true _ ▸ outside region member
  rw [cellsIn, List.find?_append, none, Option.none_or, cellsIn]

theorem cellsIn_append_congr {β : Type} (view : Option Cells → β)
    (same : view (cellsIn address rest) = view (cellsIn address behind)) :
    view (cellsIn address (front ++ rest)) = view (cellsIn address (front ++ behind)) := by
  rw [cellsIn, cellsIn, List.find?_append, List.find?_append]
  cases front.find? fun region => region.contains address with
  | some region => rfl
  | none => exact same

theorem cellsIn_cons {region : Region} :
    cellsIn address (region :: rest) = if region.contains address then region.cells else cellsIn address rest := by
  rw [cellsIn, List.find?_cons]
  cases region.contains address <;> rfl

/-- A free region may as well be shorter, if what is left of it stays free. -/
theorem cellsIn_shorter {count : Nat} (elsewhere : address < start ∨ start + count ≤ address) :
    cellsIn address ((if count < size then [⟨start + count, size - count, none⟩] else []) ++ behind) =
      cellsIn address (⟨start, size, none⟩ :: behind) := by
  have contains : ∀ first length, (⟨first, length, none⟩ : Region).contains address = true ↔
      first ≤ address ∧ address < first + length := fun _ _ => Region.contains_iff
  rw [cellsIn_cons]
  split
  · rw [List.singleton_append, cellsIn_cons]
    by_cases inside : start ≤ address ∧ address < start + size
    · rw [if_pos ((contains _ _).2 inside), if_pos ((contains _ _).2 (by omega))]
    · rw [if_neg (mt (contains _ _).1 inside), if_neg (mt (contains _ _).1 (by omega))]
  · rw [List.nil_append, if_neg (mt (contains _ _).1 (by omega))]

namespace Heap

variable {heap next stored : Heap} {values : List Value}

theorem saveAll_eq_foldlM (heap : Heap) (address : Nat) (values : List Value) :
    heap.saveAll address values =
      ((values.zipIdx address).map Prod.swap).foldlM (fun heap save => heap.save save.1 save.2) heap := by
  induction values generalizing heap address with
  | nil => rfl
  | cons value rest ih =>
    rw [saveAll, List.zipIdx_cons, List.map_cons, List.foldlM_cons]
    cases saved : heap.save address value with
    | ok next =>
      rw [Prod.swap_prod_mk, saved]
      exact ih next (address + 1)
    | error cause =>
      rw [Prod.swap_prod_mk, saved]
      rfl

/-- Values for slots of one region in use all go into its cells. -/
theorem Tiled.saveAll_of_region (tiled : heap.Tiled) (cells : Cells) (values : List Value)
    (whole : heap.regions = front ++ ⟨start, size, some cells⟩ :: behind) (lower : start ≤ address)
    (upper : address + values.length ≤ start + size) :
    heap.saveAll address values =
      .ok { heap with regions := front ++ ⟨start, size, some (cells.put address values)⟩ :: behind } := by
  induction values generalizing heap cells address with
  | nil => rw [Heap.saveAll, Cells.put, ← whole]
  | cons value rest ih =>
    rw [List.length_cons] at upper
    have saved : heap.save address value =
        .ok { heap with regions := front ++ ⟨start, size, some (cells.insert address value)⟩ :: behind } := by
      rw [tiled.save_eq whole (Region.contains_iff.2 ⟨lower, show address < start + size by omega⟩)]
    rw [Heap.saveAll, saved]
    exact ih (tiled.save saved) _ rfl (by omega) (by omega)

/-- `stored` is `heap` with the values in new slots from `start` on. A free region has made way for a region of just
these slots, what is left of it is still free, and all other regions are the same; the slots hold the values, and all
other slots are what they were; once the region is freed, the heap is back. -/
structure Stores (heap stored : Heap) (start : Nat) (values : List Value) : Prop where
  capacity : stored.capacity = heap.capacity
  regions : ∃ front size cells behind, heap.regions = front ++ ⟨start, size, none⟩ :: behind ∧ values.length ≤ size ∧
    stored.regions = front ++ ⟨start, values.length, some cells⟩ ::
      ((if values.length < size then [⟨start + values.length, size - values.length, none⟩] else []) ++ behind)
  inside : ∀ place value, values[place]? = some value → stored.load (start + place) = .ok value
  outside : ∀ address, address < start ∨ start + values.length ≤ address → stored.load address = heap.load address
  freed : stored.free start = .ok heap

theorem Tiled.load_eq (tiled : heap.Tiled) (address : Nat) :
    heap.load address = if heap.capacity ≤ address then .error (.outsideHeap address heap.capacity)
      else match (cellsIn address heap.regions).map (·[address]?) with
        | some (some value) => .ok value
        | some none => .error (.neverWritten address)
        | none => .error (.notAllocated address) := by
  by_cases outside : heap.capacity ≤ address
  · simp only [load, cellsAt, if_pos outside]
  · obtain ⟨before, region, behind, whole, inside, others⟩ := tiled.toLaid.exists_split (Nat.lt_of_not_le outside)
    have cells : cellsIn address heap.regions = region.cells := by
      rw [whole, cellsIn_append fun other member => others other (List.mem_append_left _ member), cellsIn_cons,
        if_pos inside]
    rw [load, tiled.cellsAt_eq whole inside, if_neg outside, cells]
    cases region.cells with
    | none => rfl
    | some cells =>
      simp only [Option.map_some]
      cases cells[address]? <;> rfl

/-- What is loaded depends on what the cells of the region around the place hold there, and on nothing else. -/
theorem Tiled.load_congr (tiled : heap.Tiled) (tiled' : next.Tiled) (same : next.capacity = heap.capacity)
    (cells : (cellsIn address next.regions).map (·[address]?) = (cellsIn address heap.regions).map (·[address]?)) :
    next.load address = heap.load address := by
  rw [tiled.load_eq, tiled'.load_eq, same, cells]

theorem Tiled.load_of_cells {value : Value} (tiled : heap.Tiled) (below : address < heap.capacity)
    (found : (cellsIn address heap.regions).map (·[address]?) = some (some value)) :
    heap.load address = .ok value := by
  rw [tiled.load_eq, if_neg (Nat.not_le.2 below), found]

/-- Values find room in a region that has been allocated for as many. -/
theorem Tiled.stores_of_alloc (tiled : heap.Tiled) (allocated : heap.alloc values.length = .ok (start, next)) :
    ∃ stored, next.saveAll start values = .ok stored ∧ heap.Stores stored start values := by
  have next_tiled := tiled.alloc allocated
  have allocated' := allocated
  have positive := (alloc_eq_ok allocated).1
  obtain ⟨regions, found, rfl⟩ := tiled.alloc_eq allocated
  obtain ⟨front, ⟨first, size, none'⟩, behind, whole, -, free, enough, begins, rfl⟩ := allocIn_eq_some found
  obtain rfl : none' = none := Region.isFree_iff.1 free
  obtain rfl : first = start := begins
  change values.length ≤ size at enough
  have bounds := tiled.tiles.bounds (show (⟨first, size, none⟩ : Region) ∈ heap.regions by simp [whole])
  have below : first + size ≤ heap.capacity := bounds.2
  have before : ∀ other ∈ front, ∀ place, first ≤ place → place < first + values.length →
      other.contains place = false := by
    intro other member place lower upper
    have ordered := tiled.tiles.ordered
    rw [whole, List.pairwise_append] at ordered
    have apart : other.start + other.size ≤ first := ordered.2.2 other member _ List.mem_cons_self
    rw [← Bool.not_eq_true, Region.contains_iff]
    omega
  have saved := next_tiled.saveAll_of_region ∅ values rfl (Nat.le_refl _) (Nat.le_refl _)
  have stored_tiled := next_tiled.saveAll saved
  refine ⟨_, saved, rfl, ⟨front, size, _, behind, whole, enough, rfl⟩, ?_, ?_, ?_⟩
  · intro place value there
    obtain ⟨bound, -⟩ := List.getElem?_eq_some_iff.1 there
    refine stored_tiled.load_of_cells (show first + place < heap.capacity by omega) ?_
    rw [cellsIn_append fun other member => before other member _ (by omega) (by omega), cellsIn_cons,
      if_pos (Region.contains_iff.2 ⟨Nat.le_add_right _ _, Nat.add_lt_add_left bound _⟩), Option.map_some,
      Cells.getElem?_put, if_pos ⟨Nat.le_add_right _ _, Nat.add_lt_add_left bound _⟩, Nat.add_sub_cancel_left, there]
  · intro address elsewhere
    refine tiled.load_congr stored_tiled rfl ?_
    rw [whole]
    refine cellsIn_append_congr _ ?_
    have new : (⟨first, values.length, some ((∅ : Cells).put first values)⟩ : Region).contains address = false := by
      rw [← Bool.not_eq_true, Region.contains_iff]
      show ¬(first ≤ address ∧ address < first + values.length)
      omega
    rw [cellsIn_cons, new, if_neg Bool.false_ne_true]
    exact congrArg _ (cellsIn_shorter elsewhere)
  · have room : 0 < heap.capacity := by omega
    have within : ∀ save ∈ (values.zipIdx first).map Prod.swap, first ≤ save.1 ∧ save.1 < first + values.length := by
      intro save member
      obtain ⟨⟨value, place⟩, listed, rfl⟩ := List.mem_map.1 member
      have bounds := List.mem_zipIdx listed
      exact ⟨bounds.1, bounds.2.1⟩
    obtain ⟨written, writes, freed⟩ := tiled.free_after_alloc room allocated' within
    rw [← saveAll_eq_foldlM, saved] at writes
    cases writes
    exact freed

end Heap

/-- The characters of a text, each of them a string of its own. -/
def singles (text : String) : List String :=
  text.toList.map String.singleton

theorem join_singles (text : String) : String.join (singles text) = text := by
  rw [← String.toList_inj, singles, String.toList_join, List.flatMap_map]
  simp

theorem length_singles (text : String) : (singles text).length = text.length := by
  rw [singles, List.length_map, String.length_toList]

theorem length_of_mem_singles {text single : String} (member : single ∈ singles text) : single.length = 1 := by
  obtain ⟨c, -, rfl⟩ := List.mem_map.1 member
  exact String.length_singleton

namespace Builtin

variable {heap next : Heap} {text : String} {cause : Cause}

theorem storeCells_eq (text : String) (heap : Heap) :
    storeCells text heap =
      match heap.alloc text.length with
      | .ok (address, next) => (next.saveAll address ((singles text).map .string)).map fun stored =>
        { results := [.pointer address, .number (.ofNat text.length)], heap := stored }
      | .error cause => .error cause := by
  have cells : (text.toList.map fun c => Value.string c.toString) = (singles text).map .string := by
    rw [singles, List.map_map]
    rfl
  have count : ((singles text).map Value.string).length = text.length := by rw [List.length_map, length_singles]
  cases outcome : heap.alloc text.length <;> simp only [storeCells, cells, count, outcome]

/-- A text goes into a region that is allocated for it. -/
theorem storeCells_of_alloc (tiled : heap.Tiled) (allocated : heap.alloc text.length = .ok (start, next)) :
    ∃ stored, storeCells text heap =
        .ok { results := [.pointer start, .number (.ofNat text.length)], heap := stored } ∧
      heap.Stores stored start ((singles text).map .string) := by
  have count : ((singles text).map Value.string).length = text.length := by rw [List.length_map, length_singles]
  obtain ⟨stored, saved, stores⟩ := tiled.stores_of_alloc (count.symm ▸ allocated)
  refine ⟨stored, ?_, stores⟩
  rw [storeCells_eq, allocated]
  simp only [saved]
  rfl

theorem storeCells_of_refused (refused : heap.alloc text.length = .error cause) :
    storeCells text heap = .error cause := by
  rw [storeCells_eq, refused]

end Builtin

/-- Strings are stored faithfully. Whatever has been asked of a heap before, `str2countstr` succeeds on a text if the
text is not empty and there are as many slots in a row as it has characters. It leaves the pointer to the first one of
them and their number in place of the text; the slots hold the characters one after the other, nothing else has
changed, and once the region is freed the heap is what it was. Otherwise it fails: on the empty text, since there is no
region of no slots, or since there is no memory left; and the heap stays as it is. -/
theorem strings_are_stored_faithfully {capacity : Nat} (addressable : capacity < addressLimit) {calls : List Heap.Call}
    {heap : Heap} (reached : (Heap.new capacity).after calls = heap) (text : String) {below : Stack Value}
    (room : below.size + 1 ≤ 65534) :
    (String.join (singles text) = text ∧ (singles text).length = text.length ∧
      ∀ single ∈ singles text, single.length = 1) ∧
    ((1 ≤ text.length ∧ ∃ start, heap.Vacant start text.length) →
      ∃ start n stored, Builtin.stringToCells.call (below.storeAll [.string text]) heap =
          (.ok .continue, below.storeAll [.pointer start, .number n], stored) ∧
        n.value = text.length ∧ heap.Stores stored start ((singles text).map .string)) ∧
    (¬(1 ≤ text.length ∧ ∃ start, heap.Vacant start text.length) →
      ∃ cause, Builtin.stringToCells.call (below.storeAll [.string text]) heap = (.error cause, below, heap) ∧
        cause.code = if text.length = 0 then .invalidAllocation else .outOfMemory) := by
  obtain ⟨tiled, same⟩ := (Heap.new_tiled capacity).after calls
  rw [reached] at tiled same
  have whole : heap.capacity = capacity := same
  have room' : below.size + 2 ≤ 65535 := Nat.succ_le_succ room
  have performs : Builtin.stringToCells.perform [.string text] heap = Builtin.storeCells text heap := rfl
  refine ⟨⟨join_singles text, length_singles text, fun _ => length_of_mem_singles⟩, ?_, ?_⟩
  · rintro ⟨some, start, vacant⟩
    rcases tiled.alloc_cases some with ⟨address, next, allocated, -⟩ | ⟨-, none⟩
    · obtain ⟨stored, stores, stands⟩ := Builtin.storeCells_of_alloc tiled allocated
      have small : text.length < mantissaLimit := by
        have below := vacant.below
        have limits : addressLimit < mantissaLimit := by decide
        omega
      refine ⟨address, _, stored, ?_, Decimal.value_ofNat small, stands⟩
      exact Builtin.call_of_performed (by decide) rfl (performs.trans stores) room'
    · exact (none start vacant).elim
  · intro full
    have refused : ∃ cause, heap.alloc text.length = .error cause ∧
        cause.code = if text.length = 0 then .invalidAllocation else .outOfMemory := by
      by_cases empty : text.length = 0
      · exact ⟨.emptyRegion, by rw [Heap.alloc, if_pos empty], by rw [if_pos empty]; rfl⟩
      · rcases tiled.alloc_cases (Nat.pos_of_ne_zero empty) with ⟨address, next, -, least⟩ | ⟨refused, -⟩
        · exact (full ⟨Nat.pos_of_ne_zero empty, address, least.1⟩).elim
        · exact ⟨_, refused, by rw [if_neg empty]; rfl⟩
    obtain ⟨cause, refused, code⟩ := refused
    have failed := performs.trans (Builtin.storeCells_of_refused refused)
    exact ⟨cause, Builtin.call_of_refused (by decide) rfl failed below, code⟩

/-- A hole of five slots is filled by a text of five characters, and is there again once they are freed. -/
theorem hello_stored :
    20 < addressLimit ∧ ((Heap.new 20).after [.alloc 3, .alloc 5, .alloc 2, .free 3]).Vacant 3 5 ∧
    ∃ start n stored, Builtin.stringToCells.call (Stack.storeAll { label := "" } [.string "héllo"])
        ((Heap.new 20).after [.alloc 3, .alloc 5, .alloc 2, .free 3]) =
          (.ok .continue, Stack.storeAll { label := "" } [.pointer start, .number n], stored) ∧
      n.value = 5 ∧ stored.load (start + 1) = .ok (.string "é") ∧
      stored.free start = .ok ((Heap.new 20).after [.alloc 3, .alloc 5, .alloc 2, .free 3]) := by
  have used : ((Heap.new 20).after [.alloc 3, .alloc 5, .alloc 2, .free 3]).usedRegions =
      [⟨0, 3, some ∅⟩, ⟨8, 2, some ∅⟩] := by cbv
  have vacant : ((Heap.new 20).after [.alloc 3, .alloc 5, .alloc 2, .free 3]).Vacant 3 5 := by
    refine ⟨by cbv, fun address lower upper region member => ?_⟩
    rw [← Bool.not_eq_true, Region.contains_iff]
    rw [used] at member
    fin_cases member
    · show ¬(0 ≤ address ∧ address < 0 + 3)
      omega
    · show ¬(8 ≤ address ∧ address < 8 + 2)
      omega
  obtain ⟨start, n, stored, called, count, stores⟩ := (strings_are_stored_faithfully (by decide) rfl "héllo"
    (show Stack.size { label := "" } + 1 ≤ 65534 by decide)).2.1 ⟨by decide, 3, vacant⟩
  exact ⟨by decide, vacant, start, n, stored, called, count, stores.inside 1 _ rfl, stores.freed⟩

end TapeMachine
