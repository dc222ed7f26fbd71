import TapeMachine.Proofs.Passage
import TapeMachine.Proofs.Pointers
import TapeMachine.Proofs.Storing

namespace TapeMachine

/-- Where a region is, how large it is, and whether it is free. -/
def Region.shape (region : Region) : Nat × Nat × Bool :=
  (region.start, region.size, region.isFree)

namespace Heap

variable {heap copy next : Heap} {region : Region} {address source target count place : Nat} {value : Value}

/-- `next` is `heap` with a value in one slot. -/
structure Writes (heap next : Heap) (address : Nat) (value : Value) : Prop where
  capacity : next.capacity = heap.capacity
  regions : next.regions.map Region.shape = heap.regions.map Region.shape
  here : next.load address = .ok value
  elsewhere : ∀ other, other ≠ address → next.load other = heap.load other

/-- A slot of a region in use can be written. -/
theorem Tiled.writes_of_used (tiled : heap.Tiled) (member : region ∈ heap.usedRegions)
    (inside : region.contains address = true) (value : Value) :
    ∃ next, heap.save address value = .ok next ∧ next.Tiled ∧ heap.Writes next address value := by
  obtain ⟨before, cells, behind, whole, used, others, below, saved⟩ := tiled.save_split member inside value
  have earlier : ∀ other ∈ before, other.contains address = false :=
    fun other found => others other (List.mem_append_left _ found)
  have next_tiled := tiled.save saved
  refine ⟨_, saved, next_tiled, rfl, ?_, ?_, fun other apart => tiled.load_congr next_tiled rfl ?_⟩
  · have same : Region.shape { region with cells := some (cells.insert address value) } = region.shape := by
      simp [Region.shape, Region.isFree, used]
    rw [whole, List.map_append, List.map_append, List.map_cons, List.map_cons, same]
  · have contains : Region.contains { region with cells := some (cells.insert address value) } address = true := inside
    refine next_tiled.load_of_cells below ?_
    rw [cellsIn_append earlier, cellsIn_cons, if_pos contains, Option.map_some, Std.TreeMap.getElem?_insert_self]
  · rw [whole]
    refine cellsIn_append_congr _ ?_
    have contains : Region.contains { region with cells := some (cells.insert address value) } other =
      region.contains other := rfl
    rw [cellsIn_cons, cellsIn_cons, contains]
    split
    · have kept : (cells.insert address value)[other]? = cells[other]? := by
        rw [Std.TreeMap.getElem?_insert, if_neg (mt Nat.compare_eq_eq.1 apart.symm)]
      rw [used, Option.map_some, Option.map_some, kept]
    · rfl

/-- `copy` is `heap` with as many slots from `target` on as are counted holding what those from `source` on hold. The
regions are the same, and so are all other slots. -/
structure Copied (heap copy : Heap) (source target count : Nat) : Prop where
  capacity : copy.capacity = heap.capacity
  regions : copy.regions.map Region.shape = heap.regions.map Region.shape
  copied : ∀ place < count, copy.load (target + place) = heap.load (source + place)
  elsewhere : ∀ address, address < target ∨ target + count ≤ address → copy.load address = heap.load address

theorem Copied.none (heap : Heap) (source target : Nat) : heap.Copied heap source target 0 :=
  ⟨rfl, rfl, nofun, fun _ _ => rfl⟩

/-- One more slot is copied. -/
theorem Copied.succ (copied : heap.Copied copy source target count) (loaded : heap.load (source + count) = .ok value)
    (writes : copy.Writes next (target + count) value) : heap.Copied next source target (count + 1) where
  capacity := writes.capacity.trans copied.capacity
  regions := writes.regions.trans copied.regions
  copied place below := by
    rcases Nat.lt_succ_iff_lt_or_eq.1 below with earlier | rfl
    · rw [writes.elsewhere _ (by omega), copied.copied place earlier]
    · rw [writes.here, loaded]
  elsewhere address outside := by
    rw [writes.elsewhere _ (by omega), copied.elsewhere address (by omega)]

/-- A region that is in use is also in use in a heap with the same regions. -/
theorem used_of_shape (same : copy.regions.map Region.shape = heap.regions.map Region.shape)
    (used : ∃ region ∈ heap.usedRegions, region.contains address = true) :
    ∃ region ∈ copy.usedRegions, region.contains address = true := by
  obtain ⟨region, member, inside⟩ := used
  obtain ⟨found, inUse⟩ := mem_usedRegions.1 member
  have listed : region.shape ∈ copy.regions.map Region.shape := by
    rw [same]
    exact List.mem_map_of_mem found
  obtain ⟨other, found', same'⟩ := List.mem_map.1 listed
  simp only [Region.shape, Prod.mk.injEq] at same'
  obtain ⟨start, size, free⟩ := same'
  refine ⟨other, mem_usedRegions.2 ⟨found', free.trans inUse⟩, ?_⟩
  rw [Region.contains, start, size]
  exact inside

theorem lt_of_load (loaded : heap.load address = .ok value) : address < heap.capacity := by
  unfold load at loaded
  split at loaded
  · rename_i place cells found
    exact (cellsAt_eq_ok found).1
  · cases loaded

theorem Tiled.lt_of_used (tiled : heap.Tiled) (used : ∃ region ∈ heap.usedRegions, region.contains address = true) :
    address < heap.capacity := by
  obtain ⟨region, member, inside⟩ := used
  have bounds := tiled.tiles.bounds (mem_usedRegions.1 member).1
  have within := Region.contains_iff.1 inside
  omega

/-- A slot of the block can be read, and the one that it is copied to can be written. -/
structure Copyable (heap : Heap) (source target count : Nat) : Prop where
  written : ∀ place < count, ∃ value, heap.load (source + place) = .ok value
  owned : ∀ place < count, ∃ region ∈ heap.usedRegions, region.contains (target + place) = true
  apart : ∀ place < count, ∀ other < count, source + place ≠ target + other

/-- While not all slots of a block are copied, the next one can be. -/
theorem Copied.onward (copied : heap.Copied copy source target place) (tiled : copy.Tiled)
    (copyable : heap.Copyable source target count) (more : place < count) :
    ∃ value next, copy.load (source + place) = .ok value ∧ copy.save (target + place) value = .ok next ∧ next.Tiled ∧
      heap.Copied next source target (place + 1) := by
  obtain ⟨value, loaded⟩ := copyable.written place more
  obtain ⟨region, member, inside⟩ := used_of_shape copied.regions (copyable.owned place more)
  obtain ⟨next, saved, next_tiled, writes⟩ := tiled.writes_of_used member inside value
  have outside : source + place < target ∨ target + place ≤ source + place := by
    by_contra within
    have apart := copyable.apart place more (source + place - target) (by omega)
    omega
  exact ⟨value, next, (copied.elsewhere _ outside).trans loaded, saved, next_tiled, copied.succ loaded writes⟩

end Heap

namespace Decimal

theorem lt_iff_value {a b : Decimal} : a.lt b = true ↔ a.value < b.value := by
  rw [lt, compare_eq_compare_value, beq_iff_eq, compare_lt_iff_lt]

/-- The next natural number. -/
theorem add_one_of_natural {d : Decimal} {n : Nat} (natural : d.value = n) (small : n + 1 < mantissaLimit) :
    ∃ next, d.add? .one = some next ∧ next.value = (n + 1 : Nat) := by
  have sum := value_add d .one
  rw [natural, one, value_ofNat (by decide), ← Nat.cast_add, rounded_natCast small] at sum
  exact Option.map_eq_some_iff.1 sum

end Decimal

/-- The test of the loop in `memcopy`, in the file of this number. -/
def copyTest (file : Nat) : List Item :=
  let here (start stop : Nat) : Location := ⟨file, start, stop⟩
  [.word (here 239 242) Builtin.dup.name, .word (here 243 248) "count", .word (here 249 250) Builtin.less.name]

/-- What a turn of the loop does once the number of the slot has a name. -/
def copyTurn (file : Nat) : List Item :=
  let here (start stop : Nat) : Location := ⟨file, start, stop⟩
  [.word (here 275 279) "from", .word (here 280 281) "i", .word (here 282 286) Builtin.offset.name,
    .word (here 287 294) Builtin.load.name, .word (here 295 297) "to", .word (here 298 299) "i",
    .word (here 300 304) Builtin.offset.name, .word (here 305 312) Builtin.save.name, .word (here 313 314) "i",
    .number (here 315 316) .one, .word (here 317 318) Builtin.add.name]

/-- What is done once the operands have names. -/
def copyBlock (file : Nat) : List Item :=
  let here (start stop : Nat) : Location := ⟨file, start, stop⟩
  [.number (here 231 232) .zero,
    .loop (here 233 238) (copyTest file) (here 251 253)
      [.bind (here 266 269) ["i"] (copyTurn file) (here 319 322)] (here 331 334),
    .word (here 343 347) Builtin.drop.name]

def copyBody (file : Nat) : List Item :=
  [.bind ⟨file, 202, 205⟩ ["from", "to", "count"] (copyBlock file) ⟨file, 352, 355⟩]

set_option maxRecDepth 10000 in
theorem definitionOf_memcopy (file : Nat) :
    (Assembly.keptProgram file Library.bundledMem).bind (definitionOf "memcopy") =
      some (⟨file, 176, 178⟩, copyBody file) := by
  rw [show Library.bundledMem = String.ofList _ from rfl, Assembly.keptProgram_ofList]
  cbv

section

variable {functions : Dictionary Callable} {file : Nat} {below : Stack Value} {bindings : Scope Value}
  {heap copy : Heap} {p q n turn reads writes : Nat} {count d next : Decimal} {value : Value}

/-- The test compares the number of the slot with the number of slots. -/
theorem copyTest_decides (builtins : ∀ word : Builtin, functions.get? word.name = some (.builtin word))
    (absent : functions.get? "count" = none) (bound : bindings.get? "count" = some (.number count))
    (room : below.size + 3 ≤ Stack.limit) :
    ∃ m, Does.Decides functions (copyTest file) ⟨below.storeAll [.number d], bindings, heap⟩ m
      ⟨below.storeAll [.number d], bindings, heap⟩ ∧ (m.isZero = true ↔ count.value ≤ d.value) := by
  refine ⟨if d.lt count then .one else .zero, ⟨_, ?_, Store.takeNumber_store (below.storeAll [.number d]) _ _ _⟩, ?_⟩
  · refine .dups (builtins .dup) (by omega) ?_
    refine .fetches absent bound (show below.size + 1 + 1 < _ by omega) ?_
    exact .performs (below.storeAll [.number d]) [.number d, .number count] (builtins .less) (by decide) rfl rfl rfl
      (show below.size + 1 + 1 ≤ _ by omega) .nil
  · rw [← not_lt, ← Decimal.lt_iff_value]
    cases d.lt count <;> decide

/-- Once the number of the slot has a name, the slot is copied, and the next number is left. -/
theorem copyTurn_does (builtins : ∀ word : Builtin, functions.get? word.name = some (.builtin word))
    (absent : ∀ name ∈ ["from", "to", "count", "i"], functions.get? name = none)
    (source : bindings.get? "from" = some (.pointer p)) (target : bindings.get? "to" = some (.pointer q))
    (number : bindings.get? "i" = some (.number d)) (room : below.size + 3 ≤ Stack.limit)
    (moved : d.moveAddress p = .ok reads) (moved' : d.moveAddress q = .ok writes) (loaded : heap.load reads = .ok value)
    (saved : heap.save writes value = .ok copy) (added : d.add? .one = some next) :
    Does functions (copyTurn file) ⟨below, bindings, heap⟩
      (.ok ⟨below.storeAll [.number next], bindings, copy⟩) := by
  have loads : Builtin.load.perform [.pointer reads] heap = .ok { results := [value], heap } := by
    show Except.map _ (heap.load reads) = _
    rw [loaded]
    rfl
  have saves : Builtin.save.perform [value, .pointer writes] heap = .ok { heap := copy } := by
    show Except.map _ (heap.save writes value) = _
    rw [saved]
    rfl
  have adds : Builtin.add.perform [.number d, .number .one] copy = .ok { results := [.number next], heap := copy } := by
    simp only [Builtin.perform, added]
    rfl
  refine .fetches (absent "from" (by decide)) source (by omega) ?_
  refine .fetches (absent "i" (by decide)) number (show below.size + 1 < _ by omega) ?_
  refine .performs below [.pointer p, .number d] (builtins .offset) (by decide) rfl (Builtin.perform_offset moved _) rfl
    (show below.size + 1 ≤ _ by omega) ?_
  refine .performs below [.pointer reads] (builtins .load) (by decide) rfl loads rfl
    (show below.size + 1 ≤ _ by omega) ?_
  refine .fetches (absent "to" (by decide)) target (show below.size + 1 < _ by omega) ?_
  refine .fetches (absent "i" (by decide)) number (show below.size + 1 + 1 < _ by omega) ?_
  refine .performs (below.storeAll [value]) [.pointer q, .number d] (builtins .offset) (by decide) rfl
    (Builtin.perform_offset moved' _) rfl (show below.size + 1 + 1 ≤ _ by omega) ?_
  refine .performs below [value, .pointer writes] (builtins .save) (by decide) rfl saves rfl
    (show below.size + 0 ≤ _ by omega) ?_
  refine .fetches (absent "i" (by decide)) number (show below.size < _ by omega) ?_
  refine .numbers (show below.size + 1 < _ by omega) ?_
  exact .performs below [.number d, .number .one] (builtins .add) (by decide) rfl adds rfl
    (show below.size + 1 ≤ _ by omega) .nil

/-- A turn copies one slot, and counts it. -/
theorem copyTurn_counts (builtins : ∀ word : Builtin, functions.get? word.name = some (.builtin word))
    (absent : ∀ name ∈ ["from", "to", "count", "i"], functions.get? name = none)
    (source : bindings.get? "from" = some (.pointer p)) (target : bindings.get? "to" = some (.pointer q))
    (room : below.size + 3 ≤ Stack.limit) (natural : d.value = turn) (small : turn + 1 < mantissaLimit)
    (reads : p + turn < addressLimit) (writes : q + turn < addressLimit) (loaded : heap.load (p + turn) = .ok value)
    (saved : heap.save (q + turn) value = .ok copy) :
    ∃ next : Decimal, next.value = (turn + 1 : Nat) ∧
      Does functions [.bind ⟨file, 266, 269⟩ ["i"] (copyTurn file) ⟨file, 319, 322⟩]
        ⟨below.storeAll [.number d], bindings, heap⟩ (.ok ⟨below.storeAll [.number next], bindings, copy⟩) := by
  obtain ⟨next, added, counted⟩ := Decimal.add_one_of_natural natural small
  have source' : (bindings.bind ["i"] [.number d]).get? "from" = some (.pointer p) := by
    rw [Scope.get?_bind, source]
    rfl
  have target' : (bindings.bind ["i"] [.number d]).get? "to" = some (.pointer q) := by
    rw [Scope.get?_bind, target]
    rfl
  have number : (bindings.bind ["i"] [.number d]).get? "i" = some (.number d) := by
    rw [Scope.get?_bind]
    rfl
  have inside : Does functions (copyTurn file) ⟨below, bindings.bind ["i"] [.number d], heap⟩
      (.ok ⟨below.storeAll [.number next], bindings.bind ["i"] [.number d], copy⟩) :=
    copyTurn_does builtins absent source' target' number room (Decimal.moveAddress_of_natural natural reads)
      (Decimal.moveAddress_of_natural natural writes) loaded saved added
  exact ⟨next, counted, .bind (Store.bind_storeAll _ _ _ _ rfl) inside⟩

/-- The loop copies the whole block, one slot in each turn. -/
theorem copyBlock_does (builtins : ∀ word : Builtin, functions.get? word.name = some (.builtin word))
    (absent : ∀ name ∈ ["from", "to", "count", "i"], functions.get? name = none)
    (source : bindings.get? "from" = some (.pointer p)) (target : bindings.get? "to" = some (.pointer q))
    (bound : bindings.get? "count" = some (.number count)) (room : below.size + 3 ≤ Stack.limit)
    (natural : count.value = n) (tiled : heap.Tiled) (addressable : heap.capacity ≤ addressLimit)
    (copyable : heap.Copyable p q n) :
    ∃ copy, heap.Copied copy p q n ∧
      Does functions (copyBlock file) ⟨below, bindings, heap⟩ (.ok ⟨below, bindings, copy⟩) := by
  have small := Decimal.natural_lt natural
  -- Before each test the number of slots copied is on top of the stack.
  let holds (turn : Nat) (store : Store) : Prop := ∃ (d : Decimal) (copy : Heap),
    store = ⟨below.storeAll [.number d], bindings, copy⟩ ∧ d.value = turn ∧ copy.Tiled ∧ heap.Copied copy p q turn
  have starts : holds 0 ⟨below.storeAll [.number .zero], bindings, heap⟩ :=
    ⟨.zero, heap, rfl, by rw [Decimal.value_zero, Nat.cast_zero], tiled, .none heap p q⟩
  obtain ⟨_, cycles, d, copy, rfl, -, -, copied⟩ : ∃ after, Does.Cycles functions (copyTest file)
      [.bind ⟨file, 266, 269⟩ ["i"] (copyTurn file) ⟨file, 319, 322⟩] _ after ∧ holds n after := by
    refine Does.exists_cycles ?_ ?_ (Nat.zero_le n) starts
    · rintro turn more _ ⟨d, copy, rfl, counted, tiled', copied⟩
      obtain ⟨m, decides, zero⟩ := copyTest_decides builtins (absent "count" (by decide)) bound room
      obtain ⟨value, next, loaded, saved, next_tiled, copied'⟩ := copied.onward tiled' copyable more
      have reads := Heap.lt_of_load loaded
      have writes := tiled.lt_of_used (copyable.owned turn more)
      rw [copied.capacity] at reads
      obtain ⟨d', counted', does⟩ := copyTurn_counts builtins absent source target room counted (by omega)
        (show p + turn < addressLimit by omega) (show q + turn < addressLimit by omega) loaded saved
      refine ⟨m, _, _, decides, ?_, does, d', next, rfl, counted', next_tiled, copied'⟩
      rw [← Bool.not_eq_true, zero, natural, counted, Nat.cast_le]
      omega
    · rintro _ ⟨d, copy, rfl, counted, tiled', copied⟩
      obtain ⟨m, decides, zero⟩ := copyTest_decides builtins (absent "count" (by decide)) bound room
      exact ⟨m, _, decides, zero.2 (by rw [natural, counted]), d, copy, rfl, counted, tiled', copied⟩
  refine ⟨copy, copied, ?_⟩
  refine .numbers (by omega) (.cons (.loop cycles) ?_)
  exact .performs below [.number d] (builtins .drop) (by decide) rfl rfl rfl (show below.size + 0 ≤ _ by omega) .nil

end

/-- The word `memcopy` copies exactly the block. Whatever has been asked of a heap before, where two addresses and a
natural number are on top of the stack, such that as many slots from the first address on have been written, as many
from the second one on are in regions in use, and the two blocks are disjoint, a call of `memcopy` returns, in a machine
whose functions are the builtins and those of the module. The operands are gone, the slots are copied, and nothing else
has changed: not the regions or the other slots, the stack below, the bindings or the open blocks. The stack need not
have room for more than the operands. -/
theorem memcopy_copies_block {machine here : Machine} {place : Location} {below : Stack Value} {p q n capacity : Nat}
    {count : Decimal} {requests : List Heap.Call} (calls : machine.Calls here "memcopy" place)
    (stocks : Stocks here.functions Library.bundledMem "memcopy")
    (operands : here.operands = below.storeAll [.pointer p, .pointer q, .number count])
    (fits : here.operands.size ≤ Stack.limit) (natural : count.value = n) (addressable : capacity < addressLimit)
    (reached : (Heap.new capacity).after requests = here.heap) (copyable : here.heap.Copyable p q n) :
    ∃ copy, machine.Yields (.ok { here with operands := below, heap := copy, ip := here.ip + 1 }) ∧
      here.heap.Copied copy p q n := by
  obtain ⟨file, start, body, tape, definition, defined, found, holds, absent⟩ := stocks.function
  rw [definitionOf_memcopy] at defined
  cases defined
  obtain ⟨tiled, same⟩ := (Heap.new_tiled capacity).after requests
  rw [reached] at tiled same
  have whole : here.heap.capacity = capacity := same
  have size : here.operands.size = below.size + 3 := by rw [operands]; rfl
  let bindings := here.bindings.bind ["from", "to", "count"] [.pointer p, .pointer q, .number count]
  have source : bindings.get? "from" = some (.pointer p) := by rw [Scope.get?_bind]; rfl
  have target : bindings.get? "to" = some (.pointer q) := by rw [Scope.get?_bind]; rfl
  have bound : bindings.get? "count" = some (.number count) := by rw [Scope.get?_bind]; rfl
  obtain ⟨copy, copied, does⟩ := copyBlock_does stocks.builtins absent source target bound
    (show below.size + 3 ≤ _ by omega) natural tiled (show here.heap.capacity ≤ addressLimit by omega) copyable
  have body : Does here.functions (copyBody file) here.store (.ok ⟨below, here.bindings, copy⟩) := by
    rw [Machine.store, operands]
    exact .bind (Store.bind_storeAll _ _ _ _ rfl) does
  exact ⟨copy, calls.yields found holds body, copied⟩

/-- A program that defines `memcopy` as the module does, and copies a block of two slots into another one. -/
def copyProgram : List Item :=
  [.define ⟨1, 176, 178⟩ ⟨"memcopy", ["p", "p", "n"], []⟩ (copyBody 1) ⟨1, 356, 359⟩, .string ⟨0, 11, 15⟩ "ab",
    .word ⟨0, 16, 28⟩ Builtin.stringToCells.name, .word ⟨0, 29, 33⟩ Builtin.drop.name, .number ⟨0, 34, 35⟩ (.ofNat 2),
    .word ⟨0, 36, 44⟩ Builtin.alloc.name, .number ⟨0, 45, 46⟩ (.ofNat 2), .word ⟨0, 47, 54⟩ "memcopy"]

/-- The heap that the word finds. -/
def copyHeap : Heap :=
  (Heap.new 4).after [.alloc 2, .save 0 (.string "a"), .save 1 (.string "b"), .alloc 2]

/-- The machine that has come to the call. -/
def copyCaller : Machine :=
  (Run.execute ⟨.bundled, true, 4⟩ 9 (.start ⟨.bundled, true, 4⟩ (.ofItems copyProgram)) {}).2.1.machine

theorem copyCaller_eq : copyCaller = { Machine.start 4 (.ofItems copyProgram) with
    ip := 37
    operands := (Machine.start 4 #[]).operands.storeAll [.pointer 0, .pointer 2, .number (.ofNat 2)]
    heap := copyHeap
    functions := (Machine.start 4 #[]).functions.insert "memcopy"
      (.user (.ofItems copyProgram) ⟨⟨"memcopy", ["p", "p", "n"], []⟩, 1, 28⟩) } := by
  cbv

theorem copyCaller_stocks : Stocks copyCaller.functions Library.bundledMem "memcopy" := by
  rw [copyCaller_eq]
  refine Stocks.of_define (.start 4 (.ofItems copyProgram))
    (fun word => ⟨Machine.start_builtins .., by cases word <;> decide⟩) (Tape.carries_ofItems copyProgram)
    (definitionOf_memcopy 1) ?_
  intro name member
  have listed : name ∈ ["from", "to", "count", "i"] := member
  fin_cases listed
  all_goals exact ⟨rfl, by decide⟩

theorem copyCaller_calls : copyCaller.Calls copyCaller "memcopy" ⟨0, 47, 54⟩ := by
  rw [copyCaller_eq]
  exact ⟨⟨⟨rfl, rfl, rfl⟩, rfl⟩, Machine.settle_of_settled rfl, rfl⟩

/-- The first two slots have been written, and the other two are in a region of their own. -/
theorem copyHeap_copyable : copyHeap.Copyable 0 2 2 := by
  have first : copyHeap.load 0 = .ok (.string "a") := by cbv
  have second : copyHeap.load 1 = .ok (.string "b") := by cbv
  have used : (⟨2, 2, some ∅⟩ : Region) ∈ copyHeap.usedRegions := by
    have listed : copyHeap.usedRegions =
        [⟨0, 2, some ((∅ : Cells).put 0 [.string "a", .string "b"])⟩, ⟨2, 2, some ∅⟩] := by cbv
    rw [listed]
    exact List.mem_cons_of_mem _ List.mem_cons_self
  refine ⟨fun place below => ?_, fun place below => ⟨_, used, ?_⟩, fun place below other below' => by omega⟩
  · rcases Nat.lt_succ_iff_lt_or_eq.1 below with earlier | rfl
    · obtain rfl := Nat.lt_one_iff.1 earlier
      exact ⟨_, first⟩
    · exact ⟨_, second⟩
  · rw [Region.contains_iff]
    exact ⟨Nat.le_add_right _ _, Nat.add_lt_add_left below _⟩

/-- The characters of a string are copied. -/
theorem two_slots_copied :
    (copyCaller.Calls copyCaller "memcopy" ⟨0, 47, 54⟩ ∧ Stocks copyCaller.functions Library.bundledMem "memcopy" ∧
      copyCaller.operands.size ≤ Stack.limit ∧ (Decimal.ofNat 2).value = (2 : Nat) ∧ 4 < addressLimit ∧
      copyCaller.heap.Copyable 0 2 2) ∧
    ∃ copy, copyCaller.Yields
        (.ok { copyCaller with operands := (Machine.start 4 #[]).operands, heap := copy, ip := 38 }) ∧
      copy.load 2 = .ok (.string "a") ∧ copy.load 3 = .ok (.string "b") := by
  have operands : copyCaller.operands =
      (Machine.start 4 #[]).operands.storeAll [.pointer 0, .pointer 2, .number (.ofNat 2)] := by rw [copyCaller_eq]
  have heap : copyCaller.heap = copyHeap := by rw [copyCaller_eq]
  have ip : copyCaller.ip + 1 = 38 := by rw [copyCaller_eq]
  have fits : copyCaller.operands.size ≤ Stack.limit := by
    rw [operands]
    decide
  have two : (Decimal.ofNat 2).value = (2 : Nat) := Decimal.value_ofNat (by decide)
  have copyable : copyCaller.heap.Copyable 0 2 2 := heap ▸ copyHeap_copyable
  obtain ⟨copy, yields, copied⟩ := memcopy_copies_block copyCaller_calls copyCaller_stocks operands fits two
    (show 4 < addressLimit by decide) heap.symm copyable
  refine ⟨⟨copyCaller_calls, copyCaller_stocks, fits, two, by decide, copyable⟩, copy, ip ▸ yields, ?_, ?_⟩
  · rw [show 2 = 2 + 0 from rfl, copied.copied 0 (by decide), heap]
    cbv
  · rw [show 3 = 2 + 1 from rfl, copied.copied 1 (by decide), heap]
    cbv

end TapeMachine
