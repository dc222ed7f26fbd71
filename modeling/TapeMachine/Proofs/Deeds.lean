import Mathlib
import TapeMachine.Proofs.Checked
import TapeMachine.Proofs.Coalescing
import TapeMachine.Proofs.Contracts

namespace TapeMachine

/-- What a program does with the memory of its machine. -/
inductive Deed
  /-- A `var` block is entered. It binds `name` to a new cell at `address`, and then these are the scope frames. -/
  | opens (name : String) (address : Nat) (scopes : List (Dictionary Value))
  /-- `memalloc` or `str2countstr` returns a region of `size` slots at `address`. -/
  | claims (address size : Nat)
  /-- `memfree` is applied to `address`, while the `var` blocks that are open have these cells. -/
  | frees (address : Nat) (cells : List Nat)

namespace Deed

/-- The regions that words have returned, with their sizes, and that `memfree` has not been applied to since. Here as
everywhere the newest deed comes first. -/
def outstanding : List Deed → List (Nat × Nat)
  | [] => []
  | .opens .. :: earlier => outstanding earlier
  | .claims address size :: earlier => (address, size) :: outstanding earlier
  | .frees address _ :: earlier => (outstanding earlier).filter fun region => region.1 ≠ address

/-- How the last `var` block with a cell at `address` was entered: the name it binds, and the scope frames inside it. -/
def opening? (address : Nat) : List Deed → Option (String × List (Dictionary Value))
  | [] => none
  | .opens name cell scopes :: earlier => if cell = address then some (name, scopes) else opening? address earlier
  | .claims .. :: earlier | .frees .. :: earlier => opening? address earlier

/-- `memfree` was never applied to the cell of a block that was open. -/
def Prudent (past : List Deed) : Prop :=
  ∀ address cells, .frees address cells ∈ past → address ∉ cells

end Deed

/-- The address of the cell that a frame owns. -/
def Frame.cell? : Frame → Option Nat
  | .cell _ address => some address
  | .branch .. | .repeats .. | .loop .. | .call .. => none

/-- The regions in use: where each of them begins, and its size. -/
def Heap.holdings (heap : Heap) : List (Nat × Nat) :=
  heap.usedRegions.map fun region => (region.start, region.size)

namespace Builtin

/-- What a word, called on these operands, does with the memory; the blocks that are open have the given cells. -/
def deed? (word : Builtin) (operands : Stack Value) (heap : Heap) (cells : List Nat) : Option Deed :=
  match word, operands.entries, word.call operands heap with
  | .free, .pointer address :: _, _ => some (.frees address cells)
  | .alloc, .number n :: _, (.ok _, after, _) =>
    match n.toSize, after.entries with
    | .ok size, .pointer address :: _ => some (.claims address size)
    | _, _ => none
  | .stringToCells, .string text :: _, (.ok _, after, _) =>
    match after.entries with
    | _ :: .pointer address :: _ => some (.claims address text.length)
    | _ => none
  | _, _, _ => none

end Builtin

namespace Machine

/-- The cells of the `var` blocks that are open, innermost first. -/
def cells (machine : Machine) : List Nat :=
  machine.frames.filterMap Frame.cell?

/-- What an instruction that is carried out here does with the memory. -/
def deedOf? (machine : Machine) (instruction : Instruction) : Option Deed :=
  match instruction.opcode with
  | .cell name stop =>
    match machine.cell name stop with
    | .ran inside => inside.cells.head?.map fun address => .opens name address inside.bindings.frames
    | _ => none
  | .call name =>
    match machine.functions.get? name with
    | some (.builtin word) => word.deed? machine.operands machine.heap machine.cells
    | _ => none
  | _ => none

/-- What the next step of a machine does with the memory. -/
def deed? (machine : Machine) : Option Deed :=
  match machine.settle with
  | (.ok true, here) => here.tape[here.ip]?.bind here.deedOf?
  | _ => none

end Machine

namespace Heap

variable {heap next : Heap} {address size : Nat} {value : Value}

theorem holdings_alloc (allocated : heap.alloc size = .ok (address, next)) :
    next.holdings.Perm ((address, size) :: heap.holdings) := by
  obtain ⟨-, regions, found, rfl⟩ := alloc_eq_ok allocated
  obtain ⟨before, region, behind, whole, -, free, -, rfl, rfl⟩ := allocIn_eq_some found
  have rest : usedIn (region.split size).tail = [] := by
    unfold Region.split
    rw [List.tail_cons]
    split
    · exact usedIn_cons_free rfl []
    · rfl
  have split : usedIn (region.split size) = [⟨region.start, size, some ∅⟩] := by
    rw [show region.split size = ⟨region.start, size, some ∅⟩ :: (region.split size).tail from rfl,
      usedIn_cons_used rfl, rest]
  rw [holdings, holdings, usedRegions_eq, usedRegions_eq, usedIn_condense, whole, usedIn_append, usedIn_append, split,
    usedIn_append, usedIn_cons_free free, List.map_append, List.map_append, List.map_append]
  exact List.perm_middle

theorem holdings_save (saved : heap.save address value = .ok next) : next.holdings = heap.holdings := by
  obtain ⟨before, region, cells, behind, whole, -, -, used, rfl⟩ := save_eq_ok saved
  have inUse : region.isFree = false := by simp [Region.isFree, used]
  rw [holdings, holdings, usedRegions_eq, usedRegions_eq, whole, usedIn_append, usedIn_append, usedIn_cons_used inUse,
    usedIn_cons_used rfl]
  simp

theorem holdings_saveAll {values : List Value} (saved : heap.saveAll address values = .ok next) :
    next.holdings = heap.holdings :=
  saveAll_keeps (fun later => later.holdings = heap.holdings) (fun same saved => (holdings_save saved).trans same) rfl
    saved

namespace Tiled

/-- No two regions in use begin at the same address. -/
theorem nodup_holdings (tiled : heap.Tiled) : (heap.holdings.map Prod.fst).Nodup := by
  have starts : heap.holdings.map Prod.fst = heap.usedRegions.map Region.start := by
    rw [holdings, List.map_map]
    rfl
  rw [starts, List.Nodup, List.pairwise_map, usedRegions, List.pairwise_filter]
  refine tiled.tiles.ordered.imp_of_mem ?_
  intro first second member _ before used _
  have positive := (tiled.positive first member).resolve_right (by simpa using fun _ => used)
  omega

theorem holdings_free (tiled : heap.Tiled) (freed : heap.free address = .ok next) :
    next.holdings = heap.holdings.filter fun region => region.1 ≠ address := by
  obtain ⟨regions, found, rfl⟩ := free_eq_ok freed
  obtain ⟨before, owner, behind, whole, rfl, used, rfl⟩ := freeIn_eq_some found
  have left : usedIn (TapeMachine.condense (before ++ { owner with cells := none } :: behind)) =
      heap.usedRegions.filter fun region => region.start ≠ owner.start := by
    rw [tiled.filter_start whole used, usedIn_condense, usedIn_append, usedIn_cons_free rfl, usedIn_append]
  rw [holdings, holdings, List.filter_map, usedRegions_eq, left]
  rfl

/-- What is in use can be freed, and then all the rest is in use as before. -/
theorem free_held (tiled : heap.Tiled) (held : (address, size) ∈ heap.holdings) :
    ∃ next, heap.free address = .ok next ∧
      next.usedRegions = heap.usedRegions.filter fun region => region.start ≠ address := by
  obtain ⟨region, member, same⟩ := List.mem_map.1 held
  cases same
  obtain ⟨next, freed, -, -, left⟩ := tiled.free_used member
  exact ⟨next, freed, left⟩

end Tiled

end Heap

namespace Deed

/-- What a deed makes of the regions in use. -/
def Turns (held : List (Nat × Nat)) : Option Deed → (later : List (Nat × Nat)) → Prop
  | none, later => later = held
  | some (.opens _ address _), later => later.Perm ((address, 1) :: held)
  | some (.claims address size), later => later.Perm ((address, size) :: held)
  | some (.frees address _), later => later = held.filter fun region => region.1 ≠ address

end Deed

namespace Builtin

variable {word : Builtin} {operands after : Stack Value} {heap next : Heap} {taken : List Value} {reply : Reply}
  {effect : Effect}

/-- A word that has not failed has taken its operands and left the results of its reply. -/
theorem reply_of_call (ordinary : word ∉ shuffles) (called : word.call operands heap = (.ok effect, after, next)) :
    ∃ taken rest reply, operands.entries = taken.reverse ++ rest ∧ taken.length = word.inputs.length ∧
      word.perform taken heap = .ok reply ∧ after.entries = reply.results.reverse ++ rest ∧ next = reply.heap := by
  rw [call_of_ordinary ordinary] at called
  split at called
  · cases called
  · rename_i values rest popped
    obtain ⟨taken, entries, count, rfl⟩ := Stack.entries_of_pop popped
    split at called
    · cases called
    · rename_i reply performed
      cases pushed : rest.pushAll reply.results with
      | mk outcome stored =>
      rw [pushed] at called
      cases outcome with
      | error => cases called
      | ok =>
        cases called
        have accepted : Stack.accepted (rest.pushAll reply.results) = .ok stored := by
          rw [pushed]
          rfl
        refine ⟨taken.reverse, rest.entries, reply, ?_, ?_, performed, Stack.entries_of_pushAll accepted, rfl⟩
        · rw [List.reverse_reverse, entries]
        · rw [List.length_reverse, count]

theorem heap_of_shuffle (shuffle : word ∈ shuffles) {outcome : Outcome Effect}
    (called : word.call operands heap = (outcome, after, next)) : next = heap := by
  simp only [shuffles, List.mem_cons, List.not_mem_nil, or_false] at shuffle
  have left := (congrArg (fun result => result.2.2) called).symm
  rcases shuffle with rfl | rfl | rfl
  · exact left
  · rw [call] at left
    split at left <;> exact left
  · exact left

theorem deed?_eq_none (other : word ∉ regional) (operands : Stack Value) (heap : Heap) (cells : List Nat) :
    word.deed? operands heap cells = none := by
  cases word with
  | alloc | free | stringToCells => exact absurd (by decide) other
  | _ => rfl

/-- What a word makes of the regions when it does not fail. -/
inductive Handles (heap : Heap) : Builtin → List Value → Reply → Prop
  | spared {word : Builtin} {taken : List Value} {reply : Reply} : word ∉ regional → reply.heap = heap →
      Handles heap word taken reply
  | stored {text : String} {address : Nat} {count : Decimal} {reply : Reply} : reply.heap.Tiled →
      reply.heap.holdings.Perm ((address, text.length) :: heap.holdings) →
      reply.results = [.pointer address, .number count] → Handles heap stringToCells [.string text] reply
  | allocated {n : Decimal} {size address : Nat} {reply : Reply} : n.toSize = .ok size →
      heap.alloc size = .ok (address, reply.heap) → reply.results = [.pointer address] →
      Handles heap alloc [.number n] reply
  | freed {address : Nat} {reply : Reply} : heap.free address = .ok reply.heap → reply.results = [] →
      Handles heap free [.pointer address] reply
  | saved {address : Nat} {value : Value} {reply : Reply} : heap.save address value = .ok reply.heap →
      Handles heap save [value, .pointer address] reply

theorem alloc_handles {value : Value} (performed : alloc.perform [value] heap = .ok reply) :
    Handles heap alloc [value] reply := by
  cases value with
  | string | pointer => cases performed
  | number n =>
    obtain ⟨size, sized, performed⟩ := Outcome.bind_eq_ok performed
    obtain ⟨⟨address, grown⟩, allocated, rfl⟩ := Outcome.map_eq_ok performed
    exact .allocated sized allocated rfl

theorem stringToCells_handles {value : Value} (tiled : heap.Tiled)
    (performed : stringToCells.perform [value] heap = .ok reply) : Handles heap stringToCells [value] reply := by
  cases value with
  | number | pointer => cases performed
  | string text =>
    have stored : storeCells text heap = .ok reply := performed
    unfold storeCells at stored
    dsimp only at stored
    split at stored
    · rename_i address grown allocated
      rw [List.length_map, String.length_toList] at allocated
      obtain ⟨written, saved, rfl⟩ := Outcome.map_eq_ok stored
      have held := Heap.holdings_alloc allocated
      rw [← Heap.holdings_saveAll saved] at held
      exact .stored ((tiled.alloc allocated).saveAll saved) held rfl
    · cases stored

theorem free_handles {value : Value} (performed : free.perform [value] heap = .ok reply) :
    Handles heap free [value] reply := by
  cases value with
  | number | string => cases performed
  | pointer address =>
    obtain ⟨smaller, freed, rfl⟩ := Outcome.map_eq_ok performed
    exact .freed freed rfl

theorem save_handles {value pointer : Value} (performed : save.perform [value, pointer] heap = .ok reply) :
    Handles heap save [value, pointer] reply := by
  cases pointer with
  | number | string => cases performed
  | pointer address =>
    obtain ⟨written, saved, rfl⟩ := Outcome.map_eq_ok performed
    exact .saved saved

/-- Only the words that work on regions have another heap behind them. -/
theorem heap_of_perform (ordinary : word ∉ shuffles) (count : taken.length = word.inputs.length)
    (other : word ∉ regional) (performed : word.perform taken heap = .ok reply) : reply.heap = heap := by
  obtain ⟨-, gives⟩ := gives_of_performed ordinary count performed
  cases gives with
  | stays | prints | asks => rfl
  | changes _ _ works => exact absurd works other

theorem perform_handles (tiled : heap.Tiled) (ordinary : word ∉ shuffles) (count : taken.length = word.inputs.length)
    (performed : word.perform taken heap = .ok reply) : Handles heap word taken reply := by
  by_cases other : word ∉ regional
  · exact .spared other (heap_of_perform ordinary count other performed)
  · have regions : word ∈ regional := not_not.1 other
    simp only [regional, List.mem_cons, List.not_mem_nil, or_false] at regions
    rcases regions with rfl | rfl | rfl | rfl
    · obtain ⟨value, rfl⟩ := List.length_eq_one_iff.1 count
      exact stringToCells_handles tiled performed
    · obtain ⟨value, rfl⟩ := List.length_eq_one_iff.1 count
      exact alloc_handles performed
    · obtain ⟨value, rfl⟩ := List.length_eq_one_iff.1 count
      exact free_handles performed
    · obtain ⟨value, pointer, rfl⟩ := List.length_eq_two.1 count
      exact save_handles performed

/-- A word that has not failed has done to the regions what its deed says, and nothing if it has none. -/
theorem call_turns (tiled : heap.Tiled) (called : word.call operands heap = (.ok effect, after, next))
    (cells : List Nat) :
    next.Tiled ∧ Deed.Turns heap.holdings (word.deed? operands heap cells) next.holdings := by
  by_cases shuffle : word ∈ shuffles
  · obtain rfl := heap_of_shuffle shuffle called
    have apart : ∀ word ∈ shuffles, word ∉ regional := by decide
    rw [deed?_eq_none (apart word shuffle)]
    exact ⟨tiled, rfl⟩
  · obtain ⟨taken, rest, reply, entries, count, performed, left, rfl⟩ := reply_of_call shuffle called
    cases perform_handles tiled shuffle count performed with
    | spared other same =>
      rw [same, deed?_eq_none other]
      exact ⟨tiled, rfl⟩
    | stored tiled held results =>
      rw [results] at left
      refine ⟨tiled, ?_⟩
      simp only [deed?, entries, called, left, List.reverse_cons, List.reverse_nil, List.nil_append, List.cons_append]
      exact held
    | allocated sized allocated results =>
      rw [results] at left
      refine ⟨tiled.alloc allocated, ?_⟩
      simp only [deed?, entries, called, sized, left, List.singleton_append, List.reverse_singleton]
      exact Heap.holdings_alloc allocated
    | freed freed =>
      refine ⟨tiled.free freed, ?_⟩
      simp only [deed?, entries, List.singleton_append, List.reverse_singleton]
      exact tiled.holdings_free freed
    | saved saved => exact ⟨tiled.save saved, Heap.holdings_save saved⟩

/-- A word that fails takes no region out of use. It fails before it does anything to the regions, unless there is no
room on the stack for its results. -/
theorem held_of_failed (tiled : heap.Tiled) {cause : Cause}
    (failed : word.call operands heap = (.error cause, after, next)) :
    next.Tiled ∧ heap.holdings ⊆ next.holdings := by
  by_cases shuffle : word ∈ shuffles
  · rw [heap_of_shuffle shuffle failed]
    exact ⟨tiled, List.Subset.refl _⟩
  · rw [call_of_ordinary shuffle] at failed
    split at failed
    · cases failed
      exact ⟨tiled, List.Subset.refl _⟩
    · rename_i taken rest popped
      obtain ⟨entries, -, count, rfl⟩ := Stack.entries_of_pop popped
      split at failed
      · cases failed
        exact ⟨tiled, List.Subset.refl _⟩
      · rename_i reply performed
        have left : reply.heap = next := congrArg (fun result => result.2.2) failed
        have some : reply.results ≠ [] := by
          intro none
          rw [none] at failed
          cases failed
        subst left
        generalize same : entries.reverse = taken at performed
        have handles := perform_handles tiled shuffle (by rw [← same, List.length_reverse, count]) performed
        cases handles with
        | spared _ same => exact ⟨same ▸ tiled, same ▸ List.Subset.refl _⟩
        | stored tiled held => exact ⟨tiled, fun region member => held.mem_iff.2 (List.mem_cons_of_mem _ member)⟩
        | allocated _ allocated =>
          have held := Heap.holdings_alloc allocated
          exact ⟨tiled.alloc allocated, fun region member => held.mem_iff.2 (List.mem_cons_of_mem _ member)⟩
        | freed _ none => exact absurd none some
        | saved saved => exact ⟨tiled.save saved, fun region member => Heap.holdings_save saved ▸ member⟩

theorem deed?_cases (word : Builtin) (operands : Stack Value) (heap : Heap) (cells : List Nat) :
    word.deed? operands heap cells = none ∨
      (∃ address size, word.deed? operands heap cells = some (.claims address size)) ∨
      ∃ address, word.deed? operands heap cells = some (.frees address cells) := by
  unfold deed?
  split
  · exact .inr (.inr ⟨_, rfl⟩)
  · split
    · exact .inr (.inl ⟨_, _, rfl⟩)
    · exact .inl rfl
  · split
    · exact .inr (.inl ⟨_, _, rfl⟩)
    · exact .inl rfl
  · exact .inl rfl

end Builtin

namespace Deed

variable {held later : List (Nat × Nat)} {cells : List Nat} {past : List Deed} {address size : Nat}

/-- The regions in use are the cells of the blocks that are open, and the regions that words have returned and nobody
has given back. -/
def Balanced (past : List Deed) (cells : List Nat) (held : List (Nat × Nat)) : Prop :=
  held.Perm (cells.map (fun cell => (cell, 1)) ++ outstanding past)

namespace Balanced

theorem opens (balanced : Balanced past cells held) (turns : later.Perm ((address, 1) :: held)) (name : String)
    (scopes : List (Dictionary Value)) : Balanced (.opens name address scopes :: past) (address :: cells) later :=
  turns.trans (balanced.cons _)

theorem claims (balanced : Balanced past cells held) (turns : later.Perm ((address, size) :: held)) :
    Balanced (.claims address size :: past) cells later :=
  turns.trans ((balanced.cons _).trans List.perm_middle.symm)

theorem frees (balanced : Balanced past cells held) (spared : address ∉ cells) (owned : List Nat) :
    Balanced (.frees address owned :: past) cells (held.filter fun region => region.1 ≠ address) := by
  have same : (cells.map fun cell => (cell, 1)).filter (fun region => region.1 ≠ address) =
      cells.map fun cell => (cell, 1) := by
    refine List.filter_eq_self.2 fun region member => ?_
    obtain ⟨cell, owns, rfl⟩ := List.mem_map.1 member
    exact decide_eq_true fun same => spared (same ▸ owns)
  have filtered := balanced.filter fun region => decide (region.1 ≠ address)
  rw [List.filter_append, same] at filtered
  exact filtered

/-- Cells and returned regions are apart from each other. -/
theorem nodup (balanced : Balanced past cells held) (distinct : (held.map Prod.fst).Nodup) :
    (cells ++ (outstanding past).map Prod.fst).Nodup := by
  have apart := (balanced.map Prod.fst).nodup_iff.1 distinct
  rw [List.map_append, List.map_map] at apart
  rwa [show Prod.fst ∘ (fun cell => (cell, 1)) = (id : Nat → Nat) from rfl, List.map_id] at apart

/-- Where the innermost cell is given back, all the rest is as before. -/
theorem closes (balanced : Balanced past (address :: cells) held) (distinct : (held.map Prod.fst).Nodup) :
    Balanced past cells (held.filter fun region => region.1 ≠ address) := by
  have apart := balanced.nodup distinct
  rw [List.cons_append, List.nodup_cons] at apart
  have filtered := balanced.filter fun region => decide (region.1 ≠ address)
  rw [List.map_cons, List.cons_append, List.filter_cons_of_neg (by simp)] at filtered
  rw [Balanced]
  refine filtered.trans (.of_eq (List.filter_eq_self.2 fun region member => decide_eq_true ?_))
  rintro rfl
  refine apart.1 ?_
  rcases List.mem_append.1 member with owned | returned
  · obtain ⟨cell, owns, rfl⟩ := List.mem_map.1 owned
    exact List.mem_append_left _ owns
  · exact List.mem_append_right _ (List.mem_map_of_mem returned)

theorem mem_cells (balanced : Balanced past cells held) (owned : address ∈ cells) : (address, 1) ∈ held :=
  balanced.mem_iff.2 (List.mem_append_left _ (List.mem_map_of_mem owned))

/-- What a word does to the regions in use is entered in the past. -/
theorem call {word : Builtin} {operands : Stack Value} {heap : Heap} (balanced : Balanced past cells held)
    (prudent : Prudent ((word.deed? operands heap cells).toList ++ past))
    (turns : Turns held (word.deed? operands heap cells) later) :
    Balanced ((word.deed? operands heap cells).toList ++ past) cells later := by
  rcases word.deed?_cases operands heap cells with none | ⟨address, size, claims⟩ | ⟨address, frees⟩
  · rw [none] at turns ⊢
    exact turns ▸ balanced
  · rw [claims] at turns ⊢
    exact balanced.claims turns
  · rw [frees] at turns prudent ⊢
    have spared := prudent address cells List.mem_cons_self
    exact turns ▸ balanced.frees spared cells

end Balanced

end Deed

end TapeMachine
