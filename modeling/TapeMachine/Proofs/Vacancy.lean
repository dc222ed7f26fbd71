import Mathlib
import TapeMachine.Proofs.Tiling

namespace TapeMachine

variable {regions before behind : List Region} {region : Region} {capacity start size : Nat}

/-- Where no addresses are given away, every free region is too small. -/
theorem allocIn_eq_none (failed : allocIn size regions = none) (member : region ∈ regions)
    (free : region.isFree = true) : region.size < size := by
  induction regions with
  | nil => cases member
  | cons first rest ih =>
    rw [allocIn] at failed
    split at failed
    · cases failed
    · rename_i unfit
      rcases List.mem_cons.1 member with rfl | later
      · by_contra room
        have fits : region.isFree = true ∧ size ≤ region.size := ⟨free, by omega⟩
        simp [fits] at unfit
      · exact ih (Option.map_eq_none_iff.1 failed) later

/-- The region behind another one begins where that ends. -/
theorem Tiles.next {first : Nat} (tiles : Tiles first capacity (before ++ region :: behind))
    (more : region.start + region.size < capacity) :
    ∃ next rest, behind = next :: rest ∧ next.start = region.start + region.size := by
  obtain ⟨middle, -, here, later⟩ := tiles_append.1 tiles
  cases behind with
  | nil =>
    have same : middle + region.size = capacity := later
    omega
  | cons next rest => exact ⟨next, rest, rfl, by rw [later.1, here]⟩

namespace Heap

/-- There are `size` addresses from `start` on in the heap, and none of them belongs to a region in use. -/
structure Vacant (heap : Heap) (start size : Nat) : Prop where
  below : start + size ≤ heap.capacity
  unused : ∀ address, start ≤ address → address < start + size →
    ∀ region ∈ heap.usedRegions, region.contains address = false

variable {heap : Heap}

theorem mem_usedRegions : region ∈ heap.usedRegions ↔ region ∈ heap.regions ∧ region.isFree = false := by
  simp [usedRegions]

/-- A region around a vacant address is free. -/
theorem Vacant.isFree (vacant : heap.Vacant start size) {address : Nat} (lower : start ≤ address)
    (upper : address < start + size) (member : region ∈ heap.regions) (inside : region.contains address = true) :
    region.isFree = true := by
  by_contra inUse
  have used : region ∈ heap.usedRegions := mem_usedRegions.2 ⟨member, by simpa using inUse⟩
  have outside := vacant.unused address lower upper region used
  rw [inside] at outside
  cases outside

namespace Tiled

/-- The addresses at the beginning of a free region are vacant. -/
theorem vacant_of_free (tiled : heap.Tiled) (member : region ∈ heap.regions) (free : region.isFree = true)
    (room : size ≤ region.size) : heap.Vacant region.start size := by
  have bounds := tiled.tiles.bounds member
  refine ⟨by omega, ?_⟩
  intro address lower upper other used
  obtain ⟨member', inUse⟩ := mem_usedRegions.1 used
  have inside : region.contains address = true := Region.contains_iff.2 (by omega)
  by_contra inside'
  have same := tiled.toLaid.eq_of_contains member' (by simpa using inside') member inside
  rw [same, free] at inUse
  cases inUse

/-- Vacant addresses lie in one free region: behind its end a region in use would begin, since no two neighbours are
free. -/
theorem free_of_vacant (tiled : heap.Tiled) (positive : 0 < size) (vacant : heap.Vacant start size) :
    ∃ region ∈ heap.regions, region.isFree = true ∧ region.start ≤ start ∧
      start + size ≤ region.start + region.size := by
  have below := vacant.below
  obtain ⟨before, region, behind, whole, inside, -⟩ := tiled.toLaid.exists_split (by omega : start < heap.capacity)
  have member : region ∈ heap.regions := by simp [whole]
  have bounds := Region.contains_iff.1 inside
  have free := vacant.isFree (le_refl start) (by omega) member inside
  refine ⟨region, member, free, bounds.1, ?_⟩
  by_contra beyond
  have tiles := tiled.tiles
  rw [whole] at tiles
  obtain ⟨next, rest, rfl, begins⟩ := tiles.next (by omega)
  have member' : next ∈ heap.regions := by simp [whole]
  have size_pos := (tiled.positive next member').resolve_right (by omega)
  have inside' : next.contains (region.start + region.size) = true := Region.contains_iff.2 (by omega)
  have free' := vacant.isFree (by omega) (by omega) member' inside'
  have apart := tiled.apart
  rw [whole, List.isChain_append, List.isChain_cons_cons] at apart
  exact apart.2.1.1 ⟨free, free'⟩

/-- The first region that is large enough begins at the lowest vacancy. -/
theorem isLeast_of_allocIn (tiled : heap.Tiled) (positive : 0 < size) {address : Nat} {result : List Region}
    (found : TapeMachine.allocIn size heap.regions = some (address, result)) :
    IsLeast { start | heap.Vacant start size } address := by
  obtain ⟨before, region, behind, whole, unfit, free, room, rfl, -⟩ := allocIn_eq_some found
  refine ⟨tiled.vacant_of_free (by simp [whole]) free room, ?_⟩
  intro start vacant
  obtain ⟨owner, member, free', lower, upper⟩ := tiled.free_of_vacant positive vacant
  have ordered := tiled.tiles.ordered
  rw [whole, List.pairwise_append, List.pairwise_cons] at ordered
  obtain ⟨-, ⟨later, -⟩, -⟩ := ordered
  rw [whole, List.mem_append, List.mem_cons] at member
  rcases member with earlier | rfl | last
  · exact absurd ⟨free', by omega⟩ (unfit owner earlier)
  · exact lower
  · have apart := later owner last
    omega

/-- An allocation takes the lowest vacancy, and fails where there is none. -/
theorem alloc_cases (tiled : heap.Tiled) (positive : 0 < size) :
    (∃ address next, heap.alloc size = .ok (address, next) ∧ IsLeast { start | heap.Vacant start size } address) ∨
      heap.alloc size = .error (.noFreeRegion size) ∧ ∀ start, ¬heap.Vacant start size := by
  rw [Heap.alloc, if_neg (by omega)]
  cases found : TapeMachine.allocIn size heap.regions with
  | some given =>
    obtain ⟨address, regions⟩ := given
    exact .inl ⟨address, _, rfl, tiled.isLeast_of_allocIn positive found⟩
  | none =>
    refine .inr ⟨rfl, fun start vacant => ?_⟩
    obtain ⟨region, member, free, lower, upper⟩ := tiled.free_of_vacant positive vacant
    have small := allocIn_eq_none found member free
    omega

end Tiled

end Heap

/-- An allocation fails only if there is no room, and takes the lowest place. Whatever has been asked of a heap before,
`size` slots can be had if and only if there are as many addresses in a row that no region in use has; the first of
them is then the lowest one at which such a row begins; and if there is no such row, memory is out. -/
theorem alloc_takes_lowest_vacancy (capacity : Nat) (calls : List Heap.Call) (size : Nat) (positive : 0 < size) :
    ((∃ address next, ((Heap.new capacity).after calls).alloc size = .ok (address, next)) ↔
      ∃ start, ((Heap.new capacity).after calls).Vacant start size) ∧
    (∀ address next, ((Heap.new capacity).after calls).alloc size = .ok (address, next) →
      IsLeast { start | ((Heap.new capacity).after calls).Vacant start size } address) ∧
    ((¬∃ start, ((Heap.new capacity).after calls).Vacant start size) →
      ∃ cause, ((Heap.new capacity).after calls).alloc size = .error cause ∧ cause.code = .outOfMemory) := by
  have tiled := ((Heap.new_tiled capacity).after calls).1
  generalize (Heap.new capacity).after calls = heap at tiled
  rcases tiled.alloc_cases positive with ⟨address, next, given, least⟩ | ⟨refused, none⟩
  · refine ⟨⟨fun _ => ⟨address, least.1⟩, fun _ => ⟨address, next, given⟩⟩, ?_, fun full => ?_⟩
    · intro address' next' given'
      cases given.symm.trans given'
      exact least
    · exact absurd ⟨address, least.1⟩ full
  · refine ⟨⟨?_, fun ⟨start, vacant⟩ => absurd vacant (none start)⟩, ?_, fun _ => ⟨_, refused, rfl⟩⟩
    · rintro ⟨address, next, given⟩
      cases refused.symm.trans given
    · intro address next given
      cases refused.symm.trans given

/-- Two blocks of four slots, of which the first is given back, leave a hole that is too small for six. -/
theorem six_slots_behind_the_hole :
    0 < 6 ∧ IsLeast { start | ((Heap.new 20).after [.alloc 4, .alloc 4, .free 0]).Vacant start 6 } 8 := by
  have given : ((Heap.new 20).after [.alloc 4, .alloc 4, .free 0]).alloc 6 =
      .ok (8, ⟨20, [⟨0, 4, none⟩, ⟨4, 4, some ∅⟩, ⟨8, 6, some ∅⟩, ⟨14, 6, none⟩]⟩) := by cbv
  exact ⟨by decide, (alloc_takes_lowest_vacancy 20 _ 6 (by decide)).2.1 _ _ given⟩

end TapeMachine
