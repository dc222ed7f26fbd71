import Mathlib.Data.List.Chain
import TapeMachine.Proofs.Owner

namespace TapeMachine

namespace Region

def contains (region : Region) (address : Nat) : Bool :=
  region.start ≤ address && address < region.start + region.size

/-- Neighbours that must not be joined: one of them is in use. -/
def Apart (first second : Region) : Prop :=
  ¬(first.isFree = true ∧ second.isFree = true)

/-- What has been written to a region lies inside it. -/
def Keeps (region : Region) : Prop :=
  ∀ cells, region.cells = some cells → ∀ address ∈ cells, region.contains address = true

theorem contains_iff {region : Region} {address : Nat} :
    region.contains address = true ↔ region.start ≤ address ∧ address < region.start + region.size := by
  simp [contains]

theorem isFree_iff {region : Region} : region.isFree = true ↔ region.cells = none := by
  simp [isFree]

/-- A region that gives addresses away becomes the part in use and, if it was larger, a free one. -/
theorem mem_split {region part : Region} {size : Nat} (member : part ∈ region.split size) :
    part = ⟨region.start, size, some ∅⟩ ∨
      size < region.size ∧ part = ⟨region.start + size, region.size - size, none⟩ := by
  unfold split at member
  split at member
  · rename_i smaller
    simp only [List.mem_cons, List.not_mem_nil, or_false] at member
    exact member.imp_right fun same => ⟨smaller, same⟩
  · exact .inl (List.mem_singleton.1 member)

theorem keeps_of_none {region : Region} (free : region.cells = none) : region.Keeps := by
  intro cells same
  rw [free] at same
  cases same

end Region

/-- The regions follow one another without a gap, from `start` up to `stop`. -/
def Tiles (start stop : Nat) : List Region → Prop
  | [] => start = stop
  | region :: rest => region.start = start ∧ Tiles (start + region.size) stop rest

variable {regions before behind result : List Region} {start stop size address capacity : Nat} {value : Value}

theorem tiles_append {first second : List Region} :
    Tiles start stop (first ++ second) ↔ ∃ middle, Tiles start middle first ∧ Tiles middle stop second := by
  induction first generalizing start with
  | nil => simp [Tiles]
  | cons region rest ih => simp only [List.cons_append, Tiles, ih, exists_and_left, and_assoc]

theorem Tiles.le (tiles : Tiles start stop regions) : start ≤ stop := by
  induction regions generalizing start with
  | nil => exact Nat.le_of_eq tiles
  | cons region rest ih =>
    have later := ih tiles.2
    omega

theorem Tiles.bounds (tiles : Tiles start stop regions) {region : Region} (member : region ∈ regions) :
    start ≤ region.start ∧ region.start + region.size ≤ stop := by
  induction regions generalizing start with
  | nil => cases member
  | cons first rest ih =>
    obtain ⟨here, later⟩ := tiles
    rcases List.mem_cons.1 member with rfl | behind
    · have bound := later.le
      omega
    · have bounds := ih later behind
      omega

/-- A region that comes later begins where the earlier one has ended. -/
theorem Tiles.ordered (tiles : Tiles start stop regions) :
    regions.Pairwise fun first second => first.start + first.size ≤ second.start := by
  induction regions generalizing start with
  | nil => exact .nil
  | cons region rest ih =>
    obtain ⟨here, later⟩ := tiles
    refine .cons ?_ (ih later)
    intro other member
    have bounds := later.bounds member
    omega

/-- Every address between the ends lies in some region. -/
theorem Tiles.exists_contains (tiles : Tiles start stop regions) (above : start ≤ address) (below : address < stop) :
    ∃ (index : Nat) (region : Region), regions[index]? = some region ∧ region.contains address = true := by
  induction regions generalizing start with
  | nil =>
    have same : start = stop := tiles
    omega
  | cons region rest ih =>
    obtain ⟨here, later⟩ := tiles
    by_cases inside : address < start + region.size
    · exact ⟨0, region, rfl, Region.contains_iff.2 (by omega)⟩
    · obtain ⟨index, owner, found, contained⟩ := ih later (by omega)
      exact ⟨index + 1, owner, found, contained⟩

/-- What the first region large enough makes way for. -/
theorem allocIn_eq_some (found : allocIn size regions = some (address, result)) :
    ∃ before region behind, regions = before ++ region :: behind ∧
      (∀ other ∈ before, ¬(other.isFree = true ∧ size ≤ other.size)) ∧ region.isFree = true ∧ size ≤ region.size ∧
      region.start = address ∧ result = before ++ (region.split size ++ behind) := by
  induction regions generalizing result with
  | nil => cases found
  | cons region rest ih =>
    rw [allocIn] at found
    split at found
    · rename_i fits
      obtain ⟨free, room⟩ : region.isFree = true ∧ size ≤ region.size := by simpa using fits
      cases found
      exact ⟨[], region, rest, rfl, by simp, free, room, rfl, rfl⟩
    · rename_i other
      obtain ⟨⟨place, later⟩, placed, same⟩ := Option.map_eq_some_iff.1 found
      cases same
      obtain ⟨before, region', behind, rfl, taken, free, room, begins, rfl⟩ := ih placed
      refine ⟨region :: before, region', behind, rfl, ?_, free, room, begins, rfl⟩
      intro candidate member
      rcases List.mem_cons.1 member with rfl | earlier
      · simpa using other
      · exact taken candidate earlier

theorem freeIn_eq_some (found : freeIn address regions = some result) :
    ∃ before region behind, regions = before ++ region :: behind ∧ region.start = address ∧ region.isFree = false ∧
      result = before ++ { region with cells := none } :: behind := by
  induction regions generalizing result with
  | nil => cases found
  | cons region rest ih =>
    rw [freeIn] at found
    split at found
    · rename_i here
      obtain ⟨begins, used⟩ : region.start = address ∧ region.isFree = false := by simpa using here
      cases found
      exact ⟨[], region, rest, rfl, begins, used, rfl⟩
    · obtain ⟨later, freed, rfl⟩ := Option.map_eq_some_iff.1 found
      obtain ⟨before, region', behind, rfl, begins, used, rfl⟩ := ih freed
      exact ⟨region :: before, region', behind, rfl, begins, used, rfl⟩

theorem freeIn_eq_none (failed : freeIn address regions = none) {region : Region} (member : region ∈ regions)
    (begins : region.start = address) : region.isFree = true := by
  induction regions with
  | nil => cases member
  | cons first rest ih =>
    rw [freeIn] at failed
    split at failed
    · cases failed
    · rename_i other
      rcases List.mem_cons.1 member with rfl | later
      · simpa [begins] using other
      · exact ih (Option.map_eq_none_iff.1 failed) later

theorem mergeFirst_eq_some (found : mergeFirst regions = some result) :
    ∃ before first second behind, regions = before ++ first :: second :: behind ∧ first.isFree = true ∧
      second.isFree = true ∧ result = before ++ { first with size := first.size + second.size } :: behind := by
  induction regions generalizing result with
  | nil => cases found
  | cons region rest ih =>
    cases rest with
    | nil => cases found
    | cons next rest =>
      rw [mergeFirst] at found
      split at found
      · rename_i free
        obtain ⟨here, there⟩ : region.isFree = true ∧ next.isFree = true := by simpa using free
        cases found
        exact ⟨[], region, next, rest, rfl, here, there, rfl⟩
      · obtain ⟨later, merged, rfl⟩ := Option.map_eq_some_iff.1 found
        obtain ⟨before, first, second, behind, same, here, there, rfl⟩ := ih merged
        exact ⟨region :: before, first, second, behind, by rw [same]; rfl, here, there, rfl⟩

theorem mergeFirst_eq_none_iff : mergeFirst regions = none ↔ regions.IsChain Region.Apart := by
  induction regions with
  | nil => exact ⟨fun _ => .nil, fun _ => rfl⟩
  | cons region rest ih =>
    cases rest with
    | nil => exact ⟨fun _ => .singleton _, fun _ => rfl⟩
    | cons next rest =>
      rw [mergeFirst, List.isChain_cons_cons, ← ih]
      split
      · rename_i free
        simp_all [Region.Apart]
      · rename_i apart
        simp_all [Region.Apart]

theorem apart_iff_map :
    regions.IsChain Region.Apart ↔
      (regions.map Region.isFree).IsChain fun first second => ¬(first = true ∧ second = true) := by
  rw [List.isChain_map]
  rfl

/-- What is true of regions, and of every list that comes of joining two of them, is true behind condensing. -/
theorem condense_induct {holds : List Region → Prop}
    (merges : ∀ regions merged, mergeFirst regions = some merged → holds regions → holds merged)
    (regions : List Region) (held : holds regions) : holds (condense regions) := by
  fun_induction condense regions with
  | case1 regions merged step _ ih => exact ih (merges regions merged step held)
  | case2 regions step => exact held

theorem condense_apart (regions : List Region) : (condense regions).IsChain Region.Apart := by
  fun_induction condense regions with
  | case1 regions merged step _ ih => exact ih
  | case2 regions step => exact mergeFirst_eq_none_iff.1 step

theorem condense_of_apart (apart : regions.IsChain Region.Apart) : condense regions = regions := by
  have done := mergeFirst_eq_none_iff.2 apart
  rw [condense]
  split
  · rename_i merged step
    rw [done] at step
    cases step
  · rfl

/-- Regions that tile a heap, whether or not free ones are neighbours. A heap without slots consists of one free
region without any. -/
structure Laid (capacity : Nat) (regions : List Region) : Prop where
  tiles : Tiles 0 capacity regions
  positive : ∀ region ∈ regions, 0 < region.size ∨ capacity = 0 ∧ region.isFree = true
  written : ∀ region ∈ regions, region.Keeps

namespace Laid

/-- Some neighbours may be replaced by regions that tile the same addresses. -/
theorem replace (old new : List Region) (laid : Laid capacity (before ++ (old ++ behind)))
    (tiles : ∀ start stop, Tiles start stop old → Tiles start stop new)
    (positive : ∀ region ∈ new, 0 < region.size ∨ capacity = 0 ∧ region.isFree = true)
    (written : ∀ region ∈ new, region.Keeps) : Laid capacity (before ++ (new ++ behind)) := by
  have outside : ∀ {holds : Region → Prop}, (∀ region ∈ before ++ (old ++ behind), holds region) →
      (∀ region ∈ new, holds region) → ∀ region ∈ before ++ (new ++ behind), holds region := by
    intro holds held inside region member
    simp only [List.mem_append] at member held
    rcases member with first | middle | last
    · exact held region (.inl first)
    · exact inside region middle
    · exact held region (.inr (.inr last))
  obtain ⟨lower, first, rest⟩ := tiles_append.1 laid.tiles
  obtain ⟨upper, middle, last⟩ := tiles_append.1 rest
  refine ⟨?_, outside laid.positive positive, outside laid.written written⟩
  exact tiles_append.2 ⟨lower, first, tiles_append.2 ⟨upper, tiles lower upper middle, last⟩⟩

/-- A free region is split where it gives addresses away. -/
theorem allocIn (laid : Laid capacity regions) (positive : 0 < size)
    (found : allocIn size regions = some (address, result)) : Laid capacity result := by
  obtain ⟨before, region, behind, rfl, -, free, room, -, rfl⟩ := allocIn_eq_some found
  refine laid.replace [region] _ ?_ ?_ ?_
  · rintro start stop ⟨rfl, last⟩
    have last : region.start + region.size = stop := last
    unfold Region.split
    split
    · exact ⟨rfl, rfl, show region.start + size + (region.size - size) = stop by omega⟩
    · exact ⟨rfl, show region.start + size = stop by omega⟩
  · intro part member
    rcases Region.mem_split member with rfl | ⟨smaller, rfl⟩
    · exact .inl positive
    · exact .inl (Nat.sub_pos_of_lt smaller)
  · intro part member
    rcases Region.mem_split member with rfl | ⟨-, rfl⟩
    · intro cells same written inside
      cases same
      simp at inside
    · exact Region.keeps_of_none rfl

theorem freeIn (laid : Laid capacity regions) (found : freeIn address regions = some result) :
    Laid capacity result := by
  obtain ⟨before, region, behind, rfl, -, used, rfl⟩ := freeIn_eq_some found
  refine laid.replace [region] [{ region with cells := none }] (fun _ _ tiles => tiles) ?_ ?_
  · intro part member
    cases List.mem_singleton.1 member
    have old := laid.positive region (by simp)
    rw [used] at old
    exact .inl (old.resolve_right (by simp))
  · intro part member
    cases List.mem_singleton.1 member
    exact Region.keeps_of_none rfl

/-- A region in use may be written to at its own addresses. -/
theorem write {region : Region} {cells : Cells} (laid : Laid capacity (before ++ region :: behind))
    (inside : region.contains address = true) (used : region.cells = some cells) (value : Value) :
    Laid capacity (before ++ { region with cells := some (cells.insert address value) } :: behind) := by
  have member : region ∈ before ++ region :: behind := by simp
  refine laid.replace [region] [{ region with cells := some (cells.insert address value) }]
    (fun _ _ tiles => tiles) ?_ ?_
  · intro part single
    cases List.mem_singleton.1 single
    have old := laid.positive region member
    rw [Region.isFree_iff, used] at old
    exact .inl (old.resolve_right (by simp))
  · intro part single
    cases List.mem_singleton.1 single
    rintro _ ⟨⟩ other written
    rcases Std.TreeMap.mem_insert.1 written with same | before
    · rw [← Nat.compare_eq_eq.1 same]
      exact inside
    · exact laid.written region member cells used other before

theorem mergeFirst (laid : Laid capacity regions) (found : mergeFirst regions = some result) :
    Laid capacity result := by
  obtain ⟨before, first, second, behind, rfl, here, there, rfl⟩ := mergeFirst_eq_some found
  refine laid.replace [first, second] [{ first with size := first.size + second.size }] ?_ ?_ ?_
  · rintro start stop ⟨rfl, -, last⟩
    exact ⟨rfl, (Nat.add_assoc ..).symm.trans last⟩
  · intro part member
    cases List.mem_singleton.1 member
    rcases laid.positive first (by simp) with positive | empty
    · exact .inl (Nat.add_pos_left positive _)
    · exact .inr ⟨empty.1, here⟩
  · intro part member
    cases List.mem_singleton.1 member
    exact Region.keeps_of_none (Region.isFree_iff.1 here)

theorem condense (laid : Laid capacity regions) : Laid capacity (condense regions) :=
  condense_induct (fun _ _ step held => held.mergeFirst step) regions laid

/-- Where a region contains an address, no other one does. -/
theorem contains_unique (laid : Laid capacity regions) {first second : Nat} {here there : Region}
    (found : regions[first]? = some here) (inside : here.contains address = true)
    (found' : regions[second]? = some there) (inside' : there.contains address = true) : first = second := by
  have ordered := List.pairwise_iff_getElem.1 laid.tiles.ordered
  obtain ⟨bound, rfl⟩ := List.getElem?_eq_some_iff.1 found
  obtain ⟨bound', rfl⟩ := List.getElem?_eq_some_iff.1 found'
  rw [Region.contains_iff] at inside inside'
  rcases Nat.lt_trichotomy first second with less | same | more
  · have apart := ordered first second bound bound' less
    omega
  · exact same
  · have apart := ordered second first bound' bound more
    omega

theorem eq_of_contains (laid : Laid capacity regions) {first second : Region} (member : first ∈ regions)
    (inside : first.contains address = true) (member' : second ∈ regions) (inside' : second.contains address = true) :
    first = second := by
  obtain ⟨place, found⟩ := List.mem_iff_getElem?.1 member
  obtain ⟨place', found'⟩ := List.mem_iff_getElem?.1 member'
  cases laid.contains_unique found inside found' inside'
  exact Option.some.inj (found.symm.trans found')

/-- The regions around and beside the one that contains an address. -/
theorem exists_split (laid : Laid capacity regions) (below : address < capacity) :
    ∃ before region behind, regions = before ++ region :: behind ∧ region.contains address = true ∧
      ∀ other ∈ before ++ behind, other.contains address = false := by
  obtain ⟨place, region, found, inside⟩ := laid.tiles.exists_contains (Nat.zero_le address) below
  obtain ⟨bound, rfl⟩ := List.getElem?_eq_some_iff.1 found
  have whole : regions = regions.take place ++ regions[place] :: regions.drop (place + 1) := by simp
  refine ⟨_, _, _, whole, inside, ?_⟩
  have ordered := laid.tiles.ordered
  rw [whole, List.pairwise_append, List.pairwise_cons] at ordered
  obtain ⟨-, ⟨later, -⟩, earlier⟩ := ordered
  have bounds := Region.contains_iff.1 inside
  intro other member
  rw [← Bool.not_eq_true, Region.contains_iff]
  rcases List.mem_append.1 member with first | last
  · have apart := earlier other first _ List.mem_cons_self
    omega
  · have apart := later other last
    omega

/-- The first region that contains an address is the only one. -/
theorem find?_eq (laid : Laid capacity regions) {place : Nat} {region : Region} (found : regions[place]? = some region)
    (inside : region.contains address = true) : (regions.find? fun other => other.contains address) = some region := by
  obtain ⟨bound, here⟩ := List.getElem?_eq_some_iff.1 found
  refine List.find?_eq_some_iff_getElem.2 ⟨inside, place, bound, here, ?_⟩
  intro other before
  by_contra contained
  have inside' : regions[other].contains address = true := by simpa using contained
  have same := laid.contains_unique (List.getElem?_eq_getElem (by omega)) inside' found inside
  omega

theorem ascending (laid : Laid capacity regions) (positive : 0 < capacity) :
    Ascending regions := by
  refine laid.tiles.ordered.imp_of_mem ?_
  intro first second member _ before
  have size := (laid.positive first member).resolve_right (by omega)
  omega

end Laid

end TapeMachine
