import Mathlib
import TapeMachine.Proofs.Vacancy

namespace TapeMachine

/-- The regions in use, in the order of their addresses. -/
def usedIn (regions : List Region) : List Region :=
  regions.filter fun region => !region.isFree

variable {regions before behind result : List Region} {region other : Region} {start stop size address capacity : Nat}

theorem usedIn_append (first second : List Region) : usedIn (first ++ second) = usedIn first ++ usedIn second :=
  List.filter_append ..

theorem usedIn_cons_free (free : region.isFree = true) (rest : List Region) :
    usedIn (region :: rest) = usedIn rest := by
  simp [usedIn, free]

theorem usedIn_cons_used (used : region.isFree = false) (rest : List Region) :
    usedIn (region :: rest) = region :: usedIn rest := by
  simp [usedIn, used]

theorem mem_usedIn : region ∈ usedIn regions ↔ region ∈ regions ∧ region.isFree = false := by
  simp [usedIn]

theorem usedIn_condense (regions : List Region) : usedIn (condense regions) = usedIn regions := by
  refine @condense_induct (fun result => usedIn result = usedIn regions) ?_ regions rfl
  intro earlier merged step same
  obtain ⟨before, first, second, behind, rfl, here, there, rfl⟩ := mergeFirst_eq_some step
  rw [usedIn_append, usedIn_cons_free here, usedIn_cons_free there] at same
  have joined : Region.isFree { first with size := first.size + second.size } = true := here
  rw [usedIn_append, usedIn_cons_free joined]
  exact same

/-- A free region goes on to the next one in use, or else to the end. -/
theorem Tiles.free_stop (tiles : Tiles start stop (region :: regions))
    (apart : (region :: regions).IsChain Region.Apart) (free : region.isFree = true) :
    start + region.size = ((usedIn regions).head?.map Region.start).getD stop := by
  obtain ⟨-, later⟩ := tiles
  cases regions with
  | nil => exact later
  | cons next rest =>
    have used : next.isFree = false := by
      rw [← Bool.not_eq_true]
      exact fun free' => (List.isChain_cons_cons.1 apart).1 ⟨free, free'⟩
    rw [usedIn_cons_used used]
    exact later.1.symm

/-- Where one list of regions begins with a region in use, so does every other one with the same regions in use: behind a
free region they would begin later. -/
theorem Tiles.front_used {region other : Region} {rest others : List Region}
    (tiles : Tiles start stop (region :: rest)) (tiles' : Tiles start stop (other :: others))
    (apart' : (other :: others).IsChain Region.Apart) (positive' : 0 < other.size)
    (used : usedIn (region :: rest) = usedIn (other :: others)) (inUse : region.isFree = false) :
    other.isFree = false := by
  by_contra free'
  rw [Bool.not_eq_false] at free'
  have ends := tiles'.free_stop apart' free'
  rw [usedIn_cons_used inUse, usedIn_cons_free free'] at used
  rw [← used] at ends
  have begins : start + other.size = region.start := ends
  have here := tiles.1
  omega

theorem Region.eq_of_isFree {region other : Region} (free : region.isFree = true) (free' : other.isFree = true)
    (start : region.start = other.start) (size : region.size = other.size) : region = other := by
  have cells : region.cells = other.cells := (Region.isFree_iff.1 free).trans (Region.isFree_iff.1 free').symm
  cases region
  cases other
  cases start
  cases size
  cases cells
  rfl

/-- The first regions are the same. -/
theorem Tiles.front_eq {region other : Region} {rest others : List Region}
    (tiles : Tiles start stop (region :: rest)) (tiles' : Tiles start stop (other :: others))
    (apart : (region :: rest).IsChain Region.Apart) (apart' : (other :: others).IsChain Region.Apart)
    (positive : 0 < region.size) (positive' : 0 < other.size)
    (used : usedIn (region :: rest) = usedIn (other :: others)) :
    region = other ∧ usedIn rest = usedIn others := by
  cases free : region.isFree with
  | false =>
    have free' := tiles.front_used tiles' apart' positive' used free
    rw [usedIn_cons_used free, usedIn_cons_used free'] at used
    exact List.cons.inj used
  | true =>
    have free' : other.isFree = true := by
      by_contra inUse
      rw [Bool.not_eq_true] at inUse
      rw [tiles'.front_used tiles apart positive used.symm inUse] at free
      cases free
    have ends := tiles.free_stop apart free
    have ends' := tiles'.free_stop apart' free'
    rw [usedIn_cons_free free, usedIn_cons_free free'] at used
    rw [used, ← ends'] at ends
    exact ⟨Region.eq_of_isFree free free' (tiles.1.trans tiles'.1.symm) (Nat.add_left_cancel ends), used⟩

/-- Regions without empty ones or free neighbours among them are determined by those in use. -/
theorem Tiles.eq_of_usedIn {first second : List Region} (tiles : Tiles start stop first)
    (tiles' : Tiles start stop second) (apart : first.IsChain Region.Apart) (apart' : second.IsChain Region.Apart)
    (positive : ∀ region ∈ first, 0 < region.size) (positive' : ∀ region ∈ second, 0 < region.size)
    (used : usedIn first = usedIn second) : first = second := by
  induction first generalizing start second with
  | nil =>
    cases second with
    | nil => rfl
    | cons other others =>
      have size_pos := positive' other List.mem_cons_self
      have bound := tiles'.2.le
      have same : start = stop := tiles
      omega
  | cons region rest ih =>
    have size_pos := positive region List.mem_cons_self
    cases second with
    | nil =>
      have bound := tiles.2.le
      have same : start = stop := tiles'
      omega
    | cons other others =>
      have size_pos' := positive' other List.mem_cons_self
      obtain ⟨rfl, later⟩ := tiles.front_eq tiles' apart apart' size_pos size_pos' used
      have positive_rest : ∀ one ∈ rest, 0 < one.size := fun one member => positive one (List.mem_cons_of_mem _ member)
      have positive_others : ∀ one ∈ others, 0 < one.size :=
        fun one member => positive' one (List.mem_cons_of_mem _ member)
      rw [ih tiles.2 tiles'.2 apart.of_cons apart'.of_cons positive_rest positive_others later]

namespace Heap

variable {heap next : Heap} {value : Value}

theorem usedRegions_eq (heap : Heap) : heap.usedRegions = usedIn heap.regions :=
  rfl

namespace Tiled

/-- The regions of a heap are determined by those in use. -/
theorem ext {other : Heap} (tiled : heap.Tiled) (tiled' : other.Tiled) (same : heap.capacity = other.capacity)
    (positive : 0 < heap.capacity) (used : heap.usedRegions = other.usedRegions) : heap = other := by
  obtain ⟨capacity, regions⟩ := heap
  obtain ⟨capacity', regions'⟩ := other
  cases same
  have regions_eq : regions = regions' := tiled.tiles.eq_of_usedIn tiled'.tiles tiled.apart tiled'.apart
    (fun region member => (tiled.positive region member).resolve_right fun empty => positive.ne' empty.1)
    (fun region member => (tiled'.positive region member).resolve_right fun empty => positive.ne' empty.1) used
  rw [regions_eq]

/-- No other region begins where a region in use begins, unless it is empty. -/
theorem filter_start (tiled : heap.Tiled) (whole : heap.regions = before ++ region :: behind)
    (used : region.isFree = false) :
    heap.usedRegions.filter (fun other => other.start ≠ region.start) = usedIn (before ++ behind) := by
  have size_pos : ∀ other ∈ heap.regions, other.isFree = false → 0 < other.size := by
    intro other member inUse
    exact (tiled.positive other member).resolve_right (by simp [inUse])
  have ordered := tiled.tiles.ordered
  rw [whole, List.pairwise_append, List.pairwise_cons] at ordered
  obtain ⟨-, ⟨later, -⟩, earlier⟩ := ordered
  have keeps : ∀ other ∈ usedIn (before ++ behind), other.start ≠ region.start := by
    intro other member
    obtain ⟨inside, inUse⟩ := mem_usedIn.1 member
    rcases List.mem_append.1 inside with first | last
    · have apart := earlier other first region List.mem_cons_self
      have positive := size_pos other (by simp [whole, first]) inUse
      omega
    · have apart := later other last
      have positive := size_pos region (by simp [whole]) used
      omega
  rw [usedRegions_eq, whole, usedIn_append, usedIn_cons_used used, List.filter_append,
    List.filter_cons_of_neg (by simp), ← List.filter_append, ← usedIn_append]
  exact List.filter_eq_self.2 fun other member => decide_eq_true (keeps other member)

/-- A region in use can be freed, and then it is the only one that is not in use any more. -/
theorem free_used (tiled : heap.Tiled) (member : region ∈ heap.usedRegions) :
    ∃ next, heap.free region.start = .ok next ∧ next.Tiled ∧ next.capacity = heap.capacity ∧
      next.usedRegions = heap.usedRegions.filter fun other => other.start ≠ region.start := by
  obtain ⟨inside, inUse⟩ := mem_usedRegions.1 member
  cases freed : heap.free region.start with
  | error cause =>
    unfold Heap.free at freed
    split at freed
    · cases freed
    · rename_i failed
      have free := freeIn_eq_none failed inside rfl
      rw [inUse] at free
      cases free
  | ok next =>
    have next_tiled := tiled.free freed
    obtain ⟨regions, found, rfl⟩ := free_eq_ok freed
    obtain ⟨before, owner, behind, whole, begins, used, rfl⟩ := freeIn_eq_some found
    refine ⟨_, rfl, next_tiled, rfl, ?_⟩
    rw [← begins, tiled.filter_start whole used, usedRegions_eq, usedIn_condense, usedIn_append,
      usedIn_cons_free rfl, usedIn_append]

/-- Regions in use can be freed one after the other, and then the others are left. -/
theorem foldlM_free {starts : List Nat} (tiled : heap.Tiled) (distinct : starts.Nodup)
    (begin : ∀ start ∈ starts, ∃ region ∈ heap.usedRegions, region.start = start) :
    ∃ freed, starts.foldlM Heap.free heap = .ok freed ∧ freed.Tiled ∧ freed.capacity = heap.capacity ∧
      freed.usedRegions = heap.usedRegions.filter fun region => region.start ∉ starts := by
  induction starts generalizing heap with
  | nil => exact ⟨heap, rfl, tiled, rfl, by simp⟩
  | cons start rest ih =>
    obtain ⟨fresh, distinct'⟩ := List.nodup_cons.1 distinct
    obtain ⟨region, member, rfl⟩ := begin start List.mem_cons_self
    obtain ⟨next, freed, next_tiled, same, left⟩ := tiled.free_used member
    have begin' : ∀ start ∈ rest, ∃ region ∈ next.usedRegions, region.start = start := by
      intro start later
      obtain ⟨other, member', rfl⟩ := begin start (List.mem_cons_of_mem _ later)
      refine ⟨other, ?_, rfl⟩
      rw [left]
      exact List.mem_filter.2 ⟨member', decide_eq_true fun begins => fresh (begins ▸ later)⟩
    obtain ⟨last, freed', last_tiled, same', left'⟩ := ih next_tiled distinct' begin'
    refine ⟨last, ?_, last_tiled, same'.trans same, ?_⟩
    · rw [List.foldlM_cons, freed]
      exact freed'
    · rw [left', left, List.filter_filter]
      refine List.filter_congr fun other _ => ?_
      simp [not_or, Bool.and_comm]

/-- Behind an allocation one more region is in use. -/
theorem used_of_alloc (tiled : heap.Tiled) (allocated : heap.alloc size = .ok (address, next)) :
    ⟨address, size, some ∅⟩ ∈ next.usedRegions ∧
      next.usedRegions.filter (fun region => region.start ≠ address) = heap.usedRegions := by
  have next_tiled := tiled.alloc allocated
  obtain ⟨regions, found, rfl⟩ := tiled.alloc_eq allocated
  obtain ⟨before, region, behind, whole, -, free, -, rfl, rfl⟩ := allocIn_eq_some found
  have left : usedIn (before ++ ((region.split size).tail ++ behind)) = usedIn heap.regions := by
    rw [whole, usedIn_append, usedIn_append, usedIn_append, usedIn_cons_free free]
    unfold Region.split
    rw [List.tail_cons]
    split
    · rw [usedIn_cons_free rfl]
      rfl
    · rfl
  have split : region.split size = ⟨region.start, size, some ∅⟩ :: (region.split size).tail := rfl
  refine ⟨mem_usedRegions.2 ⟨by rw [split]; simp, rfl⟩, ?_⟩
  rw [usedRegions_eq heap, ← left]
  exact @filter_start before _ ⟨region.start, size, some ∅⟩ _ next_tiled (by rw [split]; rfl) rfl

/-- A value that is saved goes into the cells of the region around the place. -/
theorem save_split (tiled : heap.Tiled) (member : region ∈ heap.usedRegions) (inside : region.contains address = true)
    (value : Value) :
    ∃ before cells behind, heap.regions = before ++ region :: behind ∧ region.cells = some cells ∧
      (∀ other ∈ before ++ behind, other.contains address = false) ∧ address < heap.capacity ∧
      heap.save address value =
        .ok { heap with regions := before ++ { region with cells := some (cells.insert address value) } :: behind } := by
  obtain ⟨found, inUse⟩ := mem_usedRegions.1 member
  have bounds := tiled.tiles.bounds found
  have within := Region.contains_iff.1 inside
  have below : address < heap.capacity := by omega
  obtain ⟨before, owner, behind, whole, around, others⟩ := tiled.toLaid.exists_split below
  obtain rfl : region = owner := tiled.toLaid.eq_of_contains found inside (by simp [whole]) around
  obtain ⟨cells, used⟩ : ∃ cells, region.cells = some cells := by
    cases same : region.cells with
    | none => simp [Region.isFree, same] at inUse
    | some cells => exact ⟨cells, rfl⟩
  refine ⟨before, cells, behind, whole, used, others, below, ?_⟩
  rw [tiled.save_eq whole inside, used]

/-- Where a value is saved, the region around the place is in use as before, and the others are the same. -/
theorem save_used (tiled : heap.Tiled) (member : region ∈ heap.usedRegions) (inside : region.contains address = true)
    (value : Value) :
    ∃ next cells, heap.save address value = .ok next ∧ next.Tiled ∧ next.capacity = heap.capacity ∧
      { region with cells := some cells } ∈ next.usedRegions ∧
      next.usedRegions.filter (fun other => other.start ≠ region.start) =
        heap.usedRegions.filter fun other => other.start ≠ region.start := by
  obtain ⟨before, cells, behind, whole, -, -, -, saved⟩ := tiled.save_split member inside value
  have next_tiled := tiled.save saved
  refine ⟨_, cells.insert address value, saved, next_tiled, rfl, mem_usedRegions.2 ⟨by simp, rfl⟩, ?_⟩
  rw [tiled.filter_start whole (mem_usedRegions.1 member).2]
  exact @filter_start before behind { region with cells := some (cells.insert address value) } _ next_tiled rfl rfl

/-- The same holds of any number of values that are saved in the region. -/
theorem foldlM_save {saves : List (Nat × Value)} (tiled : heap.Tiled) (member : region ∈ heap.usedRegions)
    (inside : ∀ save ∈ saves, region.contains save.1 = true) :
    ∃ written cells, saves.foldlM (fun heap save => heap.save save.1 save.2) heap = .ok written ∧ written.Tiled ∧
      written.capacity = heap.capacity ∧ { region with cells := cells } ∈ written.usedRegions ∧
      written.usedRegions.filter (fun other => other.start ≠ region.start) =
        heap.usedRegions.filter fun other => other.start ≠ region.start := by
  induction saves generalizing heap region with
  | nil => exact ⟨heap, region.cells, rfl, tiled, rfl, member, rfl⟩
  | cons save rest ih =>
    obtain ⟨next, cells, saved, next_tiled, same, member', left⟩ :=
      tiled.save_used member (inside save List.mem_cons_self) save.2
    obtain ⟨written, cells', saved', written_tiled, same', member'', left'⟩ :=
      ih next_tiled member' fun later found => inside later (List.mem_cons_of_mem _ found)
    refine ⟨written, cells', ?_, written_tiled, same'.trans same, member'', left'.trans left⟩
    rw [List.foldlM_cons, saved]
    exact saved'

/-- What has been allocated can be written to and freed, and then the heap is what it was before. -/
theorem free_after_alloc (tiled : heap.Tiled) (room : 0 < heap.capacity)
    (allocated : heap.alloc size = .ok (address, next)) {saves : List (Nat × Value)}
    (inside : ∀ save ∈ saves, address ≤ save.1 ∧ save.1 < address + size) :
    ∃ written, saves.foldlM (fun heap save => heap.save save.1 save.2) next = .ok written ∧
      written.free address = .ok heap := by
  obtain ⟨member, left⟩ := tiled.used_of_alloc allocated
  obtain ⟨written, cells, saved, written_tiled, same, member', left'⟩ :=
    (tiled.alloc allocated).foldlM_save member fun save found => Region.contains_iff.2 (inside save found)
  obtain ⟨freed, done, freed_tiled, same', left''⟩ := written_tiled.free_used member'
  have capacity_eq : next.capacity = heap.capacity := by
    obtain ⟨-, regions, -, rfl⟩ := alloc_eq_ok allocated
    rfl
  have back : heap = freed := by
    refine tiled.ext freed_tiled ?_ room ?_
    · rw [same', same, capacity_eq]
    · rw [left'', left', left]
  exact ⟨written, saved, back ▸ done⟩

/-- Regions in use can be freed in any order. -/
theorem foldlM_free_perm {starts order : List Nat} (tiled : heap.Tiled) (room : 0 < heap.capacity)
    (distinct : starts.Nodup) (begin : ∀ start ∈ starts, ∃ region ∈ heap.usedRegions, region.start = start)
    (perm : order.Perm starts) : order.foldlM Heap.free heap = starts.foldlM Heap.free heap := by
  obtain ⟨freed, done, freed_tiled, same, left⟩ := tiled.foldlM_free distinct begin
  obtain ⟨freed', done', freed_tiled', same', left'⟩ :=
    tiled.foldlM_free (perm.nodup_iff.2 distinct) fun start member => begin start (perm.mem_iff.1 member)
  have used : freed'.usedRegions = freed.usedRegions := by
    rw [left', left]
    refine List.filter_congr fun region _ => ?_
    simp only [perm.mem_iff]
  rw [done, done', freed_tiled'.ext freed_tiled (same'.trans same.symm) (by rwa [same']) used]

end Tiled

/-- A heap without slots never changes. -/
theorem after_new_zero (calls : List Call) : (new 0).after calls = new 0 := by
  induction calls with
  | nil => rfl
  | cons call rest ih =>
    have unchanged : ((new 0).respond call).2 = new 0 := by
      cases call with
      | alloc size =>
        rw [respond, alloc]
        split
        · rfl
        · rename_i some
          have none : allocIn size (new 0).regions = none := by simp [new, allocIn, some]
          rw [none]
          rfl
      | free address =>
        have none : freeIn address (new 0).regions = none := by simp [new, freeIn, Region.isFree]
        rw [respond, free, none]
        rfl
      | save address value =>
        rw [respond, save, cellsAt, if_pos (show (new 0).capacity ≤ address from Nat.zero_le address)]
        rfl
      | load address =>
        rw [respond, load, cellsAt, if_pos (show (new 0).capacity ≤ address from Nat.zero_le address)]
        rfl
      | condense => exact (new_tiled 0).condense
    exact (congrArg (fun heap => after heap rest) unchanged).trans ih

end Heap

/-- Freeing undoes allocating, and its order does not matter. Whatever has been asked of a heap before, what an
allocation has given away can be written to and freed again, and then the heap is what it was; and regions in use can be
freed in any order, always with the same heap behind it, which is a new one if they were all there were. -/
theorem freeing_undoes_allocating (capacity : Nat) (calls : List Heap.Call) :
    (∀ size address next, ((Heap.new capacity).after calls).alloc size = .ok (address, next) →
      ∀ saves : List (Nat × Value), (∀ save ∈ saves, address ≤ save.1 ∧ save.1 < address + size) →
        ∃ written, saves.foldlM (fun heap save => heap.save save.1 save.2) next = .ok written ∧
          written.free address = .ok ((Heap.new capacity).after calls)) ∧
    ∀ starts : List Nat, starts.Nodup →
      (∀ start ∈ starts, ∃ region ∈ ((Heap.new capacity).after calls).usedRegions, region.start = start) →
      ∃ freed, (∀ order : List Nat, order.Perm starts →
          order.foldlM Heap.free ((Heap.new capacity).after calls) = .ok freed) ∧
        ((∀ region ∈ ((Heap.new capacity).after calls).usedRegions, region.start ∈ starts) →
          freed = Heap.new capacity) := by
  obtain ⟨tiled, same⟩ := (Heap.new_tiled capacity).after calls
  rcases Nat.eq_zero_or_pos capacity with rfl | positive
  · rw [Heap.after_new_zero] at tiled ⊢
    refine ⟨fun size address next allocated => ?_, fun starts _ begin => ?_⟩
    · obtain ⟨some, regions, found, -⟩ := Heap.alloc_eq_ok allocated
      simp [Heap.new, allocIn, some.ne'] at found
    · cases starts with
      | nil => exact ⟨Heap.new 0, fun order perm => by rw [perm.eq_nil]; rfl, fun _ => rfl⟩
      | cons start rest =>
        obtain ⟨region, member, -⟩ := begin start List.mem_cons_self
        cases member
  · have room : 0 < ((Heap.new capacity).after calls).capacity := same ▸ positive
    generalize (Heap.new capacity).after calls = heap at tiled same room
    refine ⟨fun size address next allocated saves inside => tiled.free_after_alloc room allocated inside, ?_⟩
    intro starts distinct begin
    obtain ⟨freed, done, freed_tiled, same', left⟩ := tiled.foldlM_free distinct begin
    refine ⟨freed, fun order perm => (tiled.foldlM_free_perm room distinct begin perm).trans done, fun all => ?_⟩
    refine freed_tiled.ext (Heap.new_tiled capacity) (same'.trans same) (by rwa [same']) ?_
    rw [left]
    exact List.filter_eq_nil_iff.2 fun region member => by simpa using all region member

/-- Of three blocks the one in the middle is written to and freed, or all three are freed, the last one first. -/
theorem three_blocks_freed :
    (∃ next written, ((Heap.new 20).after [.alloc 3, .alloc 5, .alloc 2, .free 3]).alloc 4 = .ok (3, next) ∧
      (next.save 6 (.pointer 8) >>= fun heap => heap.save 3 (.pointer 0)) = .ok written ∧
      written.free 3 = .ok ((Heap.new 20).after [.alloc 3, .alloc 5, .alloc 2, .free 3])) ∧
    [8, 0, 3].foldlM Heap.free ((Heap.new 20).after [.alloc 3, .alloc 5, .alloc 2]) = .ok (Heap.new 20) := by
  have allocated : ((Heap.new 20).after [.alloc 3, .alloc 5, .alloc 2, .free 3]).alloc 4 =
      .ok (3, ⟨20, [⟨0, 3, some ∅⟩, ⟨3, 4, some ∅⟩, ⟨7, 1, none⟩, ⟨8, 2, some ∅⟩, ⟨10, 10, none⟩]⟩) := by cbv
  have used : ((Heap.new 20).after [.alloc 3, .alloc 5, .alloc 2]).usedRegions =
      [⟨0, 3, some ∅⟩, ⟨3, 5, some ∅⟩, ⟨8, 2, some ∅⟩] := by cbv
  obtain ⟨written, saved, freed⟩ := (freeing_undoes_allocating 20 _).1 4 3 _ allocated
    [(6, .pointer 8), (3, .pointer 0)] (by simp)
  obtain ⟨left, orders, none⟩ := (freeing_undoes_allocating 20 [.alloc 3, .alloc 5, .alloc 2]).2 [0, 3, 8] (by decide)
    (by simp [used])
  have new : left = Heap.new 20 := none (by simp [used])
  exact ⟨⟨_, written, allocated, by simpa using saved, freed⟩, new ▸ orders [8, 0, 3] (by decide)⟩

end TapeMachine
