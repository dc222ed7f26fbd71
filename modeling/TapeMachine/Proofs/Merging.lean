import Mathlib
import TapeMachine.Proofs.Tiling

namespace TapeMachine

/-- The sizes of regions together. -/
def total (regions : List Region) : Nat :=
  (regions.map Region.size).sum

/-- The scan for free neighbours, place by place, with sizes that are machine words. It stands at `index`, and starts over
where it has joined two regions. A list is related to what is left of it when the scan has come to its end. -/
inductive Scans : (index : Nat) → (regions result : List Region) → Prop
  | done {index : Nat} {regions : List Region} : regions.length ≤ index + 1 → Scans index regions regions
  | pass {index : Nat} {regions result : List Region} {first second : Region} : regions[index]? = some first →
      regions[index + 1]? = some second → first.Apart second → Scans (index + 1) regions result →
      Scans index regions result
  | join {index : Nat} {regions result : List Region} {first second : Region} : regions[index]? = some first →
      regions[index + 1]? = some second → ¬first.Apart second →
      Scans 0 (regions.take index ++ { first with size := (first.size + second.size) % addressLimit } ::
        regions.drop (index + 2)) result →
      Scans index regions result

/-- Neighbours that are to be joined. -/
def Region.bothFree (first second : Region) : Bool :=
  first.isFree && second.isFree

/-- Neighbours as one region: it begins where the first of them begins and has all their sizes. -/
def joinRun : List Region → List Region
  | [] => []
  | first :: rest => [{ first with size := first.size + total rest }]

/-- Every run of free neighbours that cannot be made longer becomes one region. A region in use is a run of its own. -/
def mergeRuns (regions : List Region) : List Region :=
  (regions.splitBy Region.bothFree).flatMap joinRun

/-- Put a region before regions that have been merged. -/
def Region.absorb (region : Region) : List Region → List Region
  | [] => [region]
  | next :: later =>
    if region.bothFree next then { region with size := region.size + next.size } :: later
    else region :: next :: later

variable {regions before behind merged result other : List Region} {region first second next : Region} {index : Nat}

section Runs

variable {α : Type} {r : α → α → Bool} {a b : α}

/-- The first run gets longer by an element that is related to its first one. -/
theorem splitBy_cons_of_rel (related : r a b = true) (rest : List α) :
    ∃ run runs, (b :: rest).splitBy r = (b :: run) :: runs ∧ (a :: b :: rest).splitBy r = (a :: b :: run) :: runs := by
  have runs_ne_nil : (b :: rest).splitBy r ≠ [] := List.splitBy_ne_nil.2 (List.cons_ne_nil b rest)
  obtain ⟨run, runs, split⟩ := List.exists_cons_of_ne_nil runs_ne_nil
  obtain ⟨whole, some, chains, ends⟩ := List.splitBy_eq_iff.1 split
  cases run with
  | nil => exact (some List.mem_cons_self).elim
  | cons head run =>
    obtain ⟨rfl, rfl⟩ : b = head ∧ rest = run ++ runs.flatten := by simpa using whole
    refine ⟨run, runs, split, List.splitBy_eq_iff.2 ⟨by simp, by simpa using some, ?_, ?_⟩⟩
    · intro one member
      rcases List.mem_cons.1 member with rfl | later
      · exact .cons_cons related (chains _ List.mem_cons_self)
      · exact chains one (List.mem_cons_of_mem _ later)
    · refine List.isChain_cons.2 ⟨fun one head => ?_, (List.isChain_cons.1 ends).2⟩
      obtain ⟨some, other, apart⟩ := (List.isChain_cons.1 ends).1 one head
      exact ⟨List.cons_ne_nil _ _, other, by rwa [List.getLast_cons some]⟩

theorem splitBy_cons_of_not_rel (apart : r a b = false) (rest : List α) :
    (a :: b :: rest).splitBy r = [a] :: (b :: rest).splitBy r :=
  @List.splitBy_append_cons α r [a] b rest (by simpa using apart)

end Runs

theorem mergeRuns_nil : mergeRuns [] = [] :=
  rfl

/-- Merging keeps the place and the use of the first region. -/
theorem mergeRuns_cons_head (region : Region) (rest : List Region) :
    ∃ size later, mergeRuns (region :: rest) = { region with size } :: later := by
  cases rest with
  | nil => exact ⟨_, _, rfl⟩
  | cons next rest =>
    cases both : region.bothFree next with
    | true =>
      obtain ⟨run, runs, -, split⟩ := splitBy_cons_of_rel both rest
      exact ⟨_, _, by rw [mergeRuns, split]; rfl⟩
    | false =>
      have split := splitBy_cons_of_not_rel both rest
      exact ⟨_, _, by rw [mergeRuns, split]; rfl⟩

/-- The runs can be merged in one pass from the last region to the first. -/
theorem mergeRuns_cons (region : Region) (rest : List Region) :
    mergeRuns (region :: rest) = region.absorb (mergeRuns rest) := by
  cases rest with
  | nil => rfl
  | cons next rest =>
    cases both : region.bothFree next with
    | true =>
      obtain ⟨run, runs, inner, split⟩ := splitBy_cons_of_rel both rest
      have joined : mergeRuns (next :: rest) = { next with size := next.size + total run } :: runs.flatMap joinRun := by
        rw [mergeRuns, inner]
        rfl
      have free : region.bothFree { next with size := next.size + total run } = true := both
      rw [joined, Region.absorb, if_pos free, mergeRuns, split]
      simp [joinRun, total]
    | false =>
      obtain ⟨size, later, joined⟩ := mergeRuns_cons_head next rest
      have split := splitBy_cons_of_not_rel both rest
      have one_used : ¬region.bothFree { next with size } = true := by
        rw [show region.bothFree { next with size } = region.bothFree next from rfl, both]
        exact Bool.false_ne_true
      rw [joined, Region.absorb, if_neg one_used, ← joined, mergeRuns, split]
      rfl

theorem mergeRuns_append (before behind : List Region) :
    mergeRuns (before ++ behind) = before.foldr Region.absorb (mergeRuns behind) := by
  induction before with
  | nil => rfl
  | cons region rest ih => rw [List.cons_append, mergeRuns_cons, ih, List.foldr_cons]

/-- Two free neighbours may be joined before the rest is merged. -/
theorem absorb_absorb (here : first.isFree = true) (there : second.isFree = true) (merged : List Region) :
    first.absorb (second.absorb merged) = { first with size := first.size + second.size }.absorb merged := by
  have joined : Region.isFree { first with size := first.size + second.size } = true := here
  cases merged with
  | nil => simp [Region.absorb, Region.bothFree, here, there]
  | cons next later =>
    cases free : next.isFree with
    | true =>
      have whole : Region.isFree { second with size := second.size + next.size } = true := there
      simp [Region.absorb, Region.bothFree, here, there, free, joined, whole, Nat.add_assoc]
    | false => simp [Region.absorb, Region.bothFree, here, there, free, joined]

theorem mergeRuns_of_mergeFirst (step : mergeFirst regions = some merged) : mergeRuns merged = mergeRuns regions := by
  obtain ⟨before, first, second, behind, rfl, here, there, rfl⟩ := mergeFirst_eq_some step
  rw [mergeRuns_append, mergeRuns_append, mergeRuns_cons, mergeRuns_cons, mergeRuns_cons, absorb_absorb here there]

/-- Where no two neighbours are free there is nothing to merge. -/
theorem mergeRuns_of_apart (apart : regions.IsChain Region.Apart) : mergeRuns regions = regions := by
  induction regions with
  | nil => exact mergeRuns_nil
  | cons region rest ih =>
    rw [mergeRuns_cons, ih apart.of_cons]
    cases rest with
    | nil => rfl
    | cons next rest =>
      have one_used : ¬region.bothFree next = true := by
        simpa [Region.Apart, Region.bothFree] using (List.isChain_cons_cons.1 apart).1
      rw [Region.absorb, if_neg one_used]

/-- Joining the first two free neighbours, as long as there are any, merges the runs. -/
theorem condense_eq_mergeRuns (regions : List Region) : condense regions = mergeRuns regions := by
  have same : mergeRuns (condense regions) = mergeRuns regions :=
    condense_induct (fun _ _ step held => (mergeRuns_of_mergeFirst step).trans held) regions rfl
  rw [← mergeRuns_of_apart (condense_apart regions), same]

theorem condense_condense (regions : List Region) : condense (condense regions) = condense regions :=
  condense_of_apart (condense_apart regions)

theorem condense_of_mergeFirst (step : mergeFirst regions = some merged) : condense regions = condense merged := by
  rw [condense]
  split
  · rename_i merged' step'
    cases step.symm.trans step'
    rfl
  · rename_i none
    cases step.symm.trans none

/-- The first free neighbours are those before which there are none. -/
theorem mergeFirst_append (apart : (before ++ [first]).IsChain Region.Apart) (here : first.isFree = true)
    (there : second.isFree = true) (behind : List Region) :
    mergeFirst (before ++ first :: second :: behind) =
      some (before ++ { first with size := first.size + second.size } :: behind) := by
  induction before with
  | nil => simp [mergeFirst, here, there]
  | cons region rest ih =>
    have later := ih apart.of_cons
    cases rest with
    | nil =>
      have one_used : ¬(region.isFree && first.isFree) = true := by
        simpa [Region.Apart] using (List.isChain_cons_cons.1 apart).1
      rw [List.cons_append, List.nil_append, mergeFirst, if_neg one_used]
      rw [List.nil_append] at later
      rw [later]
      rfl
    | cons next rest =>
      have one_used : ¬(region.isFree && next.isFree) = true := by
        simpa [Region.Apart] using (List.isChain_cons_cons.1 apart).1
      rw [List.cons_append, List.cons_append, mergeFirst, if_neg one_used]
      rw [List.cons_append] at later
      rw [later]
      rfl

namespace Scans

/-- The scan comes to one end at most. -/
theorem unique (scans : Scans index regions result) (scans' : Scans index regions other) : result = other := by
  induction scans generalizing other with
  | done short =>
    cases scans' with
    | done => rfl
    | pass _ second | join _ second =>
      have := (List.getElem?_eq_some_iff.1 second).1
      omega
  | pass first second apart _ ih =>
    cases scans' with
    | done short =>
      have := (List.getElem?_eq_some_iff.1 second).1
      omega
    | pass _ _ _ later => exact ih later
    | join first' second' free =>
      cases first.symm.trans first'
      cases second.symm.trans second'
      exact (free apart).elim
  | join first second free _ ih =>
    cases scans' with
    | done short =>
      have := (List.getElem?_eq_some_iff.1 second).1
      omega
    | pass first' second' apart =>
      cases first.symm.trans first'
      cases second.symm.trans second'
      exact (free apart).elim
    | join first' second' _ later =>
      cases first.symm.trans first'
      cases second.symm.trans second'
      exact ih later

end Scans

theorem total_append (first second : List Region) : total (first ++ second) = total first + total second := by
  simp [total]

theorem total_cons (region : Region) (rest : List Region) : total (region :: rest) = region.size + total rest := by
  simp [total]

/-- If the sizes together are an address, the scan ends, and what it leaves is condensed. Behind the place where it stands
there may be free neighbours, before it there are none. -/
theorem scans_condense (before : List Region) (first : Region) (behind : List Region)
    (bounded : total (before ++ first :: behind) < addressLimit) (apart : (before ++ [first]).IsChain Region.Apart) :
    Scans before.length (before ++ first :: behind) (condense (before ++ first :: behind)) := by
  match behind with
  | [] =>
    rw [condense_of_apart apart]
    exact .done (by simp)
  | second :: behind =>
    have here : (before ++ first :: second :: behind)[before.length]? = some first := by simp
    have there : (before ++ first :: second :: behind)[before.length + 1]? = some second := by simp
    by_cases used : first.Apart second
    · have apart' : ((before ++ [first]) ++ [second]).IsChain Region.Apart :=
        List.isChain_append.2 ⟨apart, .singleton _, by simpa using used⟩
      have later := scans_condense (before ++ [first]) second behind (by simpa using bounded) apart'
      simp only [List.append_assoc, List.singleton_append, List.length_append, List.length_singleton] at later
      exact .pass here there used later
    · obtain ⟨here', there'⟩ : first.isFree = true ∧ second.isFree = true := not_not.1 used
      have sum : total (before ++ first :: second :: behind) = total before + (first.size + second.size + total behind) := by
        simp only [total_append, total_cons]
        omega
      have fits : (first.size + second.size) % addressLimit = first.size + second.size :=
        Nat.mod_eq_of_lt (by omega)
      have merged := mergeFirst_append apart here' there' behind
      have bounded' : total (before ++ { first with size := first.size + second.size } :: behind) < addressLimit := by
        simp only [total_append, total_cons]
        omega
      rw [condense_of_mergeFirst merged]
      refine .join here there used ?_
      have same : (before ++ first :: second :: behind).take before.length ++
          { first with size := (first.size + second.size) % addressLimit } ::
            (before ++ first :: second :: behind).drop (before.length + 2) =
          before ++ { first with size := first.size + second.size } :: behind := by
        simp [fits]
      rw [same]
      cases whole : before ++ { first with size := first.size + second.size } :: behind with
      | nil => simp at whole
      | cons head tail =>
        have shorter : tail.length + 1 < before.length + (behind.length + 1 + 1) := by
          rw [← List.length_cons, ← whole]
          simp
        exact scans_condense [] head tail (whole ▸ bounded') (.singleton _)
termination_by ((before ++ first :: behind).length, behind.length)

/-- The scan for free neighbours, from the beginning of the list, ends for all regions whose sizes together are a machine
word, and leaves what one merge of the runs leaves. To do it again changes nothing, and neither does it change a heap that
comes of calls on a new one. -/
theorem condensing_is_one_merge :
    (∀ regions, total regions < addressLimit →
      (∀ result, Scans 0 regions result ↔ result = condense regions) ∧ condense regions = mergeRuns regions ∧
      condense (condense regions) = condense regions) ∧
    ∀ (capacity : Nat) (calls : List Heap.Call),
      ((Heap.new capacity).after calls).respond .condense = (.done, (Heap.new capacity).after calls) := by
  refine ⟨fun regions bounded => ?_, fun capacity calls => ?_⟩
  · have ends : Scans 0 regions (condense regions) := by
      cases regions with
      | nil =>
        rw [condense_of_apart .nil]
        exact .done (Nat.zero_le _)
      | cons first behind => exact scans_condense [] first behind bounded (.singleton _)
    exact ⟨fun result => ⟨fun scans => scans.unique ends, fun same => same ▸ ends⟩, condense_eq_mergeRuns regions,
      condense_condense regions⟩
  · obtain ⟨tiled, -⟩ := (Heap.new_tiled capacity).after calls
    rw [Heap.respond, tiled.condense]

/-- Two runs with a region in use between them, which is not moved to where the first run ends. -/
def twoRuns : List Region :=
  [⟨0, 2, none⟩, ⟨2, 3, none⟩, ⟨7, 1, some ∅⟩, ⟨8, 1, none⟩, ⟨20, 4, none⟩, ⟨9, 6, none⟩]

theorem twoRuns_condensed :
    total twoRuns < addressLimit ∧ condense twoRuns = [⟨0, 5, none⟩, ⟨7, 1, some ∅⟩, ⟨8, 11, none⟩] ∧
      ∀ result, Scans 0 twoRuns result ↔ result = condense twoRuns := by
  have bounded : total twoRuns < addressLimit := by decide
  obtain ⟨scans, merged, -⟩ := condensing_is_one_merge.1 twoRuns bounded
  exact ⟨bounded, merged, scans⟩

end TapeMachine
