import Mathlib.Data.List.Basic
import TapeMachine.Heap

namespace TapeMachine

/-- Regions of which each begins behind the ones before it. -/
abbrev Ascending (regions : List Region) : Prop :=
  regions.Pairwise fun first second => first.start < second.start

variable {regions : List Region} {address : Nat}

theorem beginsBehind_mono (ascending : Ascending regions) {place later : Nat} (le : place ≤ later)
    (begins : beginsBehind regions address place = true) : beginsBehind regions address later = true := by
  rcases Nat.eq_or_lt_of_le le with rfl | less
  · exact begins
  unfold beginsBehind at begins ⊢
  cases found : regions[later]? with
  | none => rfl
  | some region =>
    obtain ⟨bound, rfl⟩ := List.getElem?_eq_some_iff.1 found
    have order := List.pairwise_iff_getElem.1 ascending place later (by omega) bound less
    rw [List.getElem?_eq_getElem (by omega : place < regions.length)] at begins
    simp only [decide_eq_true_eq] at begins ⊢
    omega

/-- Halving keeps the border between the regions that begin behind the address and those that do not. -/
theorem narrow_spec (ascending : Ascending regions) {first count : Nat} (positive : 0 < count)
    (above : ∀ place, first + count ≤ place → beginsBehind regions address place = true)
    (below : first = 0 ∨ beginsBehind regions address first = false) :
    (∀ place, narrow regions address first count < place → beginsBehind regions address place = true) ∧
      (narrow regions address first count = 0 ∨
        beginsBehind regions address (narrow regions address first count) = false) := by
  fun_induction narrow regions address first count with
  | case1 first count more half ih =>
    have split : half = count / 2 := rfl
    refine ih (by omega) ?_ ?_
    · intro place later
      split at later
      · rename_i begins
        exact beginsBehind_mono ascending (by omega) begins
      · exact above place (by omega)
    · split
      · exact below
      · rename_i begins
        exact .inr (by simpa using begins)
  | case2 first count few => exact ⟨fun place later => above place (by omega), below⟩

theorem beginsBehind_iff {place : Nat} {region : Region} (address : Nat) (found : regions[place]? = some region) :
    beginsBehind regions address place = true ↔ address < region.start := by
  rw [beginsBehind, found]
  exact decide_eq_true_iff

/-- What a search may find: a region that begins at the address; or the place that divides the regions which begin
before the address from those which begin behind it. -/
def Finds (regions : List Region) (address : Nat) : Except Nat Nat → Prop
  | .ok place => ∃ region, regions[place]? = some region ∧ region.start = address
  | .error place => place ≤ regions.length ∧ ∀ other region, regions[other]? = some region →
      if other < place then region.start < address else address < region.start

theorem search_finds (ascending : Ascending regions) : Finds regions address (search regions address) := by
  have border : (∀ place, narrow regions address 0 regions.length < place → beginsBehind regions address place = true) ∧
      (narrow regions address 0 regions.length = 0 ∨
        beginsBehind regions address (narrow regions address 0 regions.length) = false) := by
    cases regions with
    | nil => exact ⟨fun _ _ => rfl, .inl (by rw [narrow]; rfl)⟩
    | cons region rest =>
      refine narrow_spec ascending (Nat.succ_pos _) ?_ (.inl rfl)
      intro place outside
      rw [beginsBehind, List.getElem?_eq_none (by omega)]
  rw [search]
  generalize narrow regions address 0 regions.length = place at border
  obtain ⟨behind, first⟩ := border
  have later : ∀ other region, regions[other]? = some region → place < other → address < region.start :=
    fun other region found beyond => (beginsBehind_iff address found).1 (behind other beyond)
  cases found : regions[place]? with
  | none =>
    have empty : regions.length ≤ place := List.getElem?_eq_none_iff.1 found
    rcases first with rfl | before
    · refine ⟨Nat.zero_le _, ?_⟩
      intro other region found
      obtain ⟨bound, -⟩ := List.getElem?_eq_some_iff.1 found
      omega
    · rw [beginsBehind, found] at before
      cases before
  | some region =>
    obtain ⟨bound, here⟩ := List.getElem?_eq_some_iff.1 found
    dsimp only
    split
    · rename_i same
      exact ⟨region, found, same⟩
    split
    · rename_i less
      refine ⟨bound, ?_⟩
      intro other region' found'
      split
      · rename_i upto
        obtain ⟨bound', rfl⟩ := List.getElem?_eq_some_iff.1 found'
        rcases Nat.lt_succ_iff_lt_or_eq.1 upto with before | rfl
        · have order := List.pairwise_iff_getElem.1 ascending other place bound' bound before
          rw [here] at order
          omega
        · rw [here]
          exact less
      · exact later other region' found' (by omega)
    · -- The region at the border begins behind the address, so the border is before the first one.
      have begins := (beginsBehind_iff address found).2 (by omega)
      have start : place = 0 := first.resolve_right (by rw [begins]; simp)
      subst start
      refine ⟨Nat.zero_le _, ?_⟩
      intro other region' found'
      rw [if_neg (Nat.not_lt_zero _)]
      rcases Nat.eq_zero_or_pos other with rfl | beyond
      · cases found.symm.trans found'
        omega
      · exact later other region' found' beyond

/-- A search looks at where the regions begin, and at nothing else. -/
theorem search_congr {others : List Region} (same : others.map Region.start = regions.map Region.start) :
    search others address = search regions address := by
  have starts : ∀ place : Nat, others[place]?.map Region.start = regions[place]?.map Region.start := by
    intro place
    rw [← List.getElem?_map, ← List.getElem?_map, same]
  have begins : beginsBehind others address = beginsBehind regions address := by
    funext place
    have start := starts place
    unfold beginsBehind
    cases found : others[place]? <;> cases found' : regions[place]? <;> simp_all
  have narrowed : ∀ first count, narrow others address first count = narrow regions address first count := by
    intro first count
    fun_induction narrow regions address first count with
    | case1 first count more half ih =>
      rw [narrow, if_pos more, begins]
      simpa only [dite_eq_ite] using ih
    | case2 first count few => rw [narrow, if_neg few]
  have length : others.length = regions.length := by simpa using congrArg List.length same
  rw [search, search, narrowed, length]
  have start := starts (narrow regions address 0 regions.length)
  cases found : others[narrow regions address 0 regions.length]? <;>
    cases found' : regions[narrow regions address 0 regions.length]? <;> simp_all

end TapeMachine
