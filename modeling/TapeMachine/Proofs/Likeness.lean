import TapeMachine.Proofs.Numerals
import TapeMachine.Proofs.Tiling

namespace TapeMachine

/-- What comes of the one is related to what comes of the other, or both fail in the same way. -/
inductive Outcome.Agrees {α β : Type} (related : α → β → Prop) : Outcome α → Outcome β → Prop
  | ok {a : α} {b : β} : related a b → Agrees related (.ok a) (.ok b)
  | error {cause cause' : Cause} : cause.code = cause'.code → Agrees related (.error cause) (.error cause')

namespace Outcome.Agrees

variable {α β γ δ : Type} {related : α → β → Prop} {related' : γ → δ → Prop} {first : Outcome α} {second : Outcome β}

/-- Agreement passes through a sequence, whether it is the first part that fails or a later one. -/
theorem bind {next : α → Outcome γ} {next' : β → Outcome δ} (agrees : Agrees related first second)
    (later : ∀ a b, related a b → Agrees related' (next a) (next' b)) :
    Agrees related' (first.bind next) (second.bind next') := by
  cases agrees with
  | ok alike => exact later _ _ alike
  | error code => exact .error code

theorem map {f : α → γ} {g : β → δ} (agrees : Agrees related first second)
    (later : ∀ a b, related a b → related' (f a) (g b)) : Agrees related' (first.map f) (second.map g) := by
  cases agrees with
  | ok alike => exact .ok (later _ _ alike)
  | error code => exact .error code

end Outcome.Agrees

namespace Value

/-- Values that compare equal: numbers stand for the same number, and others are the same. -/
inductive Alike : Value → Value → Prop
  | number {a b : Decimal} : a.value = b.value → Alike (.number a) (.number b)
  | string (text : String) : Alike (.string text) (.string text)
  | pointer (address : Nat) : Alike (.pointer address) (.pointer address)

variable {a b c d : Value}

/-- The comparison that the machine makes is this relation; for numbers it compares the rational numbers they stand
for, not their digits. -/
theorem eqv_iff_alike : a.eqv b = true ↔ a.Alike b := by
  constructor
  · intro same
    cases a <;> cases b <;> simp only [eqv, beq_iff_eq, Bool.false_eq_true] at same
    · exact .number (Decimal.eqv_iff_value_eq.1 same)
    · exact same ▸ .string _
    · exact same ▸ .pointer _
  · intro alike
    cases alike with
    | number same => exact Decimal.eqv_iff_value_eq.2 same
    | string | pointer => exact beq_self_eq_true _

theorem Alike.ty (alike : a.Alike b) : a.ty = b.ty := by
  cases alike <;> rfl

/-- Equal values print the same: a number's text is taken from its normal form, so `1.0` and `1` are written alike. -/
theorem Alike.text (alike : a.Alike b) : a.text = b.text := by
  cases alike with
  | number same => exact (Decimal.text_eq_iff_value_eq ..).2 same
  | string | pointer => rfl

theorem Alike.prompt (alike : a.Alike b) : a.prompt = b.prompt := by
  cases alike with
  | number same => exact (Decimal.text_eq_iff_value_eq ..).2 same
  | string | pointer => rfl

/-- A comparison cannot tell equal values apart on either side. -/
theorem Alike.eqv (first : a.Alike c) (second : b.Alike d) : a.eqv b = c.eqv d := by
  cases first <;> cases second <;> try rfl
  rename_i same _ _ same'
  rw [Value.eqv, Value.eqv, Decimal.eqv, Decimal.eqv, Decimal.compare_eq_compare_value, same, same',
    ← Decimal.compare_eq_compare_value]

end Value

/-- Slots at the same addresses that hold equal values. -/
def Cells.Alike (first second : Cells) : Prop :=
  ∀ address : Nat, Option.Rel (fun a b => a.eqv b = true) first[address]? second[address]?

/-- The same run of addresses, used or not in both cases, with equal values. -/
structure Region.Alike (first second : Region) : Prop where
  start : first.start = second.start
  size : first.size = second.size
  cells : Option.Rel Cells.Alike first.cells second.cells

/-- Heaps with the same regions and equal values in them. -/
structure Heap.Alike (first second : Heap) : Prop where
  capacity : first.capacity = second.capacity
  regions : List.Forall₂ Region.Alike first.regions second.regions

theorem Cells.alike_empty : Cells.Alike ∅ ∅ := by
  intro address
  rw [Std.TreeMap.getElem?_emptyc]
  exact .none

/-- Storing equal values at one address keeps two sets of slots alike; nothing is said of where the address lies. -/
theorem Cells.Alike.insert {first second : Cells} {value value' : Value} (alike : first.Alike second)
    (values : value.Alike value') (address : Nat) :
    Cells.Alike (first.insert address value) (second.insert address value') := by
  intro other
  rw [Std.TreeMap.getElem?_insert, Std.TreeMap.getElem?_insert]
  split
  · exact .some (Value.eqv_iff_alike.2 values)
  · exact alike other

namespace Region.Alike

variable {first second : Region}

theorem isFree (alike : first.Alike second) : first.isFree = second.isFree := by
  obtain ⟨_, _, cells⟩ := first
  obtain ⟨_, _, cells'⟩ := second
  have same : Option.Rel Cells.Alike cells cells' := alike.cells
  cases same <;> rfl

/-- An allocation cuts both regions at the same place, since it looks at where a region starts and how long it is only. -/
theorem split (alike : first.Alike second) (size : Nat) :
    List.Forall₂ Region.Alike (first.split size) (second.split size) := by
  rw [Region.split, Region.split, alike.start, alike.size]
  refine .cons ⟨rfl, rfl, .some Cells.alike_empty⟩ ?_
  split
  · exact .cons ⟨rfl, rfl, .none⟩ .nil
  · exact .nil

end Region.Alike

section Regions

variable {first second : List Region}

theorem rel_map {α β γ δ : Type} {related : α → β → Prop} {related' : γ → δ → Prop} {x : Option α} {y : Option β}
    {f : α → γ} {g : β → δ} (rel : Option.Rel related x y) (later : ∀ a b, related a b → related' (f a) (g b)) :
    Option.Rel related' (x.map f) (y.map g) := by
  cases rel with
  | none => exact .none
  | some alike => exact .some (later _ _ alike)

/-- Which region first has room depends on the sizes and on what is free, so both searches end at the same place. -/
theorem allocIn_alike (alike : List.Forall₂ Region.Alike first second) (size : Nat) :
    Option.Rel (fun found found' => found.1 = found'.1 ∧ List.Forall₂ Region.Alike found.2 found'.2)
      (allocIn size first) (allocIn size second) := by
  induction alike with
  | nil => exact .none
  | cons here rest ih =>
    rw [allocIn, allocIn, here.isFree, here.size]
    split
    · exact .some ⟨here.start, List.rel_append (here.split size) rest⟩
    · exact rel_map ih fun _ _ found => ⟨found.1, .cons here found.2⟩

theorem freeIn_alike (alike : List.Forall₂ Region.Alike first second) (address : Nat) :
    Option.Rel (List.Forall₂ Region.Alike) (freeIn address first) (freeIn address second) := by
  induction alike with
  | nil => exact .none
  | cons here rest ih =>
    rw [freeIn, freeIn, here.isFree, here.start]
    split
    · exact .some (.cons ⟨rfl, here.size, .none⟩ rest)
    · exact rel_map ih fun _ _ found => .cons here found

/-- The first pair of free neighbours stands at the same place on both sides. -/
theorem mergeFirst_alike (alike : List.Forall₂ Region.Alike first second) :
    Option.Rel (List.Forall₂ Region.Alike) (mergeFirst first) (mergeFirst second) := by
  induction alike with
  | nil => exact .none
  | cons here rest ih =>
    cases rest with
    | nil => exact .none
    | cons next behind =>
      rw [mergeFirst, mergeFirst, here.isFree, next.isFree]
      split
      · refine .some (.cons ⟨here.start, ?_, here.cells⟩ behind)
        exact congrArg₂ (· + ·) here.size next.size
      · exact rel_map ih fun _ _ found => .cons here found

/-- Joining free neighbours to the end keeps regions alike. The induction is on the joins of the first list;
`mergeFirst_alike` makes the second list stop where the first one does. -/
theorem condense_alike (alike : List.Forall₂ Region.Alike first second) :
    List.Forall₂ Region.Alike (condense first) (condense second) := by
  fun_induction condense first generalizing second with
  | case1 first merged step _ ih =>
    have steps := mergeFirst_alike alike
    rw [condense.eq_def second]
    split
    · rename_i merged' step'
      rw [step, step'] at steps
      exact ih (Option.rel_some_some.1 steps)
    · rename_i step'
      rw [step, step'] at steps
      cases steps
  | case2 first step =>
    have steps := mergeFirst_alike alike
    rw [condense.eq_def second]
    split
    · rename_i merged' step'
      rw [step, step'] at steps
      cases steps
    · exact alike

theorem getElem?_alike (alike : List.Forall₂ Region.Alike first second) (place : Nat) :
    Option.Rel Region.Alike first[place]? second[place]? := by
  induction alike generalizing place with
  | nil => exact .none
  | cons here rest ih =>
    cases place with
    | zero => exact .some here
    | succ later => exact ih later

theorem modify_alike (alike : List.Forall₂ Region.Alike first second) (place : Nat) {write write' : Region → Region}
    (writes : ∀ region region', region.Alike region' → (write region).Alike (write' region')) :
    List.Forall₂ Region.Alike (first.modify place write) (second.modify place write') := by
  induction alike generalizing place with
  | nil =>
    rw [List.modify_nil, List.modify_nil]
    exact .nil
  | cons here rest ih =>
    cases place with
    | zero => exact .cons (writes _ _ here) rest
    | succ later => exact .cons here (ih later)

/-- The search by halving looks at nothing but where the regions start. -/
theorem search_alike (alike : List.Forall₂ Region.Alike first second) (address : Nat) :
    search first address = search second address := by
  refine search_congr ?_
  induction alike with
  | nil => rfl
  | cons here rest ih => exact congrArg₂ List.cons here.start ih

end Regions

namespace Heap.Alike

variable {first second : Heap} {value value' : Value} {values values' : List Value}

/-- Both allocations succeed with one address, or both fail with the same code. -/
theorem alloc (alike : first.Alike second) (size : Nat) :
    Outcome.Agrees (fun found found' => found.1 = found'.1 ∧ Heap.Alike found.2 found'.2)
      (first.alloc size) (second.alloc size) := by
  have found := allocIn_alike alike.regions size
  rw [Heap.alloc, Heap.alloc]
  split
  · exact .error rfl
  · generalize allocIn size first.regions = claimed at found
    generalize allocIn size second.regions = claimed' at found
    cases found with
    | none => exact .error rfl
    | some same => exact .ok ⟨same.1, alike.capacity, condense_alike same.2⟩

theorem free (alike : first.Alike second) (address : Nat) :
    Outcome.Agrees Heap.Alike (first.free address) (second.free address) := by
  have found := freeIn_alike alike.regions address
  rw [Heap.free, Heap.free]
  generalize freeIn address first.regions = released at found
  generalize freeIn address second.regions = released' at found
  cases found with
  | none => exact .error rfl
  | some same => exact .ok ⟨alike.capacity, condense_alike same⟩

/-- An address is owned by the region at the same place, and the slots found there are alike. -/
theorem cellsAt (alike : first.Alike second) (address : Nat) :
    Outcome.Agrees (fun found found' => found.1 = found'.1 ∧ Cells.Alike found.2 found'.2)
      (first.cellsAt address) (second.cellsAt address) := by
  have owner : first.ownerAt? address = second.ownerAt? address := by
    rw [Heap.ownerAt?, Heap.ownerAt?, search_alike alike.regions]
  have used : Option.Rel (fun found found' => found.1 = found'.1 ∧ Cells.Alike found.2 found'.2)
      ((first.ownerAt? address).bind first.usedAt?) ((second.ownerAt? address).bind second.usedAt?) := by
    rw [owner]
    cases second.ownerAt? address with
    | none => exact .none
    | some place =>
      have regions := getElem?_alike alike.regions place
      rw [Option.bind_some, Option.bind_some, Heap.usedAt?, Heap.usedAt?]
      generalize first.regions[place]? = region at regions
      generalize second.regions[place]? = region' at regions
      cases regions with
      | none => exact .none
      | some same => exact rel_map same.cells fun _ _ cells => ⟨rfl, cells⟩
  rw [Heap.cellsAt, Heap.cellsAt, alike.capacity]
  split
  · exact .error rfl
  · generalize (first.ownerAt? address).bind first.usedAt? = found at used
    generalize (second.ownerAt? address).bind second.usedAt? = found' at used
    cases used with
    | none => exact .error rfl
    | some same => exact .ok same

/-- A store finds the same region on both sides and changes that one only. -/
theorem save (alike : first.Alike second) (address : Nat) (same : value.Alike value') :
    Outcome.Agrees Heap.Alike (first.save address value) (second.save address value') := by
  have found := alike.cellsAt address
  rw [Heap.save, Heap.save]
  generalize first.cellsAt address = outcome at found
  generalize second.cellsAt address = outcome' at found
  cases found with
  | @ok owner owner' here =>
    obtain ⟨place, cells⟩ := owner
    obtain ⟨place', cells'⟩ := owner'
    obtain ⟨rfl, here⟩ : place = place' ∧ Cells.Alike cells cells' := here
    refine .ok ⟨alike.capacity, modify_alike alike.regions place ?_⟩
    intro region region' regions
    exact ⟨regions.start, regions.size, .some (here.insert same address)⟩
  | error code => exact .error code

/-- A text is stored slot by slot, so the first slot that fails on one side fails on the other. -/
theorem saveAll (alike : first.Alike second) (address : Nat) (same : List.Forall₂ Value.Alike values values') :
    Outcome.Agrees Heap.Alike (first.saveAll address values) (second.saveAll address values') := by
  induction same generalizing first second address with
  | nil => exact .ok alike
  | @cons value value' rest rest' here _ ih =>
    have saved := alike.save address here
    rw [Heap.saveAll, Heap.saveAll]
    generalize first.save address value = outcome at saved
    generalize second.save address value' = outcome' at saved
    cases saved with
    | ok next => exact ih next (address + 1)
    | error code => exact .error code

/-- What is read back are equal values, or there is nothing to read on both sides. -/
theorem load (alike : first.Alike second) (address : Nat) :
    Outcome.Agrees Value.Alike (first.load address) (second.load address) := by
  have found := alike.cellsAt address
  rw [Heap.load, Heap.load]
  generalize first.cellsAt address = outcome at found
  generalize second.cellsAt address = outcome' at found
  cases found with
  | @ok owner owner' same =>
    have slot := same.2 address
    dsimp only
    generalize owner.2[address]? = value at slot
    generalize owner'.2[address]? = value' at slot
    cases slot with
    | none => exact .error rfl
    | some same => exact .ok (Value.eqv_iff_alike.1 same)
  | error code => exact .error code

end Heap.Alike

end TapeMachine
