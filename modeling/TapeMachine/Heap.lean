import Std.Data.TreeMap
import TapeMachine.Fault
import TapeMachine.Value

namespace TapeMachine

/-- The slots of a region that have been written, by address. -/
abbrev Cells := Std.TreeMap Nat Value

/-- A run of addresses. A used region holds its own cells; a free one has none. -/
structure Region where
  start : Nat
  size : Nat
  cells : Option Cells

namespace Region

def isFree (region : Region) : Bool :=
  region.cells.isNone

/-- Take the first `size` addresses of a free region; what is left of it stays free. -/
def split (region : Region) (size : Nat) : List Region :=
  ⟨region.start, size, some ∅⟩ ::
    if size < region.size then [⟨region.start + size, region.size - size, none⟩] else []

end Region

/-- Give away the first `size` addresses of the first free region that is large enough. -/
def allocIn (size : Nat) : List Region → Option (Nat × List Region)
  | [] => none
  | region :: rest =>
    if region.isFree && size ≤ region.size then some (region.start, region.split size ++ rest)
    else (allocIn size rest).map fun found => (found.1, region :: found.2)

/-- Make the first used region that starts at `address` free. Its cells are forgotten. -/
def freeIn (address : Nat) : List Region → Option (List Region)
  | [] => none
  | region :: rest =>
    if region.start == address && !region.isFree then some ({ region with cells := none } :: rest)
    else (freeIn address rest).map (region :: ·)

/-- Does the region at this place begin behind `address`? -/
def beginsBehind (regions : List Region) (address place : Nat) : Bool :=
  match regions[place]? with
  | some region => address < region.start
  | none => true

/-- Halve `count` places from `first` on until one of them is left: the last one whose region does not begin behind
`address`, or the first if there is none. -/
def narrow (regions : List Region) (address : Nat) (first count : Nat) : Nat :=
  if 1 < count then
    let half := count / 2
    narrow regions address (if beginsBehind regions address (first + half) then first else first + half) (count - half)
  else first
termination_by count

/-- Where among the regions one begins at `address`; or else the place at which it would have to be put in. -/
def search (regions : List Region) (address : Nat) : Except Nat Nat :=
  let place := narrow regions address 0 regions.length
  match regions[place]? with
  | none => .error place
  | some region =>
    if region.start = address then .ok place
    else if region.start < address then .error (place + 1)
    else .error place

/-- Join the first two neighbours that are both free. -/
def mergeFirst : List Region → Option (List Region)
  | first :: second :: rest =>
    if first.isFree && second.isFree then
      some ({ first with size := first.size + second.size } :: rest)
    else (mergeFirst (second :: rest)).map (first :: ·)
  | _ => none

theorem length_of_mergeFirst {regions merged : List Region} (step : mergeFirst regions = some merged) :
    merged.length + 1 = regions.length := by
  induction regions generalizing merged with
  | nil => simp [mergeFirst] at step
  | cons first tail ih =>
    cases tail with
    | nil => simp [mergeFirst] at step
    | cons second rest =>
      rw [mergeFirst] at step
      split at step
      · cases step
        simp
      · obtain ⟨later, found, rfl⟩ := Option.map_eq_some_iff.1 step
        rw [List.length_cons, ih found]
        rfl

/-- Join free neighbours, starting over after each one, until there are none. -/
def condense (regions : List Region) : List Region :=
  match step : mergeFirst regions with
  | some merged =>
    have _shorter := length_of_mergeFirst step
    condense merged
  | none => regions
termination_by regions.length

/-- The memory of a machine: `capacity` slots, split into regions in the order of their addresses. -/
structure Heap where
  capacity : Nat
  regions : List Region

namespace Heap

def new (capacity : Nat) : Heap where
  capacity := capacity
  regions := [⟨0, capacity, none⟩]

def usedRegions (heap : Heap) : List Region :=
  heap.regions.filter fun region => !region.isFree

/-- Claim `size` slots; the address of the first one comes back. -/
def alloc (heap : Heap) (size : Nat) : Outcome (Nat × Heap) :=
  if size = 0 then .error .emptyRegion
  else
    match allocIn size heap.regions with
    | some (address, regions) => .ok (address, { heap with regions := condense regions })
    | none => .error (.noFreeRegion size)

/-- Release the region that starts at `address`. -/
def free (heap : Heap) (address : Nat) : Outcome Heap :=
  match freeIn address heap.regions with
  | some regions => .ok { heap with regions := condense regions }
  | none => .error (.notARegion address)

/-- The place of the region in which `address` lies is the one that begins there, or the one before the place where
such a region would have to be put in. There may be none before it. -/
def ownerAt? (heap : Heap) (address : Nat) : Option Nat :=
  match search heap.regions address with
  | .ok place => some place
  | .error 0 => none
  | .error (place + 1) => some place

/-- The cells of the region at `place`, if it is in use, together with its place. -/
def usedAt? (heap : Heap) (place : Nat) : Option (Nat × Cells) :=
  (heap.regions[place]?.bind Region.cells).map fun cells => (place, cells)

/-- The used region in which `address` lies: its place and its cells. -/
def cellsAt (heap : Heap) (address : Nat) : Outcome (Nat × Cells) :=
  if heap.capacity ≤ address then .error (.outsideHeap address heap.capacity)
  else
    match (heap.ownerAt? address).bind heap.usedAt? with
    | some used => .ok used
    | none => .error (.notAllocated address)

def save (heap : Heap) (address : Nat) (value : Value) : Outcome Heap :=
  match heap.cellsAt address with
  | .ok (place, cells) =>
    let write (region : Region) : Region := { region with cells := some (cells.insert address value) }
    .ok { heap with regions := heap.regions.modify place write }
  | .error cause => .error cause

/-- Write values to consecutive slots. -/
def saveAll : Heap → (address : Nat) → List Value → Outcome Heap
  | heap, _, [] => .ok heap
  | heap, address, value :: rest =>
    match heap.save address value with
    | .ok next => saveAll next (address + 1) rest
    | .error cause => .error cause

def load (heap : Heap) (address : Nat) : Outcome Value :=
  match heap.cellsAt address with
  | .ok (_, cells) =>
    match cells[address]? with
    | some value => .ok value
    | none => .error (.neverWritten address)
  | .error cause => .error cause

end Heap

end TapeMachine
