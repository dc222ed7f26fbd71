namespace TapeMachine

/-- Put `value` under `key`: in the place of the entry that has the key, or at the end. -/
def insertEntry {α : Type} (key : String) (value : α) : List (String × α) → List (String × α)
  | [] => [(key, value)]
  | entry :: rest =>
    if entry.1 = key then (key, value) :: rest else entry :: insertEntry key value rest

theorem map_fst_insertEntry {α : Type} (key : String) (value : α) (entries : List (String × α)) :
    (insertEntry key value entries).map Prod.fst =
      if key ∈ entries.map Prod.fst then entries.map Prod.fst
      else entries.map Prod.fst ++ [key] := by
  induction entries with
  | nil => simp [insertEntry]
  | cons entry rest ih =>
    by_cases same : entry.1 = key
    · simp [insertEntry, same]
    · rw [insertEntry, if_neg same, List.map_cons, ih, List.map_cons]
      by_cases member : key ∈ rest.map Prod.fst
      · rw [if_pos member, if_pos (List.mem_cons_of_mem _ member)]
      · rw [if_neg member, if_neg, List.cons_append]
        rintro (_ | ⟨_, later⟩)
        · exact same rfl
        · exact member later

/-- Values under names, in the order in which the names came. -/
structure Dictionary (α : Type) where
  entries : List (String × α) := []
  nodup : (entries.map Prod.fst).Nodup := by exact List.nodup_nil

namespace Dictionary

variable {α : Type}

instance : Inhabited (Dictionary α) := ⟨{}⟩

def size (dictionary : Dictionary α) : Nat :=
  dictionary.entries.length

def get? (dictionary : Dictionary α) (key : String) : Option α :=
  (dictionary.entries.find? fun entry => entry.1 == key).map Prod.snd

/-- The newest value under a name replaces the one before. -/
def insert (dictionary : Dictionary α) (key : String) (value : α) : Dictionary α where
  entries := insertEntry key value dictionary.entries
  nodup := by
    rw [map_fst_insertEntry]
    split
    · exact dictionary.nodup
    · rename_i fresh
      rw [List.nodup_append]
      refine ⟨dictionary.nodup, by simp, ?_⟩
      intro a member b single
      rw [List.mem_singleton.1 single]
      exact fun same => fresh (same ▸ member)

def insertAll (dictionary : Dictionary α) (entries : List (String × α)) : Dictionary α :=
  entries.foldl (fun result entry => result.insert entry.1 entry.2) dictionary

def ofList (entries : List (String × α)) : Dictionary α :=
  insertAll {} entries

/-- Every entry of `other` replaces the one of the same name. -/
def merge (dictionary other : Dictionary α) : Dictionary α :=
  dictionary.insertAll other.entries

@[simp]
theorem get?_empty (name : String) : ({} : Dictionary α).get? name = none :=
  rfl

theorem get?_insert (dictionary : Dictionary α) (key name : String) (value : α) :
    (dictionary.insert key value).get? name =
      if key = name then some value else dictionary.get? name := by
  simp only [get?, insert]
  induction dictionary.entries with
  | nil => by_cases same : key = name <;> simp [insertEntry, same]
  | cons entry rest ih =>
    by_cases taken : entry.1 = key
    · by_cases same : key = name <;> simp [insertEntry, taken, same]
    · by_cases same : entry.1 = name
      · have other : key ≠ name := fun h => taken (same.trans h.symm)
        simp [insertEntry, same, other, Ne.symm other]
      · rw [insertEntry, if_neg taken, List.find?_cons_of_neg (by simpa using same), ih,
          List.find?_cons_of_neg (by simpa using same)]

end Dictionary

end TapeMachine
