/-! Finite maps from strings, kept as strictly sorted entry lists. The order is that of code points,
so two maps are equal exactly when they hold the same entries, and listing a map needs no
sorting. -/

namespace LexerGen

structure StringMap (ν : Type) where
  entries : List (String × ν)
  sorted : entries.Pairwise fun a b => a.1 < b.1
deriving DecidableEq

namespace StringMap

variable {ν : Type}

def empty : StringMap ν := ⟨[], .nil⟩

instance : Inhabited (StringMap ν) := ⟨empty⟩

def get? (m : StringMap ν) (key : String) : Option ν := m.entries.lookup key

def contains (m : StringMap ν) (key : String) : Bool := (m.get? key).isSome

def keys (m : StringMap ν) : List String := m.entries.map Prod.fst

/-- `entries` with `value` under `key`, which keeps its place in the order. -/
def insertEntry (key : String) (value : ν) : List (String × ν) → List (String × ν)
  | [] => [(key, value)]
  | (k, v) :: rest =>
    if key < k then (key, value) :: (k, v) :: rest
    else if key = k then (key, value) :: rest
    else (k, v) :: insertEntry key value rest

theorem mem_of_mem_insertEntry {key : String} {value : ν} {entries : List (String × ν)}
    {e : String × ν} (h : e ∈ insertEntry key value entries) : e = (key, value) ∨ e ∈ entries := by
  induction entries with
  | nil => simpa [insertEntry] using h
  | cons kv rest ih =>
    obtain ⟨k, v⟩ := kv
    simp only [insertEntry] at h
    split at h
    · simpa using h
    · split at h
      · rcases List.mem_cons.1 h with h | h
        · exact .inl h
        · exact .inr (List.mem_cons_of_mem _ h)
      · rcases List.mem_cons.1 h with h | h
        · exact .inr (h ▸ List.mem_cons_self)
        · rcases ih h with h | h
          · exact .inl h
          · exact .inr (List.mem_cons_of_mem _ h)

theorem sorted_insertEntry {key : String} {value : ν} {entries : List (String × ν)}
    (h : entries.Pairwise fun a b => a.1 < b.1) :
    (insertEntry key value entries).Pairwise fun a b => a.1 < b.1 := by
  induction entries with
  | nil => simp [insertEntry]
  | cons kv rest ih =>
    obtain ⟨k, v⟩ := kv
    obtain ⟨hk, hrest⟩ := List.pairwise_cons.1 h
    simp only [insertEntry]
    split
    · rename_i hlt
      refine List.pairwise_cons.2 ⟨fun e he => ?_, h⟩
      rcases List.mem_cons.1 he with rfl | he
      · exact hlt
      · exact String.lt_trans hlt (hk e he)
    · rename_i hge
      split
      · rename_i heq
        subst heq
        exact List.pairwise_cons.2 ⟨hk, hrest⟩
      · rename_i hne
        refine List.pairwise_cons.2 ⟨fun e he => ?_, ih hrest⟩
        rcases mem_of_mem_insertEntry he with rfl | he
        · exact Std.lt_of_le_of_ne (String.not_lt.1 hge) (Ne.symm hne)
        · exact hk e he

/-- `m` with `value` under `key`, whatever stood there. -/
def insert (m : StringMap ν) (key : String) (value : ν) : StringMap ν :=
  ⟨insertEntry key value m.entries, sorted_insertEntry m.sorted⟩

/-- `m` without `key`. -/
def erase (m : StringMap ν) (key : String) : StringMap ν :=
  ⟨m.entries.filter fun e => e.1 ≠ key, m.sorted.filter _⟩

/-- The map of a list of entries, in which a later entry replaces an earlier one. -/
def ofList (entries : List (String × ν)) : StringMap ν :=
  entries.foldl (fun m e => m.insert e.1 e.2) empty

end StringMap

/-- A map from strings to strings. -/
abbrev Dictionary := StringMap String

/-- A set of names. -/
abbrev NameSet := StringMap Unit

namespace NameSet

def insert (s : NameSet) (name : String) : NameSet := StringMap.insert s name ()

def ofList (names : List String) : NameSet := StringMap.ofList (names.map (·, ()))

end NameSet

end LexerGen
