import LexerGen.StringMap

/-! Lookups in maps that are made from lists of entries: the last entry of a key counts. -/

namespace LexerGen

namespace StringMap

variable {ν : Type}

theorem lookup_cons (key k : String) (v : ν) (rest : List (String × ν)) :
    ((k, v) :: rest).lookup key = if key = k then some v else rest.lookup key := by
  by_cases h : key = k
  · simp [h]
  · have hne : (key == k) = false := by simpa using h
    simp [List.lookup_cons, h, hne]

theorem lookup_insertEntry (key k : String) (v : ν) (entries : List (String × ν)) :
    (insertEntry k v entries).lookup key = if key = k then some v else entries.lookup key := by
  induction entries with
  | nil => exact lookup_cons key k v []
  | cons e rest ih =>
    obtain ⟨k', v'⟩ := e
    rw [insertEntry]
    split
    · exact lookup_cons key k v _
    · split
      · rename_i heq
        subst heq
        rw [lookup_cons, lookup_cons]
        split <;> rfl
      · rename_i hne
        rw [lookup_cons, lookup_cons, ih]
        by_cases h : key = k'
        · subst h
          simp [Ne.symm hne]
        · simp [h]

theorem get?_insert (m : StringMap ν) (k : String) (v : ν) (key : String) :
    (m.insert k v).get? key = if key = k then some v else m.get? key :=
  lookup_insertEntry key k v m.entries

/-- The value of a key is that of its last entry. -/
theorem get?_ofList (entries : List (String × ν)) (key : String) :
    (ofList entries).get? key = entries.reverse.lookup key := by
  have hfold : ∀ (es : List (String × ν)) (m : StringMap ν),
      (es.foldl (fun m e => m.insert e.1 e.2) m).get? key =
        (es.reverse.lookup key).or (m.get? key) := by
    intro es
    induction es with
    | nil => simp
    | cons e rest ih =>
      intro m
      rw [List.foldl_cons, ih, get?_insert, List.reverse_cons, List.lookup_append, Option.or_assoc,
        lookup_cons]
      by_cases h : key = e.1
      · simp [h]
      · simp [h]
  rw [ofList, hfold]
  simp [empty, get?]

theorem insertEntry_of_forall_lt {k : String} {v : ν} {entries : List (String × ν)}
    (h : ∀ e ∈ entries, e.1 < k) : insertEntry k v entries = entries ++ [(k, v)] := by
  induction entries with
  | nil => rfl
  | cons e rest ih =>
    rw [List.forall_mem_cons] at h
    have hlt : ¬k < e.1 := String.lt_asymm h.1
    have hne : k ≠ e.1 := fun heq => String.lt_irrefl _ (heq ▸ h.1)
    rw [insertEntry, if_neg hlt, if_neg hne, ih h.2, List.cons_append]

/-- A map is made again from its entries. -/
theorem ofList_entries (m : StringMap ν) : ofList m.entries = m := by
  have hfold : ∀ (es : List (String × ν)) (m : StringMap ν),
      (m.entries ++ es).Pairwise (fun a b => a.1 < b.1) →
        (es.foldl (fun m e => m.insert e.1 e.2) m).entries = m.entries ++ es := by
    intro es
    induction es with
    | nil => simp
    | cons e rest ih =>
      intro m hsorted
      have hinsert : (m.insert e.1 e.2).entries = m.entries ++ [e] := by
        refine insertEntry_of_forall_lt fun a ha => ?_
        exact (List.pairwise_append.1 hsorted).2.2 a ha e List.mem_cons_self
      rw [List.foldl_cons, ih _ (by rw [hinsert]; simpa using hsorted), hinsert]
      simp
  have hentries := hfold m.entries empty (by simpa [empty] using m.sorted)
  cases m
  rw [mk.injEq]
  simpa [ofList, empty] using hentries

end StringMap

/-- A set of names holds those that it was made from. -/
theorem NameSet.contains_ofList {names : List String} {name : String} :
    (NameSet.ofList names).contains name = true ↔ name ∈ names := by
  rw [NameSet.ofList, StringMap.contains, StringMap.get?_ofList, List.lookup_isSome_iff]
  simp

end LexerGen
