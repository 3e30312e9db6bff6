/-!
# Values under names, in order of entry

A `Registry` holds values under distinct names. A new name goes last, a value
that replaces another keeps the place of the name, and removal keeps the order
of the rest. The order is visible: it is the order in which a canvas is painted.

Main statements: `names_insert` says where a name ends up, and `get?_insert` and
`get?_erase` say that only the given name is concerned.
-/

namespace Easel

/-- Values under distinct names, in order of entry. -/
structure Registry (α : Type) where
  /-- The names with their values. -/
  entries : List (String × α)
  /-- No name occurs twice. -/
  nodup : (entries.map (·.1)).Nodup

namespace Registry

variable {α : Type}

/-- The registry without entries. -/
def empty : Registry α where
  entries := []
  nodup := List.nodup_nil

instance : EmptyCollection (Registry α) where
  emptyCollection := empty

/-- The names in order of entry. -/
def names (r : Registry α) : List String :=
  r.entries.map (·.1)

/-- The values in order of entry. -/
def values (r : Registry α) : List α :=
  r.entries.map (·.2)

/-- The number of entries. -/
def size (r : Registry α) : Nat :=
  r.entries.length

/-- The value under a name. -/
def get? (r : Registry α) (id : String) : Option α :=
  r.entries.lookup id

/-- Entries with `a` under `id`, in the place of the old value or at the end. -/
def put (id : String) (a : α) : List (String × α) → List (String × α)
  | [] => [(id, a)]
  | e :: es => if e.1 = id then (id, a) :: es else e :: put id a es

theorem map_fst_put (id : String) (a : α) (es : List (String × α)) :
    (put id a es).map (·.1)
      = if id ∈ es.map (·.1) then es.map (·.1) else es.map (·.1) ++ [id] := by
  induction es with
  | nil => simp [put]
  | cons e es ih =>
    by_cases h : e.1 = id
    · simp [put, h]
    · have h' : id ≠ e.1 := fun he => h he.symm
      simp only [put, if_neg h, List.map_cons, ih, List.mem_cons, h', false_or]
      split <;> simp

theorem nodup_put (id : String) (a : α) {es : List (String × α)}
    (h : (es.map (·.1)).Nodup) : ((put id a es).map (·.1)).Nodup := by
  rw [map_fst_put]
  split
  · exact h
  · rename_i hid
    refine List.nodup_append.2 ⟨h, by simp, ?_⟩
    intro x hx y hy hxy
    simp only [List.mem_singleton] at hy
    exact hid (hy ▸ hxy ▸ hx)

theorem lookup_put (id : String) (a : α) (es : List (String × α)) (k : String) :
    (put id a es).lookup k = if k = id then some a else es.lookup k := by
  induction es with
  | nil =>
    by_cases h : k = id
    · simp [put, h]
    · have hb : (k == id) = false := by simpa using h
      simp [put, hb, h, List.lookup_cons]
  | cons e es ih =>
    obtain ⟨n, b⟩ := e
    by_cases h : n = id
    · subst h
      by_cases hk : k = n
      · simp [put, hk]
      · have hb : (k == n) = false := by simpa using hk
        simp [put, List.lookup_cons, hb, hk]
    · simp only [put, if_neg h, List.lookup_cons]
      by_cases hk : k = n
      · subst hk
        simp [h]
      · have hb : (k == n) = false := by simpa using hk
        simp [hb, ih]

/-- The registry with `a` under `id`, in the place of the old value or last. -/
def insert (r : Registry α) (id : String) (a : α) : Registry α where
  entries := put id a r.entries
  nodup := nodup_put id a r.nodup

/-- The registry without `id`. -/
def erase (r : Registry α) (id : String) : Registry α where
  entries := r.entries.filter (·.1 ≠ id)
  nodup := r.nodup.sublist (List.filter_sublist.map _)

theorem names_insert (r : Registry α) (id : String) (a : α) :
    (r.insert id a).names = if id ∈ r.names then r.names else r.names ++ [id] :=
  map_fst_put id a r.entries

theorem names_erase (r : Registry α) (id : String) :
    (r.erase id).names = r.names.filter (· ≠ id) := by
  simp only [names, erase, List.filter_map]
  rfl

theorem get?_insert (r : Registry α) (id : String) (a : α) (k : String) :
    (r.insert id a).get? k = if k = id then some a else r.get? k :=
  lookup_put id a r.entries k

theorem get?_erase (r : Registry α) (id k : String) :
    (r.erase id).get? k = if k = id then none else r.get? k := by
  show (r.entries.filter (·.1 ≠ id)).lookup k = if k = id then none else r.entries.lookup k
  induction r.entries with
  | nil => simp
  | cons e es ih =>
    obtain ⟨n, b⟩ := e
    by_cases h : n = id
    · subst h
      by_cases hk : k = n
      · simpa [hk] using ih
      · have hb : (k == n) = false := by simpa using hk
        simpa [List.lookup_cons, hb, hk] using ih
    · by_cases hk : k = n
      · subst hk
        simp [h]
      · have hb : (k == n) = false := by simpa using hk
        simpa [List.lookup_cons, h, hb] using ih

theorem mem_of_mem_insert {r : Registry α} {id : String} {a : α} {e : String × α}
    (h : e ∈ (r.insert id a).entries) : e = (id, a) ∨ e ∈ r.entries := by
  revert h
  show e ∈ put id a r.entries → _
  induction r.entries with
  | nil => simp [put]
  | cons x es ih =>
    intro h
    by_cases hx : x.1 = id
    · simp only [put, if_pos hx, List.mem_cons] at h
      rcases h with h | h
      · exact .inl h
      · exact .inr (List.mem_cons_of_mem _ h)
    · simp only [put, if_neg hx, List.mem_cons] at h
      rcases h with h | h
      · exact .inr (h ▸ List.mem_cons_self)
      · rcases ih h with h | h
        · exact .inl h
        · exact .inr (List.mem_cons_of_mem _ h)

theorem mem_of_mem_erase {r : Registry α} {id : String} {e : String × α}
    (h : e ∈ (r.erase id).entries) : e ∈ r.entries :=
  (List.mem_filter.1 h).1

theorem mem_of_get?_eq_some {r : Registry α} {id : String} {a : α}
    (h : r.get? id = some a) : (id, a) ∈ r.entries := by
  unfold get? at h
  generalize r.entries = es at h ⊢
  induction es with
  | nil => simp at h
  | cons e es ih =>
    obtain ⟨n, b⟩ := e
    by_cases hk : id = n
    · subst hk
      simp only [List.lookup_cons, beq_self_eq_true, Option.some.injEq] at h
      simp [h]
    · have hb : (id == n) = false := by simpa using hk
      simp only [List.lookup_cons, hb] at h
      exact List.mem_cons_of_mem _ (ih h)

end Registry

end Easel
