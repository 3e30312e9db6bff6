import Easel.Registry

/-!
# Registries through their entries

`Registry.lean` says what one look-up sees after an operation. Here the entries
are seen as a whole. Up to their order, an insertion puts one entry in front of
those under other names (`perm_insert`), and a registry is any one of its entries
with the rest (`perm_erase`), so whatever is counted over the entries changes by
the entries that come and go. Only a new name goes to the end
(`entries_insert_of_not_mem`, `entries_insertAll`).

`map` changes the values alone, and commutes with everything else.
-/

namespace Easel.Registry

variable {α β : Type}

theorem ext {r s : Registry α} (h : r.entries = s.entries) : r = s := by
  cases r
  cases s
  cases h
  rfl

theorem get?_eq_none_iff {r : Registry α} {id : String} : r.get? id = none ↔ id ∉ r.names := by
  unfold get? names
  induction r.entries with
  | nil => simp
  | cons e es ih =>
    obtain ⟨n, a⟩ := e
    rw [List.lookup_cons, List.map_cons, List.mem_cons]
    by_cases hk : id = n
    · simp [hk]
    · have hb : (id == n) = false := by simpa using hk
      simp only [hb, ih, hk, false_or]

theorem mem_names_of_get? {r : Registry α} {id : String} {a : α} (h : r.get? id = some a) :
    id ∈ r.names := by
  refine Decidable.byContradiction fun hid => ?_
  rw [get?_eq_none_iff.2 hid] at h
  cases h

/-- A value under a name that is there leaves the names alone. -/
theorem names_insert_of_get? {r : Registry α} {id : String} {a b : α} (h : r.get? id = some a) :
    (r.insert id b).names = r.names := by
  rw [names_insert, if_pos (mem_names_of_get? h)]

/-- An entry is what stands under its name. -/
theorem get?_of_mem {r : Registry α} {e : String × α} (h : e ∈ r.entries) :
    r.get? e.1 = some e.2 := by
  have hnd := r.nodup
  unfold get?
  generalize r.entries = es at *
  induction es with
  | nil => cases h
  | cons f es ih =>
    rw [List.map_cons, List.nodup_cons] at hnd
    obtain ⟨n, a⟩ := f
    rw [List.lookup_cons]
    rcases List.mem_cons.1 h with rfl | he
    · simp only [beq_self_eq_true]
    · have hb : (e.1 == n) = false := by
        have hne : e.1 ≠ n := fun heq => hnd.1 (List.mem_map.2 ⟨e, he, heq⟩)
        simpa using hne
      simpa only [hb] using ih he hnd.2

/-- A registry is known by its names in their order and by what stands under each. -/
theorem ext_get? {r s : Registry α} (hnames : r.names = s.names)
    (hget : ∀ k, r.get? k = s.get? k) : r = s := by
  have htable : ∀ r : Registry α,
      r.entries.map (fun e => (e.1, some e.2)) = r.names.map fun k => (k, r.get? k) := by
    intro r
    unfold names
    rw [List.map_map]
    exact List.map_congr_left fun e he => by simp only [Function.comp_apply, get?_of_mem he]
  have hinjective : ∀ e f : String × α, (e.1, some e.2) = (f.1, some f.2) → e = f := by
    intro e f hef
    simp only [Prod.mk.injEq, Option.some.injEq] at hef
    exact Prod.ext hef.1 hef.2
  refine ext ((List.map_inj_right hinjective).1 ?_)
  rw [htable, htable, hnames]
  exact List.map_congr_left fun k _ => by rw [hget]

theorem mem_names_erase {r : Registry α} {id k : String} :
    k ∈ (r.erase id).names ↔ k ∈ r.names ∧ k ≠ id := by
  rw [names_erase]
  simp

theorem entries_erase_erase {r : Registry α} {id id' : String} :
    ((r.erase id).erase id').entries = r.entries.filter (·.1 ∉ [id, id']) := by
  show (r.entries.filter (·.1 ≠ id)).filter (·.1 ≠ id') = _
  rw [List.filter_filter]
  refine List.filter_congr fun e _ => ?_
  simp [Bool.and_comm]

/-- Entries without a name have nothing to lose with it. -/
theorem filter_ne_eq_self {es : List (String × α)} {id : String} (h : id ∉ es.map (·.1)) :
    es.filter (·.1 ≠ id) = es := by
  refine List.filter_eq_self.2 fun e he => ?_
  have hne : e.1 ≠ id := fun heq => h (List.mem_map.2 ⟨e, he, heq⟩)
  simpa using hne

/-- The entry under a name is taken from between the others. -/
theorem entries_erase_of_append {r : Registry α} {front back : List (String × α)} {id : String}
    {a : α} (h : r.entries = front ++ (id, a) :: back) : (r.erase id).entries = front ++ back := by
  have hnd := r.nodup
  rw [h, List.map_append, List.map_cons, List.perm_middle.nodup_iff, List.nodup_cons,
    List.mem_append, not_or] at hnd
  obtain ⟨⟨hfront, hback⟩, -⟩ := hnd
  show r.entries.filter (·.1 ≠ id) = _
  rw [h, List.filter_append, List.filter_cons_of_neg (by simp), filter_ne_eq_self hfront,
    filter_ne_eq_self hback]

/-! ## What comes and what goes -/

/-- A registry is any one of its entries with the rest. -/
theorem perm_erase {r : Registry α} {id : String} {a : α} (h : r.get? id = some a) :
    r.entries.Perm ((id, a) :: (r.erase id).entries) := by
  have hnd := r.nodup
  unfold get? at h
  show r.entries.Perm ((id, a) :: r.entries.filter (·.1 ≠ id))
  generalize r.entries = es at *
  induction es with
  | nil => cases h
  | cons e es ih =>
    obtain ⟨n, b⟩ := e
    rw [List.map_cons, List.nodup_cons] at hnd
    rw [List.lookup_cons] at h
    by_cases hk : id = n
    · subst hk
      simp only [beq_self_eq_true, Option.some.injEq] at h
      subst h
      rw [List.filter_cons_of_neg (by simp), filter_ne_eq_self hnd.1]
    · have hb : (id == n) = false := by simpa using hk
      rw [hb] at h
      have hn : n ≠ id := fun heq => hk heq.symm
      rw [List.filter_cons_of_pos (by simpa using hn)]
      exact ((ih h hnd.2).cons _).trans (List.Perm.swap ..)

/-- The value under a name is put in front of what stands under other names. -/
theorem perm_insert (r : Registry α) (id : String) (a : α) :
    (r.insert id a).entries.Perm ((id, a) :: (r.erase id).entries) := by
  have hnd := r.nodup
  show (put id a r.entries).Perm ((id, a) :: r.entries.filter (·.1 ≠ id))
  generalize r.entries = es at *
  induction es with
  | nil => exact List.Perm.refl _
  | cons e es ih =>
    rw [List.map_cons, List.nodup_cons] at hnd
    by_cases hk : e.1 = id
    · rw [put, if_pos hk, List.filter_cons_of_neg (by simpa using hk),
        filter_ne_eq_self (hk ▸ hnd.1)]
    · rw [put, if_neg hk, List.filter_cons_of_pos (by simpa using hk)]
      exact ((ih hnd.2).cons _).trans (List.Perm.swap ..)

/-- A new name goes last. -/
theorem entries_insert_of_not_mem {r : Registry α} {id : String} (h : id ∉ r.names) (a : α) :
    (r.insert id a).entries = r.entries ++ [(id, a)] := by
  unfold names at h
  show put id a r.entries = r.entries ++ [(id, a)]
  generalize r.entries = es at *
  induction es with
  | nil => rfl
  | cons e es ih =>
    rw [List.map_cons, List.mem_cons, not_or] at h
    rw [put, if_neg (fun he => h.1 he.symm), ih h.2, List.cons_append]

/-- A value that is already there is put where it is. -/
theorem insert_eq_self {r : Registry α} {id : String} {a : α} (h : r.get? id = some a) :
    r.insert id a = r := by
  refine ext ?_
  unfold get? at h
  show put id a r.entries = r.entries
  generalize r.entries = es at *
  induction es with
  | nil => cases h
  | cons e es ih =>
    obtain ⟨n, b⟩ := e
    rw [List.lookup_cons] at h
    by_cases hk : id = n
    · subst hk
      simp only [beq_self_eq_true, Option.some.injEq] at h
      rw [put, if_pos rfl, h]
    · have hb : (id == n) = false := by simpa using hk
      rw [hb] at h
      rw [put, if_neg (fun he => hk he.symm), ih h]

/-- Entries under other names do not notice an insertion. -/
theorem filter_entries_insert {p : String → Bool} {id : String} (h : p id = false)
    (r : Registry α) (a : α) :
    (r.insert id a).entries.filter (p ·.1) = r.entries.filter (p ·.1) := by
  show (put id a r.entries).filter _ = _
  induction r.entries with
  | nil => rw [put, List.filter_cons_of_neg (by simp [h])]
  | cons e es ih =>
    by_cases hk : e.1 = id
    · rw [put, if_pos hk, List.filter_cons_of_neg (by simp [h]),
        List.filter_cons_of_neg (by simp [hk, h])]
    · rw [put, if_neg hk, List.filter_cons, List.filter_cons, ih]

/-- Entries under other names do not notice a removal. -/
theorem filter_entries_erase {p : String → Bool} {id : String} (h : p id = false)
    (r : Registry α) : (r.erase id).entries.filter (p ·.1) = r.entries.filter (p ·.1) := by
  show (r.entries.filter (·.1 ≠ id)).filter (p ·.1) = _
  rw [List.filter_filter]
  refine List.filter_congr fun e _ => ?_
  by_cases hk : e.1 = id
  · simp [hk, h]
  · simp [hk]

/-! ## Several entries at once -/

/-- The registry with several values put under their names, one after another. -/
def insertAll (r : Registry α) (es : List (String × α)) : Registry α :=
  es.foldl (fun r e => r.insert e.1 e.2) r

@[simp] theorem insertAll_nil (r : Registry α) : r.insertAll [] = r := rfl

@[simp] theorem insertAll_cons (r : Registry α) (e : String × α) (es : List (String × α)) :
    r.insertAll (e :: es) = (r.insert e.1 e.2).insertAll es := rfl

/-- New names go last, in the order in which they come. -/
theorem entries_insertAll {r : Registry α} {es : List (String × α)}
    (hnd : (es.map (·.1)).Nodup) (hnew : ∀ e ∈ es, e.1 ∉ r.names) :
    (r.insertAll es).entries = r.entries ++ es := by
  induction es generalizing r with
  | nil => simp
  | cons e es ih =>
    rw [List.map_cons, List.nodup_cons] at hnd
    have he : e.1 ∉ r.names := hnew e List.mem_cons_self
    rw [insertAll_cons, ih hnd.2, entries_insert_of_not_mem he, List.append_assoc]
    · rfl
    · intro f hf
      rw [names_insert, if_neg he, List.mem_append, List.mem_singleton, not_or]
      exact ⟨hnew f (List.mem_cons_of_mem _ hf),
        fun heq => hnd.1 (List.mem_map.2 ⟨f, hf, heq⟩)⟩

/-- Every name is an old one or one of those put in. -/
theorem mem_names_insertAll {r : Registry α} {es : List (String × α)} {k : String} :
    k ∈ (r.insertAll es).names ↔ k ∈ r.names ∨ k ∈ es.map (·.1) := by
  induction es generalizing r with
  | nil => simp
  | cons e es ih =>
    rw [insertAll_cons, ih, names_insert, List.map_cons, List.mem_cons]
    split
    next he =>
      constructor
      · intro h'
        rcases h' with h | h
        · exact .inl h
        · exact .inr (.inr h)
      · intro h'
        rcases h' with h | rfl | h
        · exact .inl h
        · exact .inl he
        · exact .inr h
    next he =>
      rw [List.mem_append, List.mem_singleton, or_assoc]

theorem mem_of_mem_insertAll {r : Registry α} {es : List (String × α)}
    {e : String × α} (h : e ∈ (r.insertAll es).entries) : e ∈ r.entries ∨ e ∈ es := by
  induction es generalizing r with
  | nil => exact .inl h
  | cons f es ih =>
    rcases ih h with h | h
    · rcases mem_of_mem_insert h with rfl | h
      · exact .inr List.mem_cons_self
      · exact .inl h
    · exact .inr (List.mem_cons_of_mem _ h)

theorem get?_insertAll_of_not_mem {r : Registry α} {es : List (String × α)} {k : String}
    (h : k ∉ es.map (·.1)) : (r.insertAll es).get? k = r.get? k := by
  induction es generalizing r with
  | nil => rfl
  | cons e es ih =>
    rw [List.map_cons, List.mem_cons, not_or] at h
    rw [insertAll_cons, ih h.2, get?_insert, if_neg h.1]

theorem filter_entries_insertAll {p : String → Bool} {es : List (String × α)}
    (h : ∀ e ∈ es, p e.1 = false) (r : Registry α) :
    (r.insertAll es).entries.filter (p ·.1) = r.entries.filter (p ·.1) := by
  induction es generalizing r with
  | nil => rfl
  | cons e es ih =>
    rw [insertAll_cons, ih (fun f hf => h f (List.mem_cons_of_mem _ hf)),
      filter_entries_insert (h e List.mem_cons_self)]

/-! ## Changing the values -/

/-- The registry with other values under the same names. -/
def map (f : α → β) (r : Registry α) : Registry β where
  entries := r.entries.map fun e => (e.1, f e.2)
  nodup := by
    rw [List.map_map]
    exact r.nodup

@[simp] theorem names_map (f : α → β) (r : Registry α) : (r.map f).names = r.names := by
  simp only [names, map, List.map_map]
  rfl

@[simp] theorem get?_map (f : α → β) (r : Registry α) (id : String) :
    (r.map f).get? id = (r.get? id).map f := by
  show (r.entries.map fun e => (e.1, f e.2)).lookup id = (r.entries.lookup id).map f
  induction r.entries with
  | nil => rfl
  | cons e es ih =>
    obtain ⟨n, a⟩ := e
    rw [List.map_cons, List.lookup_cons, List.lookup_cons]
    cases id == n
    · exact ih
    · rfl

@[simp] theorem map_insert (f : α → β) (r : Registry α) (id : String) (a : α) :
    (r.insert id a).map f = (r.map f).insert id (f a) := by
  refine ext ?_
  show (put id a r.entries).map _ = put id (f a) (r.entries.map _)
  induction r.entries with
  | nil => rfl
  | cons e es ih =>
    by_cases h : e.1 = id
    · rw [put, if_pos h, List.map_cons, List.map_cons, put, if_pos h]
    · rw [put, if_neg h, List.map_cons, List.map_cons, put, if_neg h, ih]

@[simp] theorem map_erase (f : α → β) (r : Registry α) (id : String) :
    (r.erase id).map f = (r.map f).erase id := by
  refine ext ?_
  show (r.entries.filter _).map _ = (r.entries.map _).filter _
  rw [List.filter_map]
  rfl

@[simp] theorem map_insertAll (f : α → β) (r : Registry α) (es : List (String × α)) :
    (r.insertAll es).map f = (r.map f).insertAll (es.map fun e => (e.1, f e.2)) := by
  induction es generalizing r with
  | nil => rfl
  | cons e es ih => rw [insertAll_cons, ih, map_insert, List.map_cons, insertAll_cons]

end Easel.Registry
