import MarketFeed.Table
/-!
Tables through what they answer: one law for each operation, and the principle that two tables with
the same answers are the same.
-/

set_option autoImplicit false
set_option relaxedAutoImplicit false

namespace MarketFeed.Table

variable {α β : Type}

theorem lookup_entry_cons (k key : String) (value : α) (rest : List (String × α)) :
    List.lookup k ((key, value) :: rest) = if k = key then some value else rest.lookup k := by
  rw [List.lookup_cons]
  by_cases h : k = key
  · simp [h]
  · rw [beq_eq_false_iff_ne.2 h, if_neg h]

theorem lookup_insertEntry (k : String) (v : α) (k' : String) (es : List (String × α)) :
    (insertEntry k v es).lookup k' = if k' = k then some v else es.lookup k' := by
  induction es with
  | nil => simp [insertEntry, lookup_entry_cons]
  | cons head rest ih =>
    obtain ⟨key, value⟩ := head
    rw [insertEntry]
    split
    · rw [lookup_entry_cons]
    · split
      next same =>
        subst same
        by_cases h : k' = k <;> simp [lookup_entry_cons, h]
      next other =>
        rw [lookup_entry_cons, ih, lookup_entry_cons]
        by_cases hk : k' = key
        · subst hk
          simp [Ne.symm other]
        · simp [hk]

theorem lookup_eq_none_of_forall {k : String} {es : List (String × α)} (h : ∀ e ∈ es, e.1 ≠ k) :
    es.lookup k = none := by
  induction es with
  | nil => rfl
  | cons head rest ih =>
    obtain ⟨key, value⟩ := head
    have hk : k ≠ key := fun e => h (key, value) List.mem_cons_self e.symm
    rw [lookup_entry_cons, ih fun e he => h e (List.mem_cons_of_mem _ he)]
    simp [hk]

theorem lookup_filter {p : String → α → Bool} (k : String) {es : List (String × α)}
    (sorted : es.Pairwise fun a b => a.1 < b.1) :
    (es.filter fun e => p e.1 e.2).lookup k = (es.lookup k).filter (p k) := by
  induction es with
  | nil => rfl
  | cons head rest ih =>
    obtain ⟨key, value⟩ := head
    have ⟨first, later⟩ := List.pairwise_cons.1 sorted
    by_cases hk : k = key
    · subst hk
      have none_later : rest.lookup k = none :=
        lookup_eq_none_of_forall fun e he he' => String.lt_irrefl k (he' ▸ first e he)
      by_cases hp : p k value
      · simp [Option.filter, hp]
      · simp [Option.filter, hp, ih later, none_later]
    · by_cases hp : p key value
      · simp [lookup_entry_cons, hp, hk, ih later]
      · simp [lookup_entry_cons, hp, hk, ih later]

theorem lookup_map (f : String → α → β) (k : String) (es : List (String × α)) :
    (es.map fun e => (e.1, f e.1 e.2)).lookup k = (es.lookup k).map (f k) := by
  induction es with
  | nil => rfl
  | cons head rest ih =>
    obtain ⟨key, value⟩ := head
    by_cases hk : k = key
    · subst hk
      simp
    · simp [lookup_entry_cons, hk, ih]

@[simp] theorem get?_empty (k : String) : (∅ : Table α).get? k = none := rfl

theorem get?_insert (t : Table α) (k : String) (v : α) (k' : String) :
    (t.insert k v).get? k' = if k' = k then some v else t.get? k' :=
  lookup_insertEntry k v k' t.entries

theorem get?_filter (t : Table α) (p : String → α → Bool) (k : String) :
    (t.filter p).get? k = (t.get? k).filter (p k) := lookup_filter k t.sorted

theorem get?_erase (t : Table α) (k k' : String) :
    (t.erase k).get? k' = if k' = k then none else t.get? k' := by
  rw [erase, get?_filter]
  by_cases h : k' = k
  · cases t.get? k' <;> simp [h]
  · cases t.get? k' <;> simp [h]

theorem get?_map (t : Table α) (f : String → α → β) (k : String) :
    (t.map f).get? k = (t.get? k).map (f k) := lookup_map f k t.entries

theorem mem_of_lookup {k : String} {v : α} {es : List (String × α)} (h : es.lookup k = some v) :
    (k, v) ∈ es := by
  induction es with
  | nil => simp at h
  | cons head rest ih =>
    obtain ⟨key, value⟩ := head
    by_cases hk : k = key
    · subst hk
      simp at h
      simp [h]
    · simp [lookup_entry_cons, hk] at h
      exact List.mem_cons_of_mem _ (ih h)

theorem lookup_of_mem {k : String} {v : α} {es : List (String × α)}
    (sorted : es.Pairwise fun a b => a.1 < b.1) (h : (k, v) ∈ es) : es.lookup k = some v := by
  induction es with
  | nil => simp at h
  | cons head rest ih =>
    obtain ⟨key, value⟩ := head
    have ⟨first, later⟩ := List.pairwise_cons.1 sorted
    rcases List.mem_cons.1 h with h | h
    · cases h
      simp
    · have below : key < k := first (k, v) h
      have hk : k ≠ key := fun e => String.lt_irrefl k (e ▸ below)
      simp [lookup_entry_cons, hk, ih later h]

theorem mem_entries_iff (t : Table α) (k : String) (v : α) :
    (k, v) ∈ t.entries ↔ t.get? k = some v := ⟨lookup_of_mem t.sorted, mem_of_lookup⟩

theorem isEmpty_of_get? {t : Table α} {k : String} {v : α} (held : t.get? k = some v) :
    t.isEmpty = false := by
  rw [isEmpty, List.isEmpty_eq_false_iff]
  intro empty
  rw [get?, empty] at held
  cases held

theorem mem_keys_iff (t : Table α) (k : String) : k ∈ t.keys ↔ t.contains k = true := by
  rw [contains, Option.isSome_iff_exists, keys, List.mem_map]
  constructor
  · rintro ⟨⟨key, value⟩, h, rfl⟩
    exact ⟨value, (mem_entries_iff t key value).1 h⟩
  · rintro ⟨value, h⟩
    exact ⟨(k, value), (mem_entries_iff t k value).2 h, rfl⟩

theorem entries_eq_of_mem_iff {es fs : List (String × α)}
    (hes : es.Pairwise fun a b => a.1 < b.1) (hfs : fs.Pairwise fun a b => a.1 < b.1)
    (h : ∀ e, e ∈ es ↔ e ∈ fs) : es = fs := by
  induction es generalizing fs with
  | nil =>
    cases fs with
    | nil => rfl
    | cons f fs => exact absurd ((h f).2 List.mem_cons_self) (by simp)
  | cons e es ih =>
    cases fs with
    | nil => exact absurd ((h e).1 List.mem_cons_self) (by simp)
    | cons f fs =>
      have ⟨he, hes'⟩ := List.pairwise_cons.1 hes
      have ⟨hf, hfs'⟩ := List.pairwise_cons.1 hfs
      have same : e = f := by
        rcases List.mem_cons.1 ((h e).1 List.mem_cons_self) with he' | he'
        · exact he'
        · rcases List.mem_cons.1 ((h f).2 List.mem_cons_self) with hf' | hf'
          · exact hf'.symm
          · exact absurd (String.lt_trans (he f hf') (hf e he')) (String.lt_irrefl _)
      subst same
      refine congrArg (e :: ·) (ih hes' hfs' fun x => ?_)
      constructor
      · intro hx
        rcases List.mem_cons.1 ((h x).1 (List.mem_cons_of_mem _ hx)) with rfl | hx'
        · exact absurd (he x hx) (String.lt_irrefl _)
        · exact hx'
      · intro hx
        rcases List.mem_cons.1 ((h x).2 (List.mem_cons_of_mem _ hx)) with rfl | hx'
        · exact absurd (hf x hx) (String.lt_irrefl _)
        · exact hx'

theorem ext_get? {s t : Table α} (h : ∀ k, s.get? k = t.get? k) : s = t := by
  have same : s.entries = t.entries :=
    entries_eq_of_mem_iff s.sorted t.sorted fun e => by
      rw [mem_entries_iff s e.1 e.2, mem_entries_iff t e.1 e.2, h e.1]
  cases s
  cases t
  simp_all

theorem lookup_of_mem_distinct {k : String} {v : α} {es : List (String × α)}
    (distinct : (es.map Prod.fst).Nodup) (h : (k, v) ∈ es) : es.lookup k = some v := by
  induction es with
  | nil => simp at h
  | cons head rest ih =>
    obtain ⟨key, value⟩ := head
    have ⟨first, later⟩ := List.nodup_cons.1 distinct
    rcases List.mem_cons.1 h with h | h
    · cases h
      simp
    · have hk : k ≠ key := fun e => first (e ▸ List.mem_map.2 ⟨(k, v), h, rfl⟩)
      simp [lookup_entry_cons, hk, ih later h]

theorem filter_of_mem_distinct {k : String} {v : α} {es : List (String × α)}
    (distinct : (es.map Prod.fst).Nodup) (h : (k, v) ∈ es) : es.filter (fun e => e.1 = k) = [(k, v)] := by
  induction es with
  | nil => simp at h
  | cons head rest ih =>
    have ⟨first, later⟩ := List.nodup_cons.1 distinct
    rcases List.mem_cons.1 h with rfl | h
    · have others : ∀ e ∈ rest, ¬ (decide (e.1 = k) = true) := by
        intro e member same
        exact first (List.mem_map.2 ⟨e, member, decide_eq_true_iff.1 same⟩)
      simp [List.filter_eq_nil_iff.2 others]
    · have other : head.1 ≠ k := fun same => first (same ▸ List.mem_map.2 ⟨(k, v), h, rfl⟩)
      simp [other, ih later h]

theorem distinct_keys (t : Table α) : (t.entries.map Prod.fst).Nodup := by
  rw [List.Nodup, List.pairwise_map]
  refine t.sorted.imp ?_
  intro a b below same
  exact String.lt_irrefl b.1 (same ▸ below)

theorem get?_insertList (t : Table α) (pairs : List (String × α)) (k : String) :
    (t.insertList pairs).get? k = (pairs.reverse.lookup k).or (t.get? k) := by
  induction pairs generalizing t with
  | nil => simp [insertList]
  | cons head rest ih =>
    obtain ⟨key, value⟩ := head
    have step : t.insertList ((key, value) :: rest) = (t.insert key value).insertList rest := rfl
    rw [step, ih, get?_insert, List.reverse_cons, List.lookup_append]
    by_cases hk : k = key
    · simp [hk]
    · simp [lookup_entry_cons, hk]

theorem get?_ofList (pairs : List (String × α)) (k : String) :
    (ofList pairs).get? k = pairs.reverse.lookup k := by
  rw [ofList, get?_insertList]
  exact Option.or_none

theorem ofList_of_perm {t : Table α} {pairs : List (String × α)} (order : pairs.Perm t.entries) :
    ofList pairs = t := by
  refine ext_get? fun k => ?_
  have distinct : (pairs.reverse.map Prod.fst).Nodup :=
    (((List.reverse_perm pairs).trans order).map Prod.fst).nodup_iff.2 t.distinct_keys
  rw [get?_ofList]
  cases held : t.get? k with
  | none =>
    refine lookup_eq_none_of_forall fun e member same => ?_
    have entry := order.mem_iff.1 (List.mem_reverse.1 member)
    rw [← same, (mem_entries_iff t e.1 e.2).1 entry] at held
    cases held
  | some v =>
    have entry := order.mem_iff.2 ((mem_entries_iff t k v).2 held)
    exact lookup_of_mem_distinct distinct (List.mem_reverse.2 entry)

theorem get?_ofList_filterMap (f : String → Option α) (names : List String) (k : String) :
    (ofList (names.filterMap fun n => (f n).map fun v => (n, v))).get? k =
      if k ∈ names then f k else none := by
  have listed : ∀ names : List String,
      (names.filterMap fun n => (f n).map fun v => (n, v)).lookup k =
        if k ∈ names then f k else none := by
    intro names
    induction names with
    | nil => rfl
    | cons n rest ih =>
      rw [List.filterMap_cons]
      by_cases here : k = n
      · subst here
        cases answer : f k with
        | none => simp [ih, answer]
        | some v => simp
      · cases f n with
        | none => simp [ih, here]
        | some v => simp [lookup_entry_cons, ih, here]
  rw [get?_ofList, ← List.filterMap_reverse, listed]
  simp only [List.mem_reverse]

theorem lookup_reverse {k : String} {es : List (String × α)}
    (sorted : es.Pairwise fun a b => a.1 < b.1) : es.reverse.lookup k = es.lookup k := by
  induction es with
  | nil => rfl
  | cons head rest ih =>
    obtain ⟨key, value⟩ := head
    have ⟨first, later⟩ := List.pairwise_cons.1 sorted
    rw [List.reverse_cons, List.lookup_append, ih later]
    by_cases hk : k = key
    · subst hk
      have none_later : rest.lookup k = none :=
        lookup_eq_none_of_forall fun e he he' => String.lt_irrefl k (he' ▸ first e he)
      simp [none_later]
    · simp [lookup_entry_cons, hk]

theorem get?_union (s t : Table α) (k : String) :
    (s.union t).get? k = (t.get? k).or (s.get? k) := by
  rw [union, get?_insertList, lookup_reverse t.sorted, get?, get?]

end MarketFeed.Table
