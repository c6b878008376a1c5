import MarketFeed.Proofs.Json.Meaning
import MarketFeed.Proofs.Payloads.Splitting
/-!
What an array is cut into, element by element. An element is read on its own, so an element that names
none of the identifiers asked for neither hides nor changes what another one gives.
-/

set_option autoImplicit false
set_option relaxedAutoImplicit false

namespace MarketFeed.Payloads

open Json

/-- An element names an identifier: it is an object that is not nested too deeply, its members mean
something, and the last one of the name means this text. -/
def Names (t : Tree) (id : String) : Prop :=
  ∃ members values before after, t = .object members ∧ t.depth ≤ maxDepth ∧
    List.Forall₂ (MeansMember Means) members values ∧
    values = before ++ (idField, .string id) :: after ∧ ∀ v ∈ after, v.1 ≠ idField

/-- The same without regard to the reserved name: every text within the element spells characters,
every number is in range, and the last member of the name is written as this text. -/
def NamesAsWritten (t : Tree) (id : String) : Prop :=
  ∃ members before key s after, t = .object members ∧ t.depth ≤ maxDepth ∧
    Tree.legibleMembers members = true ∧ members = before ++ (key, .string s) :: after ∧
    spell key = some idField.toList ∧ spell s = some id.toList ∧
    ∀ m ∈ after, spell m.1 ≠ some idField.toList

/-- Two arrays differ only in elements that name none of some identifiers: such elements may be missing
on either side, and so any of them may stand for others. -/
inductive Alike (ids : List String) : List (Tree × List Char) → List (Tree × List Char) → Prop where
  | nil : Alike ids [] []
  | both {item : Tree × List Char} {items items' : List (Tree × List Char)}
      (later : Alike ids items items') : Alike ids (item :: items) (item :: items')
  | left {item : Tree × List Char} {items items' : List (Tree × List Char)}
      (nameless : ∀ id ∈ ids, ¬ Names item.1 id) (later : Alike ids items items') :
      Alike ids (item :: items) items'
  | right {item : Tree × List Char} {items items' : List (Tree × List Char)}
      (nameless : ∀ id ∈ ids, ¬ Names item.1 id) (later : Alike ids items items') :
      Alike ids items (item :: items')

/-! ### Names -/

section Names

variable {t : Tree} {id : String} {members : List (List Piece × Tree)}
  {values : List (String × Value)}

theorem elementId?_eq_some_iff : elementId? t = some id ↔ Names t id := by
  have last : ∀ values, Value.member? values idField = some (.string id) ↔ ∃ before after,
      values = before ++ (idField, .string id) :: after ∧ ∀ v ∈ after, v.1 ≠ idField :=
    fun _ => Value.member?_eq_some_iff
  rw [elementId?]
  constructor
  · intro told
    split at told
    · rename_i values read
      obtain ⟨members, rfl, shallow, each⟩ := members?_eq_some_iff.mp read
      split at told
      · rename_i name found
        cases told
        obtain ⟨before, after, whole, others⟩ := (last values).mp found
        exact ⟨members, values, before, after, rfl, shallow, each, whole, others⟩
      · cases told
    · cases told
  · rintro ⟨members, values, before, after, rfl, shallow, each, whole, others⟩
    have read := members?_eq_some_iff.mpr ⟨members, rfl, shallow, each⟩
    have found := (last values).mpr ⟨before, after, whole, others⟩
    simp only [read, found]

theorem Names.unique {id' : String} (names : Names t id) (names' : Names t id') : id = id' :=
  Option.some.inj ((elementId?_eq_some_iff.mpr names).symm.trans (elementId?_eq_some_iff.mpr names'))

private theorem find?_member (name : String) (each : List.Forall₂ (MeansMember Means) members values) :
    Option.Rel (MeansMember Means) (members.find? fun m => decide (spell m.1 = some name.toList))
      (values.find? fun v => v.1 == name) := by
  induction each with
  | nil => exact .none
  | @cons m v members values here _ ih =>
    obtain ⟨spelled, means⟩ := here
    rename_i key name' t v
    by_cases same : name' = name
    · rw [List.find?_cons_of_pos (by rw [decide_eq_true_eq, spelled, same]),
        List.find?_cons_of_pos (by rw [same, beq_self_eq_true])]
      exact .some ⟨spelled, means⟩
    · rw [List.find?_cons_of_neg, List.find?_cons_of_neg]
      · exact ih
      · rwa [beq_iff_eq]
      · rwa [decide_eq_true_eq, spelled, Option.some.injEq, String.toList_inj]

private theorem means_string_iff (plain : t.reserves = false) :
    Means t (.string id) ↔ ∃ s, t = .string s ∧ spell s = some id.toList := by
  constructor
  · intro means
    cases means with
    | string spelled => exact ⟨_, rfl, spelled⟩
    | embedded reserved _ _ _ _ =>
      obtain ⟨unreserved, -⟩ := Bool.or_eq_false_iff.mp plain
      exact absurd (decide_eq_true reserved) (Bool.eq_false_iff.mp unreserved)
  · rintro ⟨s, rfl, spelled⟩
    exact .string spelled

private theorem reserves_of_mem (plain : Tree.reservesMembers members = false)
    {m : List Piece × Tree} (member : m ∈ members) : m.2.reserves = false := by
  induction members with
  | nil => cases member
  | cons first members ih =>
    obtain ⟨here, later⟩ := Bool.or_eq_false_iff.mp plain
    rcases List.mem_cons.mp member with rfl | member
    · exact here
    · exact ih later member

/-- Where no object within an element begins with the reserved name, the element names what is written
in it. -/
theorem names_iff_asWritten (plain : ∀ members, t = .object members → Tree.reservesMembers members = false) :
    Names t id ↔ NamesAsWritten t id := by
  constructor
  · rintro ⟨members, values, before, after, rfl, shallow, each, whole, others⟩
    have found : values.reverse.find? (fun v => v.1 == idField) = some (idField, .string id) := by
      refine find?_reverse_eq_some_iff.mpr ⟨beq_self_eq_true _, before, after, whole, fun v member => ?_⟩
      rw [beq_iff_eq]
      exact others v member
    have related := find?_member idField (List.forall₂_reverse_iff.mpr each)
    rw [found] at related
    generalize written : members.reverse.find? _ = m at related
    obtain ⟨spelled, means⟩ := related
    rename_i key t
    have ordinary := reserves_of_mem (plain members rfl)
      (List.mem_reverse.mp (List.mem_of_find?_eq_some written))
    obtain ⟨s, rfl, text⟩ := (means_string_iff ordinary).mp means
    obtain ⟨-, before, after, whole, others⟩ := find?_reverse_eq_some_iff.mp written
    refine ⟨members, before, key, s, after, rfl, shallow,
      (exists_meansMembers_iff members (plain members rfl)).mp ⟨values, each⟩, whole, spelled, text,
      fun m member named => others m member (decide_eq_true named)⟩
  · rintro ⟨members, before, key, s, after, rfl, shallow, legible, whole, spelled, text, others⟩
    obtain ⟨values, each⟩ := (exists_meansMembers_iff members (plain members rfl)).mpr legible
    have written : members.reverse.find? (fun m => decide (spell m.1 = some idField.toList)) =
        some (key, .string s) :=
      find?_reverse_eq_some_iff.mpr ⟨decide_eq_true spelled, before, after, whole,
        fun m member named => others m member (of_decide_eq_true named)⟩
    have related := find?_member idField (List.forall₂_reverse_iff.mpr each)
    rw [written] at related
    generalize found : values.reverse.find? _ = v at related
    obtain ⟨named, means⟩ := related
    cases means with
    | string same =>
      cases String.toList_inj.mp (Option.some.inj (named.symm.trans spelled))
      cases String.toList_inj.mp (Option.some.inj (same.symm.trans text))
      obtain ⟨-, before, after, whole, others⟩ := find?_reverse_eq_some_iff.mp found
      exact ⟨members, values, before, after, rfl, shallow, each, whole,
        fun v member name => others v member (beq_iff_eq.mpr name)⟩

end Names

/-! ### Arrays -/

section Arrays

variable {ids : List String} {text : List Char} {items items' : List (Tree × List Char)}

private def naming (id : String) (items : List (Tree × List Char)) : List (Tree × List Char) :=
  items.filter fun item => elementId? item.1 == some id

private theorem mem_naming {id : String} {item : Tree × List Char} :
    item ∈ naming id items ↔ item ∈ items ∧ Names item.1 id := by
  rw [naming, List.mem_filter, beq_iff_eq, elementId?_eq_some_iff]

private theorem naming_cons_of_names {id : String} {item : Tree × List Char} (names : Names item.1 id) :
    naming id (item :: items) = item :: naming id items :=
  List.filter_cons_of_pos (beq_iff_eq.mpr (elementId?_eq_some_iff.mpr names))

private theorem naming_cons_of_not {id : String} {item : Tree × List Char} (other : ¬ Names item.1 id) :
    naming id (item :: items) = naming id items :=
  List.filter_cons_of_neg fun same => other (elementId?_eq_some_iff.mp (beq_iff_eq.mp same))

private theorem lookup_ofItems (id : String) (items : List (Tree × List Char)) :
    (ofItems items).lookup id = (naming id items).head?.map fun item => Text.Utf8.encode item.2 := by
  induction items with
  | nil => rfl
  | cons item items ih =>
    rw [ofItems, List.filterMap_cons]
    cases named : elementId? item.1 with
    | none =>
      rw [naming_cons_of_not]
      · exact ih
      · intro names
        rw [elementId?_eq_some_iff.mpr names] at named
        cases named
    | some name =>
      have names := elementId?_eq_some_iff.mp named
      dsimp only [Option.map_some]
      rw [Table.lookup_entry_cons]
      by_cases same : id = name
      · rw [if_pos same, same, naming_cons_of_names names]
        rfl
      · rw [if_neg same, naming_cons_of_not fun names' => same (names'.unique names)]
        exact ih

theorem Alike.naming_eq (alike : Alike ids items items') {id : String} (asked : id ∈ ids) :
    naming id items = naming id items' := by
  induction alike with
  | nil => rfl
  | @both item items items' _ ih =>
    by_cases names : Names item.1 id
    · rw [naming_cons_of_names names, naming_cons_of_names names, ih]
    · rw [naming_cons_of_not names, naming_cons_of_not names, ih]
  | left nameless _ ih => rw [naming_cons_of_not (nameless id asked), ih]
  | right nameless _ ih => rw [naming_cons_of_not (nameless id asked), ih]

theorem get?_split {payloads : Payloads} (writes : WritesAlone WritesArray text items)
    (cut : split .batch ids (Text.Utf8.encode text) = .ok payloads) (id : String) :
    payloads.get? id = if id ∈ ids then
      (naming id items).getLast?.map fun item => Text.Utf8.encode item.2 else none := by
  rw [split, batchPairs_array writes] at cut
  cases cut
  have reversed : (ofItems items).reverse = ofItems items.reverse := List.filterMap_reverse.symm
  rw [get?_kept, reversed, lookup_ofItems, naming, List.filter_reverse, List.head?_reverse, naming]

/-- An array is cut element by element. Whatever stands in it, the result holds exactly the identifiers
asked for that some element names, each with the source text of the last element that names it, and it
stays the same if elements that name none of them come, go or are replaced. Where no object within an
element begins with the reserved name, the element names what is written in it. -/
theorem split_array (ids : List String) {text : List Char} {items : List (Tree × List Char)}
    (writes : WritesAlone WritesArray text items) :
    ∃ payloads, split .batch ids (Text.Utf8.encode text) = .ok payloads ∧
      (∀ id, payloads.contains id = true ↔ id ∈ ids ∧ ∃ item ∈ items, Names item.1 id) ∧
      (∀ id ∈ ids, ∀ before t source after, items = before ++ (t, source) :: after → Names t id →
        (∀ item ∈ after, ¬ Names item.1 id) →
        payloads.get? id = some (Text.Utf8.encode source)) ∧
      (∀ text' items', WritesAlone WritesArray text' items' → Alike ids items items' →
        split .batch ids (Text.Utf8.encode text') = .ok payloads) ∧
      ∀ item ∈ items, (∀ members, item.1 = .object members → Tree.reservesMembers members = false) →
        ∀ id, Names item.1 id ↔ NamesAsWritten item.1 id := by
  have accepted : ∀ {text items}, WritesAlone WritesArray text items →
      ∃ payloads, split .batch ids (Text.Utf8.encode text) = .ok payloads :=
    fun {text items} writes => split_ok_iff.mpr ⟨text, rfl, .inr ⟨items, writes⟩⟩
  obtain ⟨payloads, cut⟩ := accepted writes
  have held := get?_split writes cut
  refine ⟨payloads, cut, fun id => ?_, ?_, ?_, fun item _ plain id => names_iff_asWritten plain⟩
  · rw [Table.contains, held]
    by_cases asked : id ∈ ids
    · rw [if_pos asked, Option.isSome_map, List.getLast?_isSome, and_iff_right asked]
      constructor
      · intro some_element
        obtain ⟨item, member⟩ := List.exists_mem_of_ne_nil _ some_element
        exact ⟨item, mem_naming.mp member⟩
      · rintro ⟨item, names⟩
        exact List.ne_nil_of_mem (mem_naming.mpr names)
    · rw [if_neg asked]
      exact iff_of_false Bool.false_ne_true fun found => asked found.1
  · rintro id asked before t source after rfl names others
    have none_later : naming id after = [] := by
      rw [List.eq_nil_iff_forall_not_mem]
      exact fun item member => others item (mem_naming.mp member).1 (mem_naming.mp member).2
    rw [held, if_pos asked, naming, List.filter_append, ← naming, ← naming,
      naming_cons_of_names names, none_later, List.getLast?_concat]
    rfl
  · intro text' items' writes' alike
    obtain ⟨payloads', cut'⟩ := accepted writes'
    have same : payloads' = payloads := by
      refine Table.ext_get? fun id => ?_
      rw [held, get?_split writes' cut']
      by_cases asked : id ∈ ids
      · rw [if_pos asked, if_pos asked, alike.naming_eq asked]
      · rw [if_neg asked, if_neg asked]
    rw [cut', same]

end Arrays

private def idKey : List Piece := [.char 'i', .char 'd']

def fourElements : List Char :=
  "[\x7b\"id\":\"a\",\"p\":1\x7d, 7,\x7b\"id\":\"\\u0061\"\x7d,\x7b\"id\":\"b\",\"id\":2\x7d]".toList

def fourItems : List (Tree × List Char) :=
  [(.object [(idKey, .string [.char 'a']), ([.char 'p'], .number ⟨false, ['1'], none, none⟩)],
      "\x7b\"id\":\"a\",\"p\":1\x7d".toList),
    (.number ⟨false, ['7'], none, none⟩, ['7']),
    (.object [(idKey, .string [.unit 0x61])], "\x7b\"id\":\"\\u0061\"\x7d".toList),
    (.object [(idKey, .string [.char 'b']), (idKey, .number ⟨false, ['2'], none, none⟩)],
      "\x7b\"id\":\"b\",\"id\":2\x7d".toList)]

theorem split_array_four :
    ∃ payloads, split .batch ["a", "b"] (Text.Utf8.encode fourElements) = .ok payloads ∧
      payloads.get? "a" = some (Text.Utf8.encode "\x7b\"id\":\"\\u0061\"\x7d".toList) ∧
      payloads.contains "b" = false := by
  have read : sourceItems fourElements = some fourItems := rfl
  have third : elementId? (.object [(idKey, .string [.unit 0x61])]) = some "a" := by
    decide +kernel
  have fourth : elementId? (.object [(idKey, .string [.char 'b']),
      (idKey, .number ⟨false, ['2'], none, none⟩)]) = none := by
    decide +kernel
  have named : fourItems.map (fun item => elementId? item.1) = [some "a", none, some "a", none] := by
    decide +kernel
  obtain ⟨payloads, cut, held, found, -⟩ :=
    split_array ["a", "b"] (sourceItems_eq_some_iff.mp read)
  refine ⟨payloads, cut, ?_, ?_⟩
  · refine found "a" List.mem_cons_self (fourItems.take 2) _ _ (fourItems.drop 3) rfl
      (elementId?_eq_some_iff.mp third) fun item member names => ?_
    cases List.mem_singleton.mp member
    cases fourth.symm.trans (elementId?_eq_some_iff.mpr names)
  · rw [Bool.eq_false_iff, ne_eq, held]
    rintro ⟨-, item, member, names⟩
    have listed := List.mem_map_of_mem (f := fun item => elementId? item.1) member
    rw [named, elementId?_eq_some_iff.mpr names] at listed
    exact absurd listed (by decide)

def reservedWithin : List Char :=
  "[\x7b\"id\":\"a\",\"v\":\x7b\"$serde_json::private::RawValue\":1\x7d\x7d,\x7b\"id\":\"b\"\x7d]".toList

def reservedItems : List (Tree × List Char) :=
  [(.object [(idKey, .string [.char 'a']), ([.char 'v'],
      .object [(Tree.embeddingName.toList.map .char, .number ⟨false, ['1'], none, none⟩)])],
      "\x7b\"id\":\"a\",\"v\":\x7b\"$serde_json::private::RawValue\":1\x7d\x7d".toList),
    (.object [(idKey, .string [.char 'b'])], "\x7b\"id\":\"b\"\x7d".toList)]

/-- Although the first element is written so as to name an identifier, it is not among the payloads. -/
theorem written_not_split_reserved :
    ∃ payloads, WritesAlone WritesArray reservedWithin reservedItems ∧
      split .batch ["a", "b"] (Text.Utf8.encode reservedWithin) = .ok payloads ∧
      (∃ item ∈ reservedItems, NamesAsWritten item.1 "a") ∧ payloads.contains "a" = false := by
  have read : sourceItems reservedWithin = some reservedItems := rfl
  have unnamed : naming "a" reservedItems = [] := by
    rw [naming, List.filter_eq_nil_iff]
    decide +kernel
  have writes := sourceItems_eq_some_iff.mp read
  obtain ⟨payloads, cut⟩ := split_ok_iff.mpr ⟨reservedWithin, rfl, .inr ⟨reservedItems, writes⟩⟩
  refine ⟨payloads, writes, cut, ⟨_, List.mem_cons_self, ?_⟩, ?_⟩
  · exact ⟨_, [], idKey, [.char 'a'], _, rfl, by decide +kernel, by decide +kernel, rfl,
      by decide +kernel, by decide +kernel, by decide +kernel⟩
  · rw [Table.contains, get?_split writes cut, if_pos List.mem_cons_self, unnamed]
    rfl

end MarketFeed.Payloads
