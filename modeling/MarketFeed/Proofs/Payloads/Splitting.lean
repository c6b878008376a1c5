import MarketFeed.Payloads
import MarketFeed.Proofs.Json.Reading
import MarketFeed.Proofs.Text.Utf8
import MarketFeed.Table.Lemmas
import Mathlib.Data.List.Forall2
/-!
What a body of a batch is cut into. A body is accepted exactly if its bytes spell a text that writes
one object whose names spell characters, or one array, with nothing but blanks around it. Neither a
part of such a body is accepted nor more than it, apart from blanks at its end. The payloads of an
object are the source texts of the last members of their names.
-/

set_option autoImplicit false
set_option relaxedAutoImplicit false

namespace MarketFeed.Payloads

open Json

variable {text : List Char} {members : List (List Piece × Tree × List Char)}
  {items : List (Tree × List Char)} {pairs : List (String × Bytes)}

theorem trimStart_blank {b : List Char} {c : Char} (blank : Blank b) (solid : Text.isBlank c = false)
    (t : List Char) : Text.trimStart (b ++ c :: t) = c :: t := by
  induction b with
  | nil => rw [List.nil_append, Text.trimStart, List.dropWhile_cons_of_neg (by rw [solid]; decide)]
  | cons space b ih =>
    have listed := blank space List.mem_cons_self
    have trimmed : Text.isBlank space = true := by
      simp only [List.mem_cons, List.not_mem_nil, or_false] at listed
      rcases listed with rfl | rfl | rfl | rfl <;> decide
    rw [List.cons_append, Text.trimStart, List.dropWhile_cons_of_pos trimmed]
    exact ih fun c member => blank c (List.mem_cons_of_mem _ member)

theorem trimStart_bracketed {α : Type} {Item : List Char → α → Prop} {opening close : Char}
    {as : List α} (solid : Text.isBlank opening = false)
    (writes : WritesAlone (WritesBracketed Item opening close) text as) (more : List Char) :
    ∃ t, Text.trimStart (text ++ more) = opening :: t := by
  obtain ⟨b, source, b', rfl, before, bracketed, -⟩ := writes
  obtain ⟨t, rfl⟩ := bracketed.starts
  refine ⟨t ++ b' ++ more, ?_⟩
  rw [List.append_assoc, List.append_assoc, List.cons_append, List.append_assoc]
  exact trimStart_blank before solid _

/-! ### Members -/

theorem ofMembers_forall (told : ofMembers members = some pairs) :
    List.Forall₂ (fun m p => spell m.1 = some p.1.toList ∧ p.2 = Text.Utf8.encode m.2.2) members
      pairs := by
  induction members generalizing pairs with
  | nil =>
    cases told
    exact .nil
  | cons m members ih =>
    obtain ⟨key, t, source⟩ := m
    rw [ofMembers] at told
    split at told
    · rename_i name rest spelled later
      cases told
      refine .cons ⟨?_, rfl⟩ (ih later)
      rw [String.toList_ofList]
      exact spelled
    · cases told

theorem ofMembers_isSome : (ofMembers members).isSome ↔ ∀ m ∈ members, (spell m.1).isSome := by
  induction members with
  | nil => exact ⟨fun _ => nofun, fun _ => rfl⟩
  | cons m members ih =>
    obtain ⟨key, t, source⟩ := m
    rw [List.forall_mem_cons, ← ih, ofMembers]
    cases spell key with
    | none => simp
    | some name => cases ofMembers members <;> simp

theorem lookup_of_forall (id : String)
    (each : List.Forall₂ (fun m p => spell m.1 = some p.1.toList ∧ p.2 = Text.Utf8.encode m.2.2)
      members pairs) :
    pairs.lookup id = (members.find? fun m => decide (spell m.1 = some id.toList)).map
      fun m => Text.Utf8.encode m.2.2 := by
  induction each with
  | nil => rfl
  | @cons m p members pairs here _ ih =>
    obtain ⟨name, payload⟩ := p
    obtain ⟨spelled, rfl⟩ := here
    rw [Table.lookup_entry_cons]
    by_cases same : id = name
    · rw [if_pos same, List.find?_cons_of_pos]
      · rfl
      · rw [decide_eq_true_eq, spelled, same]
    · rw [if_neg same, List.find?_cons_of_neg, ih]
      rw [decide_eq_true_eq, spelled, Option.some.injEq, String.toList_inj]
      exact fun equal => same equal.symm

/-! ### Bodies -/

/-- A text writes an object whose names spell characters, or an array. -/
def WritesBatch (text : List Char) : Prop :=
  (∃ members, WritesAlone WritesObject text members ∧ ∀ m ∈ members, (spell m.1).isSome) ∨
    ∃ items, WritesAlone WritesArray text items

theorem batchPairs_object (writes : WritesAlone WritesObject text members) :
    batchPairs (Text.Utf8.encode text) = (ofMembers members).elim (.error .notObject) .ok := by
  obtain ⟨t, opened⟩ := trimStart_bracketed (by decide) writes []
  rw [List.append_nil] at opened
  rw [batchPairs, Text.Utf8.decode?_eq_some_iff.mpr rfl]
  simp only [opened, sourceMembers_eq_some_iff.mpr writes, Option.bind_some]
  cases ofMembers members <;> rfl

theorem batchPairs_array (writes : WritesAlone WritesArray text items) :
    batchPairs (Text.Utf8.encode text) = .ok (ofItems items) := by
  obtain ⟨t, opened⟩ := trimStart_bracketed (by decide) writes []
  rw [List.append_nil] at opened
  rw [batchPairs, Text.Utf8.decode?_eq_some_iff.mpr rfl]
  simp only [opened, sourceItems_eq_some_iff.mpr writes]

theorem batchPairs_sound {body : Bytes} (cut : batchPairs body = .ok pairs) :
    ∃ text, body = Text.Utf8.encode text ∧
      ((∃ members, WritesAlone WritesObject text members ∧ ofMembers members = some pairs) ∨
        ∃ items, WritesAlone WritesArray text items ∧ pairs = ofItems items) := by
  rw [batchPairs] at cut
  split at cut
  · cases cut
  · rename_i text spelled
    refine ⟨text, Text.Utf8.decode?_eq_some_iff.mp spelled, ?_⟩
    split at cut
    · split at cut
      · rename_i pairs' told
        cases cut
        obtain ⟨members, read, told⟩ := Option.bind_eq_some_iff.mp told
        exact .inl ⟨members, sourceMembers_eq_some_iff.mp read, told⟩
      · cases cut
    · split at cut
      · rename_i items read
        cases cut
        exact .inr ⟨items, sourceItems_eq_some_iff.mp read, rfl⟩
      · cases cut
    · cases cut

theorem split_ok_iff {ids : List String} {body : Bytes} :
    (∃ payloads, split .batch ids body = .ok payloads) ↔
      ∃ text, body = Text.Utf8.encode text ∧ WritesBatch text := by
  constructor
  · rintro ⟨payloads, cut⟩
    rw [split] at cut
    split at cut
    · cases cut
    · rename_i pairs told
      obtain ⟨text, rfl, ⟨members, writes, told⟩ | ⟨items, writes, -⟩⟩ := batchPairs_sound told
      · refine ⟨text, rfl, .inl ⟨members, writes, ofMembers_isSome.mp ?_⟩⟩
        rw [told]
        rfl
      · exact ⟨text, rfl, .inr ⟨items, writes⟩⟩
  · rintro ⟨text, rfl, ⟨members, writes, spelled⟩ | ⟨items, writes⟩⟩
    · obtain ⟨pairs, told⟩ := Option.isSome_iff_exists.mp (ofMembers_isSome.mpr spelled)
      rw [split, batchPairs_object writes, told]
      exact ⟨_, rfl⟩
    · rw [split, batchPairs_array writes]
      exact ⟨_, rfl⟩

theorem get?_kept (ids : List String) (pairs : List (String × Bytes)) (id : String) :
    ((Table.ofList pairs).filter fun id _ => ids.contains id).get? id =
      if id ∈ ids then pairs.reverse.lookup id else none := by
  rw [Table.get?_filter, Table.get?_ofList, List.contains_eq_mem]
  by_cases asked : id ∈ ids
  · rw [decide_eq_true asked, if_pos asked]
    cases pairs.reverse.lookup id <;> rfl
  · rw [decide_eq_false asked, if_neg asked]
    cases pairs.reverse.lookup id <;> rfl

theorem split_error {ids : List String} {body : Bytes} {e : FetchError}
    (refused : split .batch ids body = .error e) : ∃ message, e = .invalidResponse message := by
  rw [split] at refused
  split at refused
  · cases refused
    exact ⟨_, rfl⟩
  · cases refused

theorem split_object {ids : List String} {payloads : Payloads}
    (writes : WritesAlone WritesObject text members)
    (cut : split .batch ids (Text.Utf8.encode text) = .ok payloads) (id : String) :
    payloads.get? id = if id ∈ ids then
      (members.reverse.find? fun m => decide (spell m.1 = some id.toList)).map
        fun m => Text.Utf8.encode m.2.2
      else none := by
  rw [split, batchPairs_object writes] at cut
  cases told : ofMembers members with
  | none =>
    rw [told] at cut
    cases cut
  | some pairs =>
    rw [told] at cut
    cases cut
    rw [get?_kept, lookup_of_forall id (List.forall₂_reverse_iff.mpr (ofMembers_forall told))]

/-- A batch goes on as a batch only with blanks. -/
theorem WritesBatch.append_iff (batch : WritesBatch text) (more : List Char) :
    WritesBatch (text ++ more) ↔ Blank more := by
  constructor
  · rcases batch with ⟨members, whole, -⟩ | ⟨items, whole⟩
    · rintro (⟨members', longer, -⟩ | ⟨items, longer⟩)
      · exact blank_of_object whole longer
      · obtain ⟨t, brace⟩ := trimStart_bracketed (by decide) whole more
        obtain ⟨t', bracket⟩ := trimStart_bracketed (by decide) longer []
        rw [List.append_nil, brace] at bracket
        cases bracket
    · rintro (⟨members, longer, -⟩ | ⟨items', longer⟩)
      · obtain ⟨t, bracket⟩ := trimStart_bracketed (by decide) whole more
        obtain ⟨t', brace⟩ := trimStart_bracketed (by decide) longer []
        rw [List.append_nil, bracket] at brace
        cases brace
      · exact blank_of_array whole longer
  · intro blank
    rcases batch with ⟨members, whole, spelled⟩ | ⟨items, whole⟩
    · exact .inl ⟨members, whole.append blank, spelled⟩
    · exact .inr ⟨items, whole.append blank⟩

theorem split_append_ok_iff {ids : List String} {body : Bytes} {payloads : Payloads}
    (cut : split .batch ids body = .ok payloads) (more : Bytes) :
    (∃ payloads', split .batch ids (body ++ more) = .ok payloads') ↔
      ∃ blank, more = Text.Utf8.encode blank ∧ Blank blank := by
  obtain ⟨text, rfl, batch⟩ := split_ok_iff.mp ⟨payloads, cut⟩
  rw [split_ok_iff]
  constructor
  · rintro ⟨whole, spelled, longer⟩
    have read := Text.Utf8.decode?_eq_some_iff.mpr spelled
    rw [Text.Utf8.decode?_encode_append] at read
    obtain ⟨rest, told, rfl⟩ := Option.map_eq_some_iff.mp read
    exact ⟨rest, Text.Utf8.decode?_eq_some_iff.mp told, (batch.append_iff rest).mp longer⟩
  · rintro ⟨blank, rfl, blanks⟩
    exact ⟨text ++ blank, List.flatMap_append.symm, (batch.append_iff blank).mpr blanks⟩

/-- In batch mode a body is cut exactly if it spells a text that writes one object whose names spell
characters, or one array, with nothing but blanks around it; otherwise the body is refused as a
whole. So a body that is cut goes on as one only with blanks. Of an object each identifier asked for
gets the source text of the last member of its name. -/
theorem split_batch (ids : List String) (body : Bytes) :
    ((∃ payloads, split .batch ids body = .ok payloads) ↔
      ∃ text, body = Text.Utf8.encode text ∧ WritesBatch text) ∧
    (∀ e, split .batch ids body = .error e → ∃ message, e = .invalidResponse message) ∧
    (∀ payloads, split .batch ids body = .ok payloads → ∀ more,
      (∃ payloads', split .batch ids (body ++ more) = .ok payloads') ↔
        ∃ blank, more = Text.Utf8.encode blank ∧ Blank blank) ∧
    ∀ text members payloads, body = Text.Utf8.encode text →
      WritesAlone WritesObject text members → split .batch ids body = .ok payloads →
      ∀ id, payloads.get? id = if id ∈ ids then
        (members.reverse.find? fun m => decide (spell m.1 = some id.toList)).map
          fun m => Text.Utf8.encode m.2.2
        else none := by
  refine ⟨split_ok_iff, fun e refused => split_error refused,
    fun payloads cut more => split_append_ok_iff cut more, ?_⟩
  rintro text members payloads rfl writes cut id
  exact split_object writes cut id

def twiceNamed : List Char := "\x7b \"a\": [1, \x7b\"b\":2\x7d],\n\"\\u0061\" : 1.50e+3 \x7d ".toList

theorem split_batch_twiceNamed :
    ∃ payloads, split .batch ["a", "b"] (Text.Utf8.encode twiceNamed) = .ok payloads ∧
      payloads.get? "a" = some (Text.Utf8.encode "1.50e+3".toList) ∧ payloads.get? "b" = none := by
  obtain ⟨accepted, -, -, found⟩ := split_batch ["a", "b"] (Text.Utf8.encode twiceNamed)
  have writes := sourceMembers_eq_some_iff.mp
    (rfl : sourceMembers twiceNamed = some
      [([.char 'a'], .array [.number ⟨false, ['1'], none, none⟩,
          .object [([.char 'b'], .number ⟨false, ['2'], none, none⟩)]],
          "[1, \x7b\"b\":2\x7d]".toList),
        ([.unit 0x61], .number ⟨false, ['1'], some ['5', '0'], some (false, ['3'])⟩,
          "1.50e+3".toList)])
  obtain ⟨payloads, cut⟩ := accepted.mpr ⟨twiceNamed, rfl, .inl ⟨_, writes, by decide⟩⟩
  refine ⟨payloads, cut, ?_, ?_⟩
  · exact (found twiceNamed _ payloads rfl writes cut "a").trans (by decide)
  · exact (found twiceNamed _ payloads rfl writes cut "b").trans (by decide)
end MarketFeed.Payloads
