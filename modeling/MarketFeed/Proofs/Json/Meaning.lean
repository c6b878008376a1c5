import Mathlib.Data.List.Forall2
import MarketFeed.Json.Meaning
import MarketFeed.Proofs.Json.Reading
/-!
What documents mean, as a relation between trees and values apart from how values are computed. The
allowance for documents embedded in each other is never used up: an embedded text is shorter than the
text around it.
-/

set_option autoImplicit false
set_option relaxedAutoImplicit false

namespace MarketFeed.Json

inductive MeansMember (item : Tree → Value → Prop) : List Piece × Tree → String × Value → Prop where
  | mk {key : List Piece} {name : String} {t : Tree} {v : Value}
      (spelled : spell key = some name.toList) (value : item t v) :
      MeansMember item (key, t) (name, v)

/-- What a document means. Its texts spell characters and its numbers are in range. An object whose
first member has the reserved name means what the text of this member writes, which is then the only
one; any other object has the members written. -/
inductive Means : Tree → Value → Prop where
  | null : Means .null .null
  | bool (b : Bool) : Means (.bool b) (.bool b)
  | number {n : Numeral} (finite : n.inRange = true) : Means (.number n) (.number n)
  | string {s : List Piece} {text : String} (spelled : spell s = some text.toList) :
      Means (.string s) (.string text)
  | array {items : List Tree} {values : List Value} (each : List.Forall₂ Means items values) :
      Means (.array items) (.array values)
  | object {members : List (List Piece × Tree)} {values : List (String × Value)}
      (plain : Tree.embeds members = false)
      (each : List.Forall₂ (MeansMember Means) members values) :
      Means (.object members) (.object values)
  | embedded {key s : List Piece} {text : List Char} {t : Tree} {v : Value}
      (reserved : spell key = some Tree.embeddingName.toList) (spelled : spell s = some text)
      (writes : WritesAlone Writes text t) (shallow : t.depth ≤ maxDepth) (means : Means t v) :
      Means (.object [(key, .string s)]) v

/-- A text denotes what the document means that it writes, if this is not nested too deeply. -/
def Denotes (text : List Char) (v : Value) : Prop :=
  ∃ t, WritesAlone Writes text t ∧ t.depth ≤ maxDepth ∧ Means t v

namespace Tree

mutual

def longest : Tree → Nat
  | .string s => s.length
  | .array items => longestItem items
  | .object members => longestMember members
  | _ => 0

def longestItem : List Tree → Nat
  | [] => 0
  | t :: rest => max t.longest (longestItem rest)

def longestMember : List (List Piece × Tree) → Nat
  | [] => 0
  | (_, t) :: rest => max t.longest (longestMember rest)

end

mutual

/-- Whether every text of a document spells characters and every number is in range. -/
def legible : Tree → Bool
  | .number n => n.inRange
  | .string s => (spell s).isSome
  | .array items => legibleItems items
  | .object members => legibleMembers members
  | _ => true

def legibleItems : List Tree → Bool
  | [] => true
  | t :: rest => t.legible && legibleItems rest

def legibleMembers : List (List Piece × Tree) → Bool
  | [] => true
  | (key, t) :: rest => (spell key).isSome && (t.legible && legibleMembers rest)

end

mutual

/-- Whether the first member of some object of a document has the reserved name. -/
def reserves : Tree → Bool
  | .array items => reservesItems items
  | .object members => embeds members || reservesMembers members
  | _ => false

def reservesItems : List Tree → Bool
  | [] => false
  | t :: rest => t.reserves || reservesItems rest

def reservesMembers : List (List Piece × Tree) → Bool
  | [] => false
  | (_, t) :: rest => t.reserves || reservesMembers rest

end

end Tree

/-! ### Texts within texts -/

theorem WritesPieces.length_le {s : List Char} {ps : List Piece} (writes : WritesPieces s ps) :
    ps.length ≤ s.length := by
  induction writes with
  | nil => exact Nat.le_refl 0
  | cons here _ ih =>
    rw [List.length_append, List.length_cons]
    cases here <;> simp only [List.length_cons] <;> omega

theorem length_spell_le {ps : List Piece} {cs : List Char} (spelled : spell ps = some cs) :
    cs.length ≤ ps.length := by
  fun_induction spell ps generalizing cs with
  | case1 =>
    cases spelled
    exact Nat.le_refl 0
  | case2 c rest ih =>
    obtain ⟨cs, later, rfl⟩ := Option.map_eq_some_iff.mp spelled
    exact Nat.succ_le_succ (ih later)
  | case3 high low rest _ _ ih =>
    obtain ⟨cs, later, rfl⟩ := Option.map_eq_some_iff.mp spelled
    exact Nat.le_succ_of_le (Nat.succ_le_succ (ih later))
  | case4 => cases spelled
  | case5 => cases spelled
  | case6 high low rest _ _ ih =>
    obtain ⟨cs, later, rfl⟩ := Option.map_eq_some_iff.mp spelled
    exact Nat.succ_le_succ (ih later)
  | case7 => cases spelled
  | case8 code rest _ _ ih =>
    obtain ⟨cs, later, rfl⟩ := Option.map_eq_some_iff.mp spelled
    exact Nat.succ_le_succ (ih later)

theorem document_eq_some_iff {s : List Char} {t : Tree} :
    document s = some t ↔ WritesAlone Writes s t :=
  readAll_eq_some_iff readValue_sound readValue_complete opens_value

mutual

theorem longest_lt : (t : Tree) → {s : List Char} → Writes s t → t.longest < s.length
  | .null, _, .null => Nat.zero_lt_succ _
  | .bool _, _, writes => by cases writes <;> exact Nat.zero_lt_succ _
  | .number n, _, .number numeral => by
    obtain ⟨c, t, rfl, -⟩ := numeral.starts
    exact Nat.zero_lt_succ _
  | .string ps, _, .string pieces => by
    have := pieces.length_le
    simp only [Tree.longest, List.length_append, List.length_cons]
    omega
  | .array items, _, .array list => by
    cases list with
    | empty _ => exact Nat.zero_lt_succ _
    | row row =>
      have := longestItem_lt items row
      simp only [Tree.longest, List.length_append, List.length_cons]
      omega
  | .object members, _, .object list => by
    cases list with
    | empty _ => exact Nat.zero_lt_succ _
    | row row =>
      have := longestMember_lt members row
      simp only [Tree.longest, List.length_append, List.length_cons]
      omega

private theorem longestItem_lt :
    (items : List Tree) → {r : List Char} → WritesRow Writes r items → Tree.longestItem items < r.length
  | t :: items, _, row => by
    cases row with
    | last before here behind =>
      have := longest_lt t here
      simp only [Tree.longestItem, List.length_append]
      omega
    | cons before here behind later =>
      have := longest_lt t here
      have := longestItem_lt items later
      simp only [Tree.longestItem, List.length_append, List.length_cons]
      omega

private theorem longestMember_lt :
    (members : List (List Piece × Tree)) → {r : List Char} → WritesRow (WritesMember Writes) r members →
      Tree.longestMember members < r.length
  | (key, t) :: members, _, row => by
    cases row with
    | last before here behind =>
      obtain ⟨-, -, -, value⟩ := here
      have := longest_lt t value
      simp only [Tree.longestMember, List.length_append, List.length_cons]
      omega
    | cons before here behind later =>
      obtain ⟨-, -, -, value⟩ := here
      have := longest_lt t value
      have := longestMember_lt members later
      simp only [Tree.longestMember, List.length_append, List.length_cons]
      omega

end

/-! ### Values -/

section Values

variable {embedded : List Char → Option Value} {n : Nat}

private theorem within {key s : List Piece} {text : List Char} (spelled : spell s = some text)
    (short : (Tree.object [(key, .string s)]).longest < n) : text.length < n := by
  refine Nat.lt_of_le_of_lt (Nat.le_trans (length_spell_le spelled) ?_) short
  exact Nat.le_max_left _ _

theorem Tree.embedded?_eq_some_iff {members : List (List Piece × Tree)} {text : List Char} :
    Tree.embedded? members = some text ↔
      ∃ key s, members = [(key, .string s)] ∧ spell s = some text := by
  constructor
  · intro holds
    unfold Tree.embedded? at holds
    split at holds
    · exact ⟨_, _, rfl, holds⟩
    · cases holds
  · rintro ⟨key, s, rfl, spelled⟩
    exact spelled

theorem meansMember_iff {key : List Piece} {t : Tree} {m : String × Value} :
    MeansMember Means (key, t) m ↔ spell key = some m.1.toList ∧ Means t m.2 :=
  ⟨fun ⟨spelled, value⟩ => ⟨spelled, value⟩, fun ⟨spelled, value⟩ => ⟨spelled, value⟩⟩

mutual

private theorem value?_eq_some_iff
    (reads : ∀ s : List Char, s.length < n → ∀ v, embedded s = some v ↔ Denotes s v) :
    (t : Tree) → t.longest < n → ∀ v, t.value? embedded = some v ↔ Means t v
  | .null, _, v => by
    rw [Tree.value?, Option.some.injEq]
    exact ⟨by rintro rfl; exact .null, by rintro ⟨⟩; rfl⟩
  | .bool b, _, v => by
    rw [Tree.value?, Option.some.injEq]
    exact ⟨by rintro rfl; exact .bool b, by rintro ⟨⟩; rfl⟩
  | .number m, _, v => by
    rw [Tree.value?, Option.ite_none_right_eq_some, Option.some.injEq]
    constructor
    · rintro ⟨finite, rfl⟩
      exact .number finite
    · intro means
      cases means with
      | number finite => exact ⟨finite, rfl⟩
  | .string s, _, v => by
    rw [Tree.value?, Option.map_eq_some_iff]
    constructor
    · rintro ⟨cs, spelled, rfl⟩
      refine .string ?_
      rwa [String.toList_ofList]
    · intro means
      cases means with
      | string spelled => exact ⟨_, spelled, by rw [String.ofList_toList]⟩
  | .array items, short, v => by
    rw [Tree.value?, Option.map_eq_some_iff]
    constructor
    · rintro ⟨values, each, rfl⟩
      exact .array ((valueItems?_eq_some_iff reads items short values).mp each)
    · intro means
      cases means with
      | array each => exact ⟨_, (valueItems?_eq_some_iff reads items short _).mpr each, rfl⟩
  | .object members, short, v => by
    rw [Tree.value?]
    split
    next reserved =>
      rw [Option.bind_eq_some_iff]
      constructor
      · rintro ⟨text, holds, told⟩
        obtain ⟨key, s, rfl, spelled⟩ := Tree.embedded?_eq_some_iff.mp holds
        obtain ⟨t, writes, shallow, means⟩ := (reads text (within spelled short) v).mp told
        exact .embedded (of_decide_eq_true reserved) spelled writes shallow means
      · intro means
        cases means with
        | object plain _ => exact absurd (reserved.symm.trans plain) (by decide)
        | embedded _ spelled writes shallow means =>
          refine ⟨_, Tree.embedded?_eq_some_iff.mpr ⟨_, _, rfl, spelled⟩, ?_⟩
          exact (reads _ (within spelled short) v).mpr ⟨_, writes, shallow, means⟩
    next plain =>
      rw [Option.map_eq_some_iff]
      constructor
      · rintro ⟨values, each, rfl⟩
        exact .object (Bool.eq_false_iff.mpr plain)
          ((valueMembers?_eq_some_iff reads members short values).mp each)
      · intro means
        cases means with
        | object _ each =>
          exact ⟨_, (valueMembers?_eq_some_iff reads members short _).mpr each, rfl⟩
        | embedded reserved _ _ _ _ => exact absurd (decide_eq_true reserved) plain

private theorem valueItems?_eq_some_iff
    (reads : ∀ s : List Char, s.length < n → ∀ v, embedded s = some v ↔ Denotes s v) :
    (items : List Tree) → Tree.longestItem items < n → ∀ values,
      Tree.valueItems? embedded items = some values ↔ List.Forall₂ Means items values
  | [], _, values => by
    rw [Tree.valueItems?, Option.some.injEq, List.forall₂_nil_left_iff, eq_comm]
  | t :: items, short, values => by
    have first := value?_eq_some_iff reads t (Nat.lt_of_le_of_lt (Nat.le_max_left _ _) short)
    have others := valueItems?_eq_some_iff reads items
      (Nat.lt_of_le_of_lt (Nat.le_max_right _ _) short)
    rw [Tree.valueItems?, List.forall₂_cons_left_iff]
    simp only [← first, ← others]
    cases t.value? embedded with
    | none => simp
    | some v =>
      cases Tree.valueItems? embedded items with
      | none => simp
      | some vs => simp [eq_comm]

private theorem valueMembers?_eq_some_iff
    (reads : ∀ s : List Char, s.length < n → ∀ v, embedded s = some v ↔ Denotes s v) :
    (members : List (List Piece × Tree)) → Tree.longestMember members < n → ∀ values,
      Tree.valueMembers? embedded members = some values ↔
        List.Forall₂ (MeansMember Means) members values
  | [], _, values => by
    rw [Tree.valueMembers?, Option.some.injEq, List.forall₂_nil_left_iff, eq_comm]
  | (key, t) :: members, short, values => by
    have first := value?_eq_some_iff reads t (Nat.lt_of_le_of_lt (Nat.le_max_left _ _) short)
    have others := valueMembers?_eq_some_iff reads members
      (Nat.lt_of_le_of_lt (Nat.le_max_right _ _) short)
    rw [Tree.valueMembers?, List.forall₂_cons_left_iff]
    simp only [meansMember_iff, ← first, ← others]
    cases spell key with
    | none => simp
    | some name =>
      cases t.value? embedded with
      | none => simp
      | some v =>
        cases Tree.valueMembers? embedded members with
        | none => simp
        | some vs =>
          constructor
          · rintro ⟨⟩
            exact ⟨_, vs, ⟨congrArg some String.toList_ofList.symm, rfl⟩, rfl, rfl⟩
          · rintro ⟨⟨name, v⟩, vs, ⟨⟨⟩, ⟨⟩⟩, ⟨⟩, rfl⟩
            exact congrArg (fun name => some ((name, v) :: vs)) String.ofList_toList

end

/-- The value of a text is what the text denotes: no allowance beyond its length is needed. -/
theorem readWithin_eq_some_iff {allowance : Nat} {s : List Char} (enough : s.length < allowance)
    (v : Value) : readWithin allowance s = some v ↔ Denotes s v := by
  induction allowance generalizing s v with
  | zero => exact absurd enough (Nat.not_lt_zero _)
  | succ allowance ih =>
    have inner : ∀ t : Tree, WritesAlone Writes s t →
        (t.value? (readWithin allowance) = some v ↔ Means t v) := by
      rintro t ⟨b, source, b', rfl, -, writes, -⟩
      have shorter := longest_lt t writes
      refine value?_eq_some_iff (n := allowance) (fun s short v => ih short v) t ?_ v
      simp only [List.length_append] at enough
      omega
    rw [readWithin, Denotes]
    cases read : document s with
    | none =>
      refine iff_of_false nofun ?_
      rintro ⟨t, writes, -⟩
      rw [document_eq_some_iff.mpr writes] at read
      cases read
    | some t =>
      have writes := document_eq_some_iff.mp read
      dsimp only
      split
      next shallow =>
        rw [inner t writes]
        constructor
        · exact fun means => ⟨t, writes, shallow, means⟩
        · rintro ⟨t', writes', -, means⟩
          cases Option.some.inj (read.symm.trans (document_eq_some_iff.mpr writes'))
          exact means
      next deep =>
        refine iff_of_false nofun ?_
        rintro ⟨t', writes', shallow, -⟩
        cases Option.some.inj (read.symm.trans (document_eq_some_iff.mpr writes'))
        exact deep shallow

theorem read?_eq_some_iff {s : List Char} {v : Value} : read? s = some v ↔ Denotes s v :=
  readWithin_eq_some_iff (Nat.lt_succ_self _) v

theorem members?_eq_some_iff {t : Tree} {values : List (String × Value)} :
    t.members? = some values ↔ ∃ members, t = .object members ∧ t.depth ≤ maxDepth ∧
      List.Forall₂ (MeansMember Means) members values := by
  cases t with
  | object members =>
    have each := valueMembers?_eq_some_iff (fun _ _ _ => read?_eq_some_iff) members
      (Nat.lt_succ_self _) values
    rw [Tree.members?, Option.ite_none_right_eq_some, each]
    constructor
    · exact fun ⟨shallow, means⟩ => ⟨members, rfl, shallow, means⟩
    · rintro ⟨_, ⟨⟩, shallow, means⟩
      exact ⟨shallow, means⟩
  | _ => exact iff_of_false nofun (by rintro ⟨_, ⟨⟩, -⟩)

end Values

theorem find?_reverse_eq_some_iff {α : Type} {p : α → Bool} {l : List α} {a : α} :
    l.reverse.find? p = some a ↔
      p a = true ∧ ∃ before after, l = before ++ a :: after ∧ ∀ b ∈ after, ¬ p b = true := by
  have turned : ∀ before after, l.reverse = before ++ a :: after ↔
      l = after.reverse ++ a :: before.reverse := by
    intro before after
    rw [List.reverse_eq_iff, List.reverse_append, List.reverse_cons, List.append_assoc,
      List.singleton_append]
  rw [List.find?_eq_some_iff_append]
  refine and_congr_right fun _ => ?_
  constructor
  · rintro ⟨after, before, whole, others⟩
    refine ⟨before.reverse, after.reverse, (turned after before).mp whole, fun b member => ?_⟩
    have other := others b (List.mem_reverse.mp member)
    rwa [Bool.not_eq_true', ← Bool.not_eq_true] at other
  · rintro ⟨before, after, rfl, others⟩
    refine ⟨after.reverse, before.reverse, by simp, fun b member => ?_⟩
    rw [Bool.not_eq_true', ← Bool.not_eq_true]
    exact others b (List.mem_reverse.mp member)

theorem Value.member?_eq_some_iff {members : List (String × Value)} {name : String} {v : Value} :
    Value.member? members name = some v ↔
      ∃ before after, members = before ++ (name, v) :: after ∧ ∀ m ∈ after, m.1 ≠ name := by
  rw [Value.member?, Option.map_eq_some_iff]
  simp only [find?_reverse_eq_some_iff, beq_iff_eq]
  constructor
  · rintro ⟨⟨_, v⟩, ⟨rfl, found⟩, rfl⟩
    exact found
  · exact fun found => ⟨(name, v), ⟨rfl, found⟩, rfl⟩

/-! ### Documents without the reserved name -/

mutual

/-- A document in which no object begins with the reserved name means something exactly if it is
legible. -/
theorem exists_means_iff : (t : Tree) → t.reserves = false → ((∃ v, Means t v) ↔ t.legible = true)
  | .null, _ => iff_of_true ⟨_, .null⟩ rfl
  | .bool b, _ => iff_of_true ⟨_, .bool b⟩ rfl
  | .number n, _ => by
    constructor
    · rintro ⟨_, ⟨⟩⟩
      assumption
    · exact fun finite => ⟨_, .number finite⟩
  | .string s, _ => by
    rw [Tree.legible, Option.isSome_iff_exists]
    constructor
    · rintro ⟨_, ⟨⟩⟩
      exact ⟨_, ‹_›⟩
    · rintro ⟨cs, spelled⟩
      exact ⟨.string (String.ofList cs), .string (by rwa [String.toList_ofList])⟩
  | .array items, plain => by
    rw [Tree.legible, ← exists_meansItems_iff items plain]
    constructor
    · rintro ⟨_, ⟨⟩⟩
      exact ⟨_, ‹_›⟩
    · exact fun ⟨values, each⟩ => ⟨_, .array each⟩
  | .object members, plain => by
    obtain ⟨unreserved, plain⟩ := Bool.or_eq_false_iff.mp plain
    rw [Tree.legible, ← exists_meansMembers_iff members plain]
    constructor
    · rintro ⟨v, means⟩
      cases means with
      | object _ each => exact ⟨_, each⟩
      | embedded reserved _ _ _ _ => exact absurd (decide_eq_true reserved) (Bool.eq_false_iff.mp unreserved)
    · exact fun ⟨values, each⟩ => ⟨_, .object unreserved each⟩

private theorem exists_meansItems_iff : (items : List Tree) → Tree.reservesItems items = false →
    ((∃ values, List.Forall₂ Means items values) ↔ Tree.legibleItems items = true)
  | [], _ => iff_of_true ⟨[], .nil⟩ rfl
  | t :: items, plain => by
    obtain ⟨first, others⟩ := Bool.or_eq_false_iff.mp plain
    rw [Tree.legibleItems, Bool.and_eq_true, ← exists_means_iff t first,
      ← exists_meansItems_iff items others]
    constructor
    · rintro ⟨_, each⟩
      cases each with
      | cons here later => exact ⟨⟨_, here⟩, _, later⟩
    · exact fun ⟨⟨v, here⟩, values, later⟩ => ⟨v :: values, .cons here later⟩

theorem exists_meansMembers_iff : (members : List (List Piece × Tree)) →
    Tree.reservesMembers members = false →
    ((∃ values, List.Forall₂ (MeansMember Means) members values) ↔ Tree.legibleMembers members = true)
  | [], _ => iff_of_true ⟨[], .nil⟩ rfl
  | (key, t) :: members, plain => by
    obtain ⟨first, others⟩ := Bool.or_eq_false_iff.mp plain
    rw [Tree.legibleMembers, Bool.and_eq_true, Bool.and_eq_true, Option.isSome_iff_exists,
      ← exists_means_iff t first, ← exists_meansMembers_iff members others]
    constructor
    · rintro ⟨_, each⟩
      cases each with
      | cons here later =>
        obtain ⟨spelled, value⟩ := here
        exact ⟨⟨_, spelled⟩, ⟨_, value⟩, _, later⟩
    · rintro ⟨⟨name, spelled⟩, ⟨v, value⟩, values, later⟩
      exact ⟨(String.ofList name, v) :: values, .cons ⟨by rwa [String.toList_ofList], value⟩ later⟩

end

end MarketFeed.Json
