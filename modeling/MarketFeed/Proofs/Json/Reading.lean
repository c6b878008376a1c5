import MarketFeed.Proofs.Json.Leaves
import Mathlib.Tactic.SplitIfs
/-!
Reading documents is reading by the grammar. For each reader two facts are carried along: what it
takes from the front of a text writes what it reads, and every text that writes something and does
not go on as a number would is taken. The second one needs the allowance of the reader to be at least
the length of what it takes; the whole text is always enough.
-/

set_option autoImplicit false
set_option relaxedAutoImplicit false

namespace MarketFeed.Json

section Readers

variable {α : Type} {item : Reader α} {Item : List Char → α → Prop}

/-- What the reader takes from a text writes what it reads. -/
def Sound (item : Reader α) (Item : List Char → α → Prop) : Prop :=
  ∀ s a rest, item s = some (a, rest) → ∃ source, s = source ++ rest ∧ Item source a

/-- The reader takes every text that is not too long and that writes something. -/
def Complete (bound : Nat) (item : Reader α) (Item : List Char → α → Prop) : Prop :=
  ∀ source a rest, Item source a → source.length ≤ bound → Stops inNumber rest →
    item (source ++ rest) = some (a, rest)

/-- What is written begins neither with a blank nor with a closing bracket. -/
def Opens (Item : List Char → α → Prop) : Prop :=
  ∀ source a, Item source a → ∃ c t, source = c :: t ∧ isSpace c = false ∧ c ≠ ']' ∧ c ≠ '\x7d'

theorem Blank.stops {b : List Char} (blank : Blank b) : Stops inNumber b := by
  intro c first
  have listed := blank c (List.mem_of_head? first)
  simp only [List.mem_cons, List.not_mem_nil, or_false] at listed
  rcases listed with rfl | rfl | rfl | rfl <;> rfl

theorem stops_behind {b : List Char} {c : Char} (blank : Blank b) (other : inNumber c = false)
    (t : List Char) : Stops inNumber (b ++ c :: t) := by
  cases b with
  | nil =>
    rintro _ ⟨⟩
    exact other
  | cons space b => exact fun c' first => blank.stops c' first

theorem Blank.append {b b' : List Char} (blank : Blank b) (blank' : Blank b') : Blank (b ++ b') :=
  fun c member => (List.mem_append.mp member).elim (blank c) (blank' c)

theorem WritesAlone.append {s b : List Char} {a : α} (writes : WritesAlone Item s a)
    (blank : Blank b) : WritesAlone Item (s ++ b) a := by
  obtain ⟨before, source, behind, rfl, blank₁, here, blank₂⟩ := writes
  exact ⟨before, source, behind ++ b, List.append_assoc _ _ _, blank₁, here, blank₂.append blank⟩

theorem WritesRow.behind_blank {b r : List Char} {as : List α} (blank : Blank b)
    (row : WritesRow Item r as) : WritesRow Item (b ++ r) as := by
  cases row with
  | last before here behind =>
    rw [← List.append_assoc, ← List.append_assoc]
    exact .last (blank.append before) here behind
  | cons before here behind later =>
    rw [← List.append_assoc, ← List.append_assoc, ← List.append_assoc]
    exact .cons (blank.append before) here behind later

/-! ### Rows -/

theorem readSequence_sound (sound : Sound item Item) {close : Char} {allowance : Nat}
    {acc as : List α} {s rest : List Char}
    (read : readSequence close item allowance acc s = some (as, rest)) :
    ∃ r as', s = r ++ close :: rest ∧ WritesRow Item r as' ∧ as = acc.reverse ++ as' := by
  induction allowance generalizing acc s with
  | zero => cases read
  | succ allowance ih =>
    rw [readSequence] at read
    split at read
    · cases read
    · rename_i a s₁ taken
      obtain ⟨b, before, start⟩ := exists_skipSpace s
      obtain ⟨b', behind, onward⟩ := exists_skipSpace s₁
      obtain ⟨source, whole, writes⟩ := sound _ a s₁ taken
      split at read
      · cases read
      · rename_i c rest' next
        rw [next] at onward
        rw [whole, onward] at start
        split at read
        · rename_i comma
          cases beq_iff_eq.mp comma
          obtain ⟨r, as', rfl, later, rfl⟩ := ih read
          refine ⟨b ++ source ++ b' ++ ',' :: r, a :: as', ?_, .cons before writes behind later, ?_⟩
          · rw [start]
            simp only [List.append_assoc, List.cons_append]
          · rw [List.reverse_cons, List.append_assoc]
            rfl
        · split at read
          · rename_i closed
            cases beq_iff_eq.mp closed
            cases read
            refine ⟨b ++ source ++ b', [a], ?_, .last before writes behind, List.reverse_cons⟩
            rw [start]
            simp only [List.append_assoc]
          · cases read

theorem readBracketed_sound (sound : Sound item Item) (opening : Char) {close : Char}
    {as : List α} {s rest : List Char} (read : readBracketed close item s = some (as, rest)) :
    ∃ source, opening :: s = source ++ rest ∧ WritesBracketed Item opening close source as := by
  rw [readBracketed] at read
  obtain ⟨b, before, start⟩ := exists_skipSpace s
  split at read
  · cases read
  · rename_i c rest' next
    rw [next] at start
    split at read
    · rename_i closed
      cases beq_iff_eq.mp closed
      cases read
      refine ⟨opening :: b ++ [close], ?_, .empty before⟩
      rw [start]
      simp only [List.cons_append, List.append_assoc, List.nil_append]
    · obtain ⟨r, as', whole, row, rfl⟩ := readSequence_sound sound read
      refine ⟨opening :: (b ++ r) ++ [close], ?_, .row (row.behind_blank before)⟩
      rw [start, whole]
      simp only [List.cons_append, List.append_assoc, List.nil_append]

theorem readMember_sound (sound : Sound item Item) :
    Sound (readMember item) (WritesMember Item) := by
  intro s a rest read
  rw [readMember.eq_def] at read
  split at read
  · rename_i s
    split at read
    · cases read
    · rename_i key s₁ name
      obtain ⟨k, ps, rfl, pieces, same⟩ := readPieces_sound name
      cases same
      obtain ⟨b, before, start⟩ := exists_skipSpace s₁
      split at read
      · rename_i s₂ colon
        obtain ⟨⟨value, rest'⟩, taken, same⟩ := Option.map_eq_some_iff.mp read
        cases same
        obtain ⟨b', behind, start'⟩ := exists_skipSpace s₂
        obtain ⟨source, whole, writes⟩ := sound _ _ _ taken
        refine ⟨'"' :: k ++ '"' :: b ++ ':' :: b' ++ source, ?_, .mk pieces before behind writes⟩
        rw [start, colon, start', whole]
        simp only [List.cons_append, List.append_assoc]
      · cases read
  · cases read

/-! ### Completeness of rows -/

theorem WritesRow.length_le (opens : Opens Item) {r : List Char} {as : List α}
    (row : WritesRow Item r as) : as.length ≤ r.length := by
  induction row with
  | last before here behind =>
    obtain ⟨c, t, rfl, -⟩ := opens _ _ here
    simp only [List.length_append, List.length_cons, List.length_nil]
    omega
  | cons before here behind later ih =>
    simp only [List.length_append, List.length_cons]
    omega

theorem WritesRow.start (opens : Opens Item) {r : List Char} {as : List α}
    (row : WritesRow Item r as) :
    ∃ b c t, r = b ++ c :: t ∧ Blank b ∧ isSpace c = false ∧ (c ≠ ']' ∧ c ≠ '\x7d') ∧
      WritesRow Item (c :: t) as := by
  have none : Blank [] := nofun
  cases row with
  | @last b s b' a before here behind =>
    obtain ⟨c, t, rfl, solid, other⟩ := opens _ _ here
    refine ⟨b, c, t ++ b', ?_, before, solid, other, .last none here behind⟩
    rw [List.append_assoc, List.cons_append]
  | @cons b s b' r a as before here behind later =>
    obtain ⟨c, t, rfl, solid, other⟩ := opens _ _ here
    refine ⟨b, c, t ++ b' ++ ',' :: r, ?_, before, solid, other, .cons none here behind later⟩
    rw [List.append_assoc _ b', List.append_assoc b, List.cons_append, List.append_assoc t]

theorem skipSpace_item (opens : Opens Item) {b source : List Char} {a : α} (blank : Blank b)
    (here : Item source a) (t : List Char) : skipSpace (b ++ source ++ t) = source ++ t := by
  obtain ⟨c, source, rfl, solid, -⟩ := opens _ _ here
  rw [List.append_assoc, skipSpace_blank blank]
  exact skipSpace_cons solid _

theorem readSequence_complete {bound : Nat} (complete : Complete bound item Item)
    (opens : Opens Item) {close : Char} (closing : close = ']' ∨ close = '\x7d') {r : List Char}
    {as : List α} (row : WritesRow Item r as) {allowance : Nat} (enough : as.length ≤ allowance)
    (short : r.length ≤ bound) (acc : List α) (rest : List Char) :
    readSequence close item allowance acc (r ++ close :: rest) = some (acc.reverse ++ as, rest) := by
  induction row generalizing allowance acc with
  | @last b s b' a before here behind =>
    obtain ⟨allowance, rfl⟩ : ∃ n, allowance = n + 1 := ⟨allowance - 1, by simp at enough; omega⟩
    have outside : inNumber close = false ∧ isSpace close = false ∧ (close == ',') = false := by
      rcases closing with rfl | rfl <;> decide
    have taken : item (s ++ (b' ++ close :: rest)) = some (a, b' ++ close :: rest) := by
      refine complete s a _ here ?_ (stops_behind behind outside.1 rest)
      simp only [List.length_append] at short
      omega
    have skipped : skipSpace (b ++ s ++ b' ++ close :: rest) = s ++ (b' ++ close :: rest) := by
      rw [List.append_assoc _ b']
      exact skipSpace_item opens before here _
    rw [readSequence, skipped, taken]
    simp only [skipSpace_blank behind, skipSpace_cons outside.2.1, outside.2.2, beq_self_eq_true,
      List.reverse_cons]
    rfl
  | @cons b s b' r a as before here behind later ih =>
    obtain ⟨allowance, rfl⟩ : ∃ n, allowance = n + 1 := ⟨allowance - 1, by simp at enough; omega⟩
    have taken : item (s ++ (b' ++ ',' :: (r ++ close :: rest))) =
        some (a, b' ++ ',' :: (r ++ close :: rest)) := by
      refine complete s a _ here ?_ (stops_behind behind (by decide) _)
      simp only [List.length_append] at short
      omega
    have skipped : skipSpace (b ++ s ++ b' ++ ',' :: r ++ close :: rest) =
        s ++ (b' ++ ',' :: (r ++ close :: rest)) := by
      rw [List.append_assoc _ (',' :: r), List.append_assoc _ b']
      exact skipSpace_item opens before here _
    have onward := ih (Nat.le_of_succ_le_succ enough)
      (by simp only [List.length_append, List.length_cons] at short; omega) (a :: acc)
    rw [readSequence, skipped, taken]
    simp only [skipSpace_blank behind, skipSpace_cons (c := ',') (by decide), beq_self_eq_true,
      if_true, onward, List.reverse_cons, List.append_assoc, List.singleton_append]

theorem readBracketed_complete {bound : Nat} (complete : Complete bound item Item)
    (opens : Opens Item) {opening close : Char} (closing : close = ']' ∨ close = '\x7d')
    {source : List Char} {as : List α} (writes : WritesBracketed Item opening close source as)
    (short : source.length ≤ bound + 1) (rest : List Char) :
    ∃ s, source = opening :: s ∧ readBracketed close item (s ++ rest) = some (as, rest) := by
  cases writes with
  | @empty b blank =>
    have solid : isSpace close = false := by rcases closing with rfl | rfl <;> decide
    refine ⟨b ++ [close], rfl, ?_⟩
    rw [readBracketed, List.append_assoc, skipSpace_blank blank, List.singleton_append,
      skipSpace_cons solid]
    simp only [beq_self_eq_true, if_true]
  | @row r as row =>
    refine ⟨r ++ [close], rfl, ?_⟩
    -- the blanks before the first element are skipped once, so what is left is still a row
    obtain ⟨b, c, t, rfl, blank, solid, other, row⟩ := row.start opens
    have unclosed : (c == close) = false := by
      rcases closing with rfl | rfl
      · exact beq_eq_false_iff_ne.mpr other.1
      · exact beq_eq_false_iff_ne.mpr other.2
    have within : (c :: t).length ≤ bound := by
      simp only [List.length_append, List.length_cons] at short ⊢
      omega
    have enough : as.length ≤ (t ++ close :: rest).length + 1 := by
      refine Nat.le_trans (row.length_le opens) ?_
      simp only [List.length_append, List.length_cons]
      omega
    have read := readSequence_complete complete opens closing row enough within [] rest
    have skipped : skipSpace (b ++ c :: t ++ [close] ++ rest) = c :: (t ++ close :: rest) := by
      simp only [List.append_assoc, List.nil_append, skipSpace_blank blank, List.cons_append,
        skipSpace_cons solid]
    rw [readBracketed, skipped]
    simp only [unclosed]
    exact read

theorem opens_member : Opens (WritesMember Item) := by
  rintro _ _ ⟨name, before, behind, value⟩
  exact ⟨'"', _, rfl, by decide⟩

theorem readMember_complete {bound : Nat} (complete : Complete bound item Item)
    (opens : Opens Item) : Complete bound (readMember item) (WritesMember Item) := by
  rintro _ _ rest @⟨k, b, b', s, key, a, name, before, behind, value⟩ short stops
  have taken : item (s ++ rest) = some (a, rest) := by
    refine complete s a rest value ?_ stops
    simp only [List.length_append] at short
    omega
  have skipped : skipSpace (b' ++ s ++ rest) = s ++ rest := skipSpace_item opens behind value rest
  have whole : '"' :: k ++ '"' :: b ++ ':' :: b' ++ s ++ rest =
      '"' :: (k ++ '"' :: (b ++ ':' :: (b' ++ s ++ rest))) := by
    simp only [List.cons_append, List.append_assoc]
  rw [whole, readMember, readPieces_complete name]
  simp only [skipSpace_blank before, skipSpace_cons (c := ':') (by decide), skipped, taken]
  rfl

end Readers

/-! ### Values -/

theorem readWord_sound {α : Type} {word s rest : List Char} {a b : α}
    (read : readWord word a s = some (b, rest)) : b = a ∧ s = word ++ rest := by
  rw [readWord] at read
  split at read
  · rename_i begins
    cases read
    exact ⟨rfl, List.prefix_iff_eq_append.mp (List.isPrefixOf_iff_prefix.mp begins) |>.symm⟩
  · cases read

theorem readWord_complete {α : Type} (word : List Char) (a : α) (rest : List Char) :
    readWord word a (word ++ rest) = some (a, rest) := by
  have begins : word.isPrefixOf (word ++ rest) = true :=
    List.isPrefixOf_iff_prefix.mpr (List.prefix_append _ _)
  rw [readWord, if_pos begins, List.drop_left]

theorem digit_facts {c : Char} (digit : '0' ≤ c ∧ c ≤ '9') :
    isSpace c = false ∧ c ∉ ['"', '[', ']', '\x7b', '\x7d', 'n', 't', 'f'] := by
  constructor
  · rw [Bool.eq_false_iff]
    intro space
    have listed := (isSpace_iff c).mp space
    simp only [List.mem_cons, List.not_mem_nil, or_false] at listed
    rcases listed with rfl | rfl | rfl | rfl <;> exact absurd digit (by decide)
  · intro listed
    simp only [List.mem_cons, List.not_mem_nil, or_false] at listed
    rcases listed with rfl | rfl | rfl | rfl | rfl | rfl | rfl | rfl <;> exact absurd digit (by decide)

theorem Whole.starts {ds : List Char} (whole : Whole ds) :
    ∃ c t, ds = c :: t ∧ '0' ≤ c ∧ c ≤ '9' := by
  rcases whole with rfl | ⟨⟨some, all⟩, -⟩
  · exact ⟨'0', [], rfl, by decide⟩
  · cases ds with
    | nil => exact absurd rfl some
    | cons c t => exact ⟨c, t, rfl, all c List.mem_cons_self⟩

theorem WritesNumeral.starts {s : List Char} {n : Numeral} (writes : WritesNumeral s n) :
    ∃ c t, s = c :: t ∧ isSpace c = false ∧ c ∉ ['"', '[', ']', '\x7b', '\x7d', 'n', 't', 'f'] := by
  obtain @⟨negative, whole, f, x, -, -, before, -, -⟩ := writes
  cases negative with
  | true => exact ⟨'-', _, rfl, by decide⟩
  | false =>
    obtain ⟨c, t, rfl, digit⟩ := before.starts
    exact ⟨c, t ++ f ++ x, rfl, digit_facts digit⟩

theorem WritesBracketed.starts {α : Type} {Item : List Char → α → Prop} {opening close : Char}
    {source : List Char} {as : List α} (writes : WritesBracketed Item opening close source as) :
    ∃ t, source = opening :: t := by
  cases writes with
  | empty _ => exact ⟨_, rfl⟩
  | row _ => exact ⟨_, rfl⟩

theorem opens_value : Opens Writes := by
  intro source t writes
  cases writes with
  | null => exact ⟨_, _, rfl, by decide⟩
  | yes => exact ⟨_, _, rfl, by decide⟩
  | no => exact ⟨_, _, rfl, by decide⟩
  | number numeral =>
    obtain ⟨c, t, rfl, solid, other⟩ := numeral.starts
    simp only [List.mem_cons, List.not_mem_nil, or_false, not_or] at other
    exact ⟨c, t, rfl, solid, other.2.2.1, other.2.2.2.2.1⟩
  | string _ => exact ⟨_, _, rfl, by decide⟩
  | array list =>
    obtain ⟨t, rfl⟩ := list.starts
    exact ⟨_, _, rfl, by decide⟩
  | object list =>
    obtain ⟨t, rfl⟩ := list.starts
    exact ⟨_, _, rfl, by decide⟩

theorem readTree_sound (allowance : Nat) : Sound (readTree allowance) Writes := by
  induction allowance with
  | zero => nofun
  | succ allowance ih =>
    intro s t rest read
    cases s with
    | nil => cases read
    | cons c s =>
      rw [readTree] at read
      split_ifs at read with quote bracket brace none yes no
      · cases beq_iff_eq.mp quote
        obtain ⟨⟨ps, rest'⟩, pieces, same⟩ := Option.map_eq_some_iff.mp read
        cases same
        obtain ⟨k, ps', rfl, writes, same⟩ := readPieces_sound pieces
        cases same
        refine ⟨'"' :: k ++ ['"'], ?_, .string writes⟩
        simp only [List.cons_append, List.append_assoc, List.nil_append]
      · cases beq_iff_eq.mp bracket
        obtain ⟨⟨items, rest'⟩, list, same⟩ := Option.map_eq_some_iff.mp read
        cases same
        obtain ⟨source, whole, writes⟩ := readBracketed_sound ih '[' list
        exact ⟨source, whole, .array writes⟩
      · cases beq_iff_eq.mp brace
        obtain ⟨⟨members, rest'⟩, list, same⟩ := Option.map_eq_some_iff.mp read
        cases same
        obtain ⟨source, whole, writes⟩ := readBracketed_sound (readMember_sound ih) '\x7b' list
        exact ⟨source, whole, .object writes⟩
      · cases beq_iff_eq.mp none
        obtain ⟨rfl, rfl⟩ := readWord_sound read
        exact ⟨_, rfl, .null⟩
      · cases beq_iff_eq.mp yes
        obtain ⟨rfl, rfl⟩ := readWord_sound read
        exact ⟨_, rfl, .yes⟩
      · cases beq_iff_eq.mp no
        obtain ⟨rfl, rfl⟩ := readWord_sound read
        exact ⟨_, rfl, .no⟩
      · obtain ⟨⟨n, rest'⟩, numeral, same⟩ := Option.map_eq_some_iff.mp read
        cases same
        obtain ⟨source, whole, writes⟩ := readNumeral_sound numeral
        exact ⟨source, whole, .number writes⟩

theorem readTree_complete (allowance : Nat) : Complete allowance (readTree allowance) Writes := by
  induction allowance with
  | zero =>
    intro source t rest writes short
    obtain ⟨c, source, rfl, -⟩ := opens_value _ _ writes
    exact absurd short (Nat.not_succ_le_zero _)
  | succ allowance ih =>
    intro source t rest writes short stops
    cases writes with
    | null => exact readWord_complete ['u', 'l', 'l'] Tree.null rest
    | yes => exact readWord_complete ['r', 'u', 'e'] (Tree.bool true) rest
    | no => exact readWord_complete ['a', 'l', 's', 'e'] (Tree.bool false) rest
    | number numeral =>
      obtain ⟨c, t, rfl, -, other⟩ := numeral.starts
      -- a number is tried last: its first character begins no other value
      have read := readNumeral_complete numeral stops
      simp only [List.mem_cons, List.not_mem_nil, or_false, not_or] at other
      rw [List.cons_append] at read ⊢
      rw [readTree]
      simp only [beq_iff_eq, other, if_false, read]
      rfl
    | @string k ps pieces =>
      have read := readPieces_complete pieces [] rest
      have whole : '"' :: k ++ ['"'] ++ rest = '"' :: (k ++ '"' :: rest) := by
        simp only [List.cons_append, List.append_assoc, List.nil_append]
      rw [whole, readTree]
      simp only [beq_self_eq_true, if_true, read]
      rfl
    | array list =>
      obtain ⟨s, rfl, read⟩ := readBracketed_complete ih opens_value (.inl rfl) list short rest
      show (readBracketed ']' (readTree allowance) (s ++ rest)).map _ = _
      rw [read]
      rfl
    | object list =>
      obtain ⟨s, rfl, read⟩ := readBracketed_complete (readMember_complete ih opens_value)
        opens_member (.inr rfl) list short rest
      show (readBracketed '\x7d' (readMember (readTree allowance)) (s ++ rest)).map _ = _
      rw [read]
      rfl

theorem readValue_sound : Sound readValue Writes := fun s => readTree_sound (s.length + 1) s

theorem readValue_complete (bound : Nat) : Complete bound readValue Writes := by
  intro source t rest writes _ stops
  refine readTree_complete _ source t rest writes ?_ stops
  rw [List.length_append]
  omega

theorem opens_source : Opens WritesSource := fun _ a writes => opens_value _ a.1 writes.1

theorem readSource_sound : Sound readSource WritesSource := by
  intro s a rest read
  obtain ⟨⟨t, rest'⟩, value, same⟩ := Option.map_eq_some_iff.mp read
  cases same
  obtain ⟨source, rfl, writes⟩ := readValue_sound _ _ _ value
  refine ⟨source, rfl, writes, ?_⟩
  rw [List.length_append, Nat.add_sub_cancel, List.take_left]

theorem readSource_complete (bound : Nat) : Complete bound readSource WritesSource := by
  rintro source ⟨t, _⟩ rest ⟨writes, rfl⟩ short stops
  rw [readSource, readValue_complete bound _ _ rest writes short stops]
  simp only [Option.map_some, List.length_append, Nat.add_sub_cancel, List.take_left]

/-! ### Whole texts -/

theorem skipSpace_eq_nil_iff {s : List Char} : skipSpace s = [] ↔ Blank s := by
  constructor
  · intro none
    obtain ⟨b, blank, whole⟩ := exists_skipSpace s
    rw [none, List.append_nil] at whole
    rwa [whole]
  · intro blank
    have skipped := skipSpace_blank blank []
    rwa [List.append_nil] at skipped

/-- A reader that takes what it should makes of a whole text what this writes. -/
theorem readAll_eq_some_iff {α : Type} {item : Reader α} {Item : List Char → α → Prop}
    (sound : Sound item Item) (complete : ∀ bound, Complete bound item Item) (opens : Opens Item)
    {s : List Char} {a : α} : readAll item s = some a ↔ WritesAlone Item s a := by
  constructor
  · intro read
    rw [readAll] at read
    split at read
    · rename_i a' rest taken
      split at read
      · rename_i ended
        cases read
        obtain ⟨b, before, start⟩ := exists_skipSpace s
        obtain ⟨source, whole, writes⟩ := sound _ _ _ taken
        refine ⟨b, source, rest, ?_, before, writes,
          skipSpace_eq_nil_iff.mp (List.isEmpty_iff.mp ended)⟩
        rw [start, whole, List.append_assoc]
      · cases read
    · cases read
  · rintro ⟨b, source, b', rfl, before, writes, behind⟩
    rw [readAll, skipSpace_item opens before writes,
      complete source.length source a b' writes (Nat.le_refl _) behind.stops]
    simp only [skipSpace_eq_nil_iff.mpr behind]
    rfl

section Bracketed

variable {α : Type} {item : Reader α} {Item : List Char → α → Prop} {opening close : Char}

private def readOpened (opening close : Char) (item : Reader α) : Reader (List α) := fun s =>
  match s with
  | c :: s => if c == opening then readBracketed close item s else none
  | [] => none

private theorem readOpened_sound (sound : Sound item Item) :
    Sound (readOpened opening close item) (WritesBracketed Item opening close) := by
  intro s as rest read
  cases s with
  | nil => cases read
  | cons c s =>
    rw [readOpened] at read
    split at read
    · rename_i opened
      cases beq_iff_eq.mp opened
      exact readBracketed_sound sound _ read
    · cases read

private theorem readOpened_complete (complete : ∀ bound, Complete bound item Item)
    (opens : Opens Item) (closing : close = ']' ∨ close = '\x7d') {source : List Char} {as : List α}
    (writes : WritesBracketed Item opening close source as) (rest : List Char) :
    readOpened opening close item (source ++ rest) = some (as, rest) := by
  obtain ⟨s, rfl, read⟩ := readBracketed_complete (complete source.length) opens closing writes
    (Nat.le_succ _) rest
  rw [List.cons_append, readOpened, beq_self_eq_true, if_pos rfl, read]

theorem opens_bracketed (solid : isSpace opening = false ∧ opening ≠ ']' ∧ opening ≠ '\x7d') :
    Opens (WritesBracketed Item opening close) := by
  intro source as writes
  obtain ⟨t, rfl⟩ := writes.starts
  exact ⟨opening, t, rfl, solid⟩

private theorem readAll_opened (sound : Sound item Item)
    (complete : ∀ bound, Complete bound item Item) (opens : Opens Item)
    (solid : isSpace opening = false ∧ opening ≠ ']' ∧ opening ≠ '\x7d')
    (closing : close = ']' ∨ close = '\x7d') {s : List Char} {as : List α} :
    readAll (readOpened opening close item) s = some as ↔
      WritesAlone (WritesBracketed Item opening close) s as :=
  readAll_eq_some_iff (readOpened_sound sound)
    (fun _ _ _ rest writes _ _ => readOpened_complete complete opens closing writes rest)
    (opens_bracketed solid)

private theorem blank_of_opened (sound : Sound item Item)
    (complete : ∀ bound, Complete bound item Item) (opens : Opens Item)
    (solid : isSpace opening = false ∧ opening ≠ ']' ∧ opening ≠ '\x7d')
    (closing : close = ']' ∨ close = '\x7d') {s more : List Char} {as as' : List α}
    (whole : WritesAlone (WritesBracketed Item opening close) s as)
    (longer : WritesAlone (WritesBracketed Item opening close) (s ++ more) as') : Blank more := by
  obtain ⟨b, source, b', rfl, before, writes, behind⟩ := whole
  have read := (readAll_opened sound complete opens solid closing).mpr longer
  rw [readAll, List.append_assoc, skipSpace_item (opens_bracketed solid) before writes,
    readOpened_complete complete opens closing writes] at read
  dsimp only at read
  rw [skipSpace_blank behind] at read
  split at read
  · rename_i ended
    exact skipSpace_eq_nil_iff.mp (List.isEmpty_iff.mp ended)
  · cases read

end Bracketed

private theorem readMemberSource_complete (bound : Nat) :
    Complete bound (readMember readSource) (WritesMember WritesSource) :=
  readMember_complete (readSource_complete bound) opens_source

theorem sourceMembers_eq_some_iff {s : List Char}
    {members : List (List Piece × Tree × List Char)} :
    sourceMembers s = some members ↔ WritesAlone WritesObject s members :=
  readAll_opened (readMember_sound readSource_sound) readMemberSource_complete opens_member
    (by decide) (.inr rfl)

theorem sourceItems_eq_some_iff {s : List Char} {items : List (Tree × List Char)} :
    sourceItems s = some items ↔ WritesAlone WritesArray s items :=
  readAll_opened readSource_sound readSource_complete opens_source (by decide) (.inl rfl)

theorem blank_of_object {s more : List Char} {members members' : List (List Piece × Tree × List Char)}
    (whole : WritesAlone WritesObject s members)
    (longer : WritesAlone WritesObject (s ++ more) members') : Blank more :=
  blank_of_opened (readMember_sound readSource_sound) readMemberSource_complete opens_member
    (by decide) (.inr rfl) whole longer

theorem blank_of_array {s more : List Char} {items items' : List (Tree × List Char)}
    (whole : WritesAlone WritesArray s items)
    (longer : WritesAlone WritesArray (s ++ more) items') : Blank more :=
  blank_of_opened readSource_sound readSource_complete opens_source (by decide) (.inl rfl) whole
    longer

end MarketFeed.Json
