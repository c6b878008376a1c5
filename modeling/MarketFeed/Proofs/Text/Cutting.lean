import MarketFeed.Text.Search
/-!
Cutting a text at a character. The parts do not have the character, and joined with it they are the
text again; what stands in front of the text without having the character belongs to the first part.
-/

set_option autoImplicit false
set_option relaxedAutoImplicit false

namespace MarketFeed.Text

variable {sep : Char} {front s : List Char}

/-! ### At the first separator -/

theorem splitOnce_append (off : sep ∉ front) (s : List Char) :
    splitOnce sep (front ++ s) = (splitOnce sep s).map fun parts => (front ++ parts.1, parts.2) := by
  induction front with
  | nil => simp
  | cons c rest ih =>
    rw [List.mem_cons, not_or] at off
    obtain ⟨other, off⟩ := off
    rw [List.cons_append, splitOnce, if_neg (Ne.symm other), ih off, Option.map_map]
    rfl

theorem splitOnce_eq_some_iff {front back : List Char} :
    splitOnce sep s = some (front, back) ↔ s = front ++ sep :: back ∧ sep ∉ front := by
  constructor
  · intro cut
    induction s generalizing front with
    | nil => cases cut
    | cons c s ih =>
      rw [splitOnce] at cut
      split at cut
      · rename_i here
        cases cut
        exact ⟨by rw [here, List.nil_append], List.not_mem_nil⟩
      · rename_i other
        rw [Option.map_eq_some_iff] at cut
        obtain ⟨⟨front', back'⟩, cut', same⟩ := cut
        cases same
        obtain ⟨rfl, off⟩ := ih cut'
        refine ⟨rfl, ?_⟩
        rw [List.mem_cons, not_or]
        exact ⟨Ne.symm other, off⟩
  · rintro ⟨rfl, off⟩
    rw [splitOnce_append off, splitOnce, if_pos rfl, Option.map_some, List.append_nil]

theorem splitOnce_eq_none_iff : splitOnce sep s = none ↔ sep ∉ s := by
  induction s with
  | nil => exact iff_of_true rfl List.not_mem_nil
  | cons c s ih =>
    rw [splitOnce, List.mem_cons, not_or]
    split
    · rename_i here
      exact iff_of_false nofun fun off => off.1 here.symm
    · rename_i other
      rw [Option.map_eq_none_iff, ih]
      exact ⟨fun off => ⟨Ne.symm other, off⟩, fun off => off.2⟩

/-! ### At every separator -/

theorem pieces_append (off : sep ∉ front) {first : List Char} {rest : List (List Char)}
    (cut : pieces sep s = first :: rest) : pieces sep (front ++ s) = (front ++ first) :: rest := by
  induction front with
  | nil => exact cut
  | cons c front ih =>
    rw [List.mem_cons, not_or] at off
    obtain ⟨other, off⟩ := off
    rw [List.cons_append, pieces, if_neg (Ne.symm other), ih off]
    rfl

theorem begins_with_first {first : List Char} {rest : List (List Char)}
    (cut : pieces sep s = first :: rest) : first <+: s := by
  induction s generalizing first rest with
  | nil =>
    cases cut
    exact List.nil_prefix
  | cons c s ih =>
    rw [pieces] at cut
    split at cut
    · cases cut
      exact List.nil_prefix
    · split at cut
      next none => exact absurd none (pieces_ne_nil sep s)
      next first' rest' cut' =>
        cases cut
        exact (List.prefix_cons_inj c).mpr (ih cut')

theorem not_mem_of_mem_pieces {piece : List Char} (member : piece ∈ pieces sep s) : sep ∉ piece := by
  induction s generalizing piece with
  | nil =>
    rw [List.mem_singleton.mp member]
    exact List.not_mem_nil
  | cons c s ih =>
    rw [pieces] at member
    split at member
    · rcases List.mem_cons.mp member with rfl | later
      · exact List.not_mem_nil
      · exact ih later
    · rename_i other
      split at member
      next none => exact absurd none (pieces_ne_nil sep s)
      next first rest cut =>
        rcases List.mem_cons.mp member with rfl | later
        · rw [List.mem_cons, not_or]
          exact ⟨Ne.symm other, ih (cut ▸ List.mem_cons_self)⟩
        · exact ih (cut ▸ List.mem_cons_of_mem _ later)

theorem length_pieces (sep : Char) (s : List Char) : (pieces sep s).length = s.count sep + 1 := by
  induction s with
  | nil => rfl
  | cons c s ih =>
    rw [pieces]
    split
    next here => rw [List.length_cons, ih, here, List.count_cons_self]
    next other =>
      rw [List.count_cons_of_ne other]
      split
      next none => exact absurd none (pieces_ne_nil sep s)
      next first rest cut => rw [← ih, cut, List.length_cons, List.length_cons]

theorem pieces_joinWith {parts : List (List Char)} (some_part : parts ≠ [])
    (off : ∀ part ∈ parts, sep ∉ part) : pieces sep (joinWith [sep] parts) = parts := by
  induction parts with
  | nil => exact absurd rfl some_part
  | cons first rest ih =>
    have alone : pieces sep first = [first] := by
      have whole : pieces sep (first ++ []) = [first ++ []] :=
        pieces_append (off first List.mem_cons_self) rfl
      rwa [List.append_nil] at whole
    cases rest with
    | nil => exact alone
    | cons second rest =>
      have cut := ih (List.cons_ne_nil _ _) fun part member => off part (List.mem_cons_of_mem _ member)
      have next : pieces sep (sep :: joinWith [sep] (second :: rest)) = [] :: second :: rest := by
        rw [pieces, if_pos rfl, cut]
      show pieces sep (first ++ [sep] ++ joinWith [sep] (second :: rest)) = _
      rw [List.append_assoc, List.singleton_append, pieces_append (off first List.mem_cons_self) next,
        List.append_nil]

theorem mem_of_mem_joinWith {between : List Char} {parts : List (List Char)} {c : Char}
    (member : c ∈ joinWith between parts) : c ∈ between ∨ ∃ part ∈ parts, c ∈ part := by
  induction parts with
  | nil => exact absurd member List.not_mem_nil
  | cons first rest ih =>
    cases rest with
    | nil => exact .inr ⟨first, List.mem_singleton_self first, member⟩
    | cons second rest =>
      have joined : c ∈ first ++ between ++ joinWith between (second :: rest) := member
      simp only [List.mem_append, or_assoc] at joined
      rcases joined with own | comma | later
      · exact .inr ⟨first, List.mem_cons_self, own⟩
      · exact .inl comma
      · exact (ih later).imp_right fun ⟨part, among, inside⟩ =>
          ⟨part, List.mem_cons_of_mem first among, inside⟩

end MarketFeed.Text
