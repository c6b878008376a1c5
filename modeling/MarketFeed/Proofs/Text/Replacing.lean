import MarketFeed.Proofs.Text.Cutting
/-!
What replacing does to a text. Away from the occurrences of the pattern it does nothing, so it can be
done before or after the text is cut at a character that neither the pattern nor what replaces it has.
Two replacements give the same text only if they are the same or the pattern does not occur.
-/

set_option autoImplicit false
set_option relaxedAutoImplicit false

namespace MarketFeed.Text

variable {pat sub s : List Char} {sep c : Char}

/-! ### One occurrence after the other -/

theorem replaceFrom_append (pat sub front s : List Char) :
    replaceFrom pat sub front.length (front ++ s) = replaceFrom pat sub 0 s := by
  induction front with
  | nil => rfl
  | cons c front ih => exact ih

theorem replace_hit (filled : pat ≠ []) (sub s : List Char) :
    replace pat sub (pat ++ s) = sub ++ replace pat sub s := by
  cases pat with
  | nil => exact absurd rfl filled
  | cons c rest =>
    have hit : (c :: rest).isPrefixOf (c :: (rest ++ s)) = true := by
      rw [← List.cons_append, List.isPrefixOf_iff_prefix]
      exact List.prefix_append _ _
    show replaceFrom (c :: rest) sub 0 (c :: (rest ++ s)) = _
    rw [replaceFrom, if_pos hit]
    exact congrArg (sub ++ ·) (replaceFrom_append (c :: rest) sub rest s)

theorem replace_miss (miss : ¬ pat <+: c :: s) (sub : List Char) :
    replace pat sub (c :: s) = c :: replace pat sub s := by
  rw [← List.isPrefixOf_iff_prefix] at miss
  show replaceFrom pat sub 0 (c :: s) = _
  rw [replaceFrom, if_neg miss]
  rfl

theorem occurs_nil (filled : pat ≠ []) : occurs pat [] = false := by
  cases pat with
  | nil => exact absurd rfl filled
  | cons c rest => rfl

theorem occurs_hit (filled : pat ≠ []) (s : List Char) : occurs pat (pat ++ s) = true := by
  cases pat with
  | nil => exact absurd rfl filled
  | cons c rest =>
    have hit : (c :: rest).isPrefixOf (c :: (rest ++ s)) = true := by
      rw [← List.cons_append, List.isPrefixOf_iff_prefix]
      exact List.prefix_append _ _
    rw [List.cons_append, occurs, hit, Bool.true_or]

theorem occurs_miss (miss : ¬ pat <+: c :: s) : occurs pat (c :: s) = occurs pat s := by
  have misses : pat.isPrefixOf (c :: s) = false := by
    rwa [← Bool.not_eq_true, List.isPrefixOf_iff_prefix]
  rw [occurs, misses, Bool.false_or]

/-- A text is empty, begins with the pattern, or begins with a character at which it does not. -/
theorem replace_induction (filled : pat ≠ []) {motive : List Char → Prop} (nil : motive [])
    (hit : ∀ s, motive s → motive (pat ++ s))
    (miss : ∀ c s, ¬ pat <+: c :: s → motive s → motive (c :: s)) (s : List Char) : motive s := by
  induction length : s.length using Nat.strongRecOn generalizing s with
  | _ n ih =>
    by_cases here : pat <+: s
    · obtain ⟨rest, rfl⟩ := here
      have shorter : rest.length < n := by
        have := List.length_pos_iff.mpr filled
        rw [← length, List.length_append]
        omega
      exact hit rest (ih _ shorter rest rfl)
    · cases s with
      | nil => exact nil
      | cons c s =>
        have shorter : s.length < n := by
          rw [← length, List.length_cons]
          omega
        exact miss c s here (ih _ shorter s rfl)

/-! ### Before and after cutting -/

private theorem miss_in_front {front : List Char} (miss : ¬ pat <+: c :: s) (kept : front <+: s) :
    ¬ pat <+: c :: front := by
  intro here
  exact miss (here.trans ((List.prefix_cons_inj c).mpr kept))

theorem splitOnce_replace (filled : pat ≠ []) (off : sep ∉ pat) (off' : sep ∉ sub) (s : List Char) :
    splitOnce sep (replace pat sub s) =
      (splitOnce sep s).map fun parts => (replace pat sub parts.1, replace pat sub parts.2) := by
  induction s using replace_induction filled with
  | nil => rfl
  | hit s ih =>
    rw [replace_hit filled, splitOnce_append off', ih, splitOnce_append off, Option.map_map,
      Option.map_map]
    simp only [Function.comp_def, replace_hit filled]
  | miss c s miss ih =>
    rw [replace_miss miss, splitOnce, splitOnce]
    by_cases here : c = sep
    · rw [if_pos here, if_pos here]
      rfl
    · rw [if_neg here, if_neg here, ih, Option.map_map, Option.map_map]
      refine Option.map_congr fun parts cut => ?_
      have kept : parts.1 <+: s := ⟨_, (splitOnce_eq_some_iff.mp cut).1.symm⟩
      simp only [Function.comp_apply, replace_miss (miss_in_front miss kept)]

theorem pieces_replace (filled : pat ≠ []) (off : sep ∉ pat) (off' : sep ∉ sub) (s : List Char) :
    pieces sep (replace pat sub s) = (pieces sep s).map (replace pat sub) := by
  induction s using replace_induction filled with
  | nil => rfl
  | hit s ih =>
    obtain ⟨first, rest, cut⟩ := List.exists_cons_of_ne_nil (pieces_ne_nil sep s)
    rw [cut, List.map_cons] at ih
    rw [replace_hit filled, pieces_append off' ih, pieces_append off cut, List.map_cons,
      replace_hit filled]
  | miss c s miss ih =>
    obtain ⟨first, rest, cut⟩ := List.exists_cons_of_ne_nil (pieces_ne_nil sep s)
    rw [cut, List.map_cons] at ih
    rw [replace_miss miss, pieces, pieces, ih, cut]
    by_cases here : c = sep
    · rw [if_pos here, if_pos here]
      rfl
    · rw [if_neg here, if_neg here, List.map_cons,
        replace_miss (miss_in_front miss (begins_with_first cut))]

theorem replace_eq_nil_iff (filled : pat ≠ []) (filled' : sub ≠ []) :
    replace pat sub s = [] ↔ s = [] := by
  by_cases here : pat <+: s
  · obtain ⟨rest, rfl⟩ := here
    simp [replace_hit filled, filled, filled']
  · cases s with
    | nil => exact iff_of_true rfl rfl
    | cons c s => simp [replace_miss here]

theorem dropWhile_replace (filled : pat ≠ []) (filled' : sub ≠ []) (off : c ∉ pat) (off' : c ∉ sub)
    (s : List Char) :
    (replace pat sub s).dropWhile (· == c) = replace pat sub (s.dropWhile (· == c)) := by
  have stays : ∀ t : List Char, t ≠ [] → c ∉ t → ∀ r, (t ++ r).dropWhile (· == c) = t ++ r := by
    intro t filled off r
    obtain ⟨d, t, rfl⟩ := List.exists_cons_of_ne_nil filled
    have other : (d == c) = false := by simpa using fun same : d = c => off (same ▸ List.mem_cons_self)
    rw [List.cons_append, List.dropWhile_cons, other]
    rfl
  induction s using replace_induction filled with
  | nil => rfl
  | hit s _ => rw [replace_hit filled, stays sub filled' off', stays pat filled off, replace_hit filled]
  | miss d s miss ih =>
    rw [replace_miss miss, List.dropWhile_cons, List.dropWhile_cons]
    by_cases here : (d == c) = true
    · rw [if_pos here, if_pos here, ih]
    · rw [if_neg here, if_neg here, replace_miss miss]

theorem occurs_dropWhile (filled : pat ≠ []) (off : c ∉ pat) (s : List Char) :
    occurs pat (s.dropWhile (· == c)) = occurs pat s := by
  induction s with
  | nil => rfl
  | cons d s ih =>
    rw [List.dropWhile_cons]
    by_cases here : (d == c) = true
    · have miss : ¬ pat <+: d :: s := by
        intro begins
        obtain ⟨e, rest, rfl⟩ := List.exists_cons_of_ne_nil filled
        obtain ⟨rfl, -⟩ := List.cons_prefix_cons.mp begins
        exact off (beq_iff_eq.mp here ▸ List.mem_cons_self)
      rw [if_pos here, ih, occurs_miss miss]
    · rw [if_neg here]

/-! ### What can be told from the result -/

theorem replace_of_not_occurs (filled : pat ≠ []) (none : occurs pat s = false) :
    replace pat sub s = s := by
  induction s using replace_induction filled with
  | nil => rfl
  | hit s _ => cases (occurs_hit filled s).symm.trans none
  | miss c s miss ih => rw [replace_miss miss, ih ((occurs_miss miss).symm.trans none)]

private theorem length_replace_le (filled : pat ≠ []) {sub' : List Char}
    (shorter : sub.length ≤ sub'.length) (s : List Char) :
    (replace pat sub s).length ≤ (replace pat sub' s).length := by
  induction s using replace_induction filled with
  | nil => exact Nat.le_refl _
  | hit s ih =>
    rw [replace_hit filled, replace_hit filled, List.length_append, List.length_append]
    omega
  | miss c s miss ih =>
    rw [replace_miss miss, replace_miss miss, List.length_cons, List.length_cons]
    omega

private theorem length_replace_lt (filled : pat ≠ []) {sub' : List Char}
    (shorter : sub.length < sub'.length) (here : occurs pat s = true) :
    (replace pat sub s).length < (replace pat sub' s).length := by
  induction s using replace_induction filled with
  | nil => cases (occurs_nil filled).symm.trans here
  | hit s _ =>
    have rest := length_replace_le filled (Nat.le_of_lt shorter) s
    rw [replace_hit filled, replace_hit filled, List.length_append, List.length_append]
    omega
  | miss c s miss ih =>
    have rest := ih ((occurs_miss miss).symm.trans here)
    rw [replace_miss miss, replace_miss miss, List.length_cons, List.length_cons]
    omega

private theorem eq_of_replace (filled : pat ≠ []) {sub' : List Char} (here : occurs pat s = true)
    (length : sub.length = sub'.length) (same : replace pat sub s = replace pat sub' s) :
    sub = sub' := by
  induction s using replace_induction filled with
  | nil => cases (occurs_nil filled).symm.trans here
  | hit s _ =>
    rw [replace_hit filled, replace_hit filled] at same
    exact (List.append_inj same length).1
  | miss c s miss ih =>
    rw [replace_miss miss, replace_miss miss] at same
    exact ih ((occurs_miss miss).symm.trans here) (List.cons.inj same).2

/-- Two replacements of a pattern give the same text exactly if it does not occur. -/
theorem replace_eq_iff (filled : pat ≠ []) {sub' : List Char} (other : sub ≠ sub') :
    replace pat sub s = replace pat sub' s ↔ occurs pat s = false := by
  constructor
  · intro same
    cases here : occurs pat s with
    | false => rfl
    | true =>
      have lengths := congrArg List.length same
      rcases Nat.lt_trichotomy sub.length sub'.length with shorter | length | longer
      · exact absurd lengths (Nat.ne_of_lt (length_replace_lt filled shorter here))
      · exact absurd (eq_of_replace filled here length same) other
      · exact absurd lengths (Nat.ne_of_gt (length_replace_lt filled longer here))
  · intro none
    rw [replace_of_not_occurs filled none, replace_of_not_occurs filled none]

end MarketFeed.Text
