import MarketFeed.Proofs.Tier.Validation
import MarketFeed.Ranking
/-!
The ranks of a tier and the identifiers that stand there. A tier takes its identifiers from the
beginning of a ranked list, and the ranks of apart tiers are apart.
-/

set_option autoImplicit false
set_option relaxedAutoImplicit false

namespace MarketFeed.Tier

def ranks (t : Tier) (length : Nat) : List Nat :=
  List.range' t.idFrom (min t.idTo length + 1 - t.idFrom)

/-- The identifiers of a tier: those of the first ranks up to its last, without those before its
first. -/
def idsOf (t : Tier) (ranked : List String) : List String :=
  (ranked.take t.idTo).drop (t.idFrom - 1)

theorem mem_ranks_iff {t : Tier} {length rank : Nat} :
    rank ∈ t.ranks length ↔ t.covers rank ∧ rank ≤ length := by
  simp only [ranks, covers, List.mem_range'_1]
  omega

theorem idsOf_take (t : Tier) (ranked : List String) :
    t.idsOf (ranked.take t.idTo) = t.idsOf ranked := by
  rw [idsOf, idsOf, List.take_take, Nat.min_self]

theorem slice?_eq {t : Tier} (range : t.IsRange) (ranked : List String) :
    t.slice? ranked = some (t.idsOf ranked) := by
  have := range.2
  simp only [slice?, idsOf]
  split
  · rename_i beyond
    have short : (ranked.take t.idTo).length ≤ t.idFrom - 1 := by
      rw [List.length_take]
      omega
    rw [List.drop_eq_nil_of_le short]
  · rename_i within_
    rw [if_pos (by omega), ← List.take_eq_take_min]

theorem map_some_idsOf {t : Tier} (range : t.IsRange) (ranked : List String) :
    (t.idsOf ranked).map some = (t.ranks ranked.length).map fun rank => ranked[rank - 1]? := by
  have := range.1
  apply List.ext_getElem?
  intro i
  simp only [idsOf, ranks, List.getElem?_map, List.getElem?_drop, List.getElem?_take]
  by_cases inside : t.idFrom - 1 + i < min t.idTo ranked.length
  · have here : t.idFrom - 1 + i < ranked.length := by omega
    rw [if_pos (by omega), List.getElem?_range' (by omega), List.getElem?_eq_getElem here]
    simp only [Option.map_some, Nat.one_mul]
    rw [show t.idFrom + i - 1 = t.idFrom - 1 + i by omega, List.getElem?_eq_getElem here]
  · have none_left : (if t.idFrom - 1 + i < t.idTo then ranked[t.idFrom - 1 + i]? else none) =
        none := by
      split
      · rw [List.getElem?_eq_none (by omega)]
      · rfl
    have beyond : (List.range' t.idFrom (min t.idTo ranked.length + 1 - t.idFrom))[i]? = none := by
      rw [List.getElem?_eq_none]
      rw [List.length_range']
      omega
    rw [none_left, beyond]
    rfl

theorem idsOf_eq_nil_iff {t : Tier} (range : t.IsRange) (ranked : List String) :
    t.idsOf ranked = [] ↔ ranked.length < t.idFrom := by
  have := range.1
  have := range.2
  rw [idsOf, List.drop_eq_nil_iff, List.length_take]
  omega

theorem mem_idsOf_iff {t : Tier} (range : t.IsRange) {ranked : List String} {id : String} :
    id ∈ t.idsOf ranked ↔ ∃ rank ∈ t.ranks ranked.length, ranked[rank - 1]? = some id := by
  have stand := map_some_idsOf range ranked
  have listed : id ∈ t.idsOf ranked ↔ some id ∈ (t.idsOf ranked).map some := by simp
  rw [listed, stand, List.mem_map]

theorem Apart.not_mem_idsOf {t u : Tier} (apart : t.Apart u) (range : t.IsRange) (range' : u.IsRange)
    {ranked : List String} (distinct : ranked.Nodup) {id : String} (here : id ∈ t.idsOf ranked) :
    id ∉ u.idsOf ranked := by
  intro there
  obtain ⟨rank, inside, found⟩ := (mem_idsOf_iff range).mp here
  obtain ⟨rank', inside', found'⟩ := (mem_idsOf_iff range').mp there
  have ⟨covers, within_⟩ := mem_ranks_iff.mp inside
  have ⟨covers', _⟩ := mem_ranks_iff.mp inside'
  have first : 0 < rank := Nat.lt_of_lt_of_le range.1 covers.1
  have first' : 0 < rank' := Nat.lt_of_lt_of_le range'.1 covers'.1
  have bound : rank - 1 < ranked.length := by omega
  have same : rank - 1 = rank' - 1 :=
    (List.getElem?_inj bound distinct).mp (found.trans found'.symm)
  have equal : rank = rank' := by omega
  exact apart rank ⟨covers, equal ▸ covers'⟩

/-- Of tiers that are apart exactly one has a rank of the list that is covered at all, and none has any
other. -/
theorem length_filter_ranks {tiers : List Tier} (apart : tiers.Pairwise Apart) (length rank : Nat) :
    (tiers.filter fun t => rank ∈ t.ranks length).length =
      if rank ≤ length ∧ ∃ t ∈ tiers, t.covers rank then 1 else 0 := by
  induction tiers with
  | nil => simp
  | cons t rest ih =>
    have ⟨first, later⟩ := List.pairwise_cons.mp apart
    by_cases here : t.covers rank ∧ rank ≤ length
    · have others : ∀ u ∈ rest, ¬ (u.covers rank ∧ rank ≤ length) := by
        intro u hu there
        exact first u hu rank ⟨here.1, there.1⟩
      have none_left : rest.filter (fun u => rank ∈ u.ranks length) = [] := by
        rw [List.filter_eq_nil_iff]
        intro u hu there
        exact others u hu (mem_ranks_iff.mp (of_decide_eq_true there))
      have taken : rank ∈ t.ranks length := mem_ranks_iff.mpr here
      have covered : rank ≤ length ∧ ∃ u ∈ t :: rest, u.covers rank :=
        ⟨here.2, t, List.mem_cons_self, here.1⟩
      rw [List.filter_cons, if_pos (decide_eq_true taken), none_left, if_pos covered]
      rfl
    · have left_out : rank ∉ t.ranks length := fun taken => here (mem_ranks_iff.mp taken)
      have same : (rank ≤ length ∧ ∃ u ∈ t :: rest, u.covers rank) ↔
          rank ≤ length ∧ ∃ u ∈ rest, u.covers rank := by
        grind
      rw [List.filter_cons, if_neg (by simpa using left_out), ih later]
      simp only [same]

end MarketFeed.Tier
