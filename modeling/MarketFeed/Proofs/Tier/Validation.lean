import MarketFeed.Tier.Validation
/-!
What an accepted list of tiers is like: names of their own, ranges that are not empty, and no rank in two
of them.
-/

set_option autoImplicit false
set_option relaxedAutoImplicit false

namespace MarketFeed.Tier

def IsRange (t : Tier) : Prop := 0 < t.idFrom ∧ t.idFrom ≤ t.idTo

theorem fault?_eq_none_iff {t : Tier} {names : List String} :
    t.fault? names = none ↔ Text.isAllBlank t.name = false ∧ t.name ∉ names ∧ t.IsRange ∧
      t.interval.isZero = false := by
  unfold fault? IsRange
  by_cases blank : Text.isAllBlank t.name = true
  · simp [blank]
  by_cases taken : t.name ∈ names
  · simp [blank, taken]
  by_cases zero : t.idFrom = 0
  · simp [blank, taken, zero]
  by_cases reversed : t.idTo < t.idFrom
  · simp [blank, taken, zero, reversed, Nat.not_le.mpr reversed]
  have range : 0 < t.idFrom ∧ t.idFrom ≤ t.idTo := by omega
  simp [blank, taken, zero, reversed, range]

private theorem faultless_of_validate {tiers : List Tier} (accepted : validate tiers = none) :
    firstFault? [] tiers = none ∧ overlap? (sorted tiers) = none := by
  rw [validate] at accepted
  split at accepted
  · cases accepted
  · rename_i sound
    exact ⟨sound, accepted⟩

theorem firstFault?_eq_none_iff {tiers : List Tier} {names : List String} :
    firstFault? names tiers = none ↔
      (∀ t ∈ tiers, Text.isAllBlank t.name = false ∧ t.IsRange ∧ t.interval.isZero = false) ∧
        (tiers.map Tier.name).Nodup ∧ ∀ t ∈ tiers, t.name ∉ names := by
  induction tiers generalizing names with
  | nil => simp [firstFault?]
  | cons t rest ih =>
    rw [firstFault?]
    cases head : t.fault? names with
    | some f =>
      refine iff_of_false nofun fun ⟨sound, _, fresh⟩ => ?_
      obtain ⟨named, range, timed⟩ := sound t List.mem_cons_self
      have clear := fault?_eq_none_iff.mpr ⟨named, fresh t List.mem_cons_self, range, timed⟩
      cases head.symm.trans clear
    | none =>
      obtain ⟨named, fresh, range, timed⟩ := fault?_eq_none_iff.mp head
      rw [ih, List.forall_mem_cons, List.forall_mem_cons, List.map_cons, List.nodup_cons]
      constructor
      · rintro ⟨sound, distinct, others⟩
        refine ⟨⟨⟨named, range, timed⟩, sound⟩, ⟨?_, distinct⟩, fresh, ?_⟩
        · intro member
          obtain ⟨u, hu, same⟩ := List.mem_map.mp member
          exact List.ne_of_not_mem_cons (others u hu) same
        · exact fun u hu => List.not_mem_of_not_mem_cons (others u hu)
      · rintro ⟨⟨_, sound⟩, ⟨alone, distinct⟩, _, others⟩
        refine ⟨sound, distinct, fun u hu => List.not_mem_cons_of_ne_of_not_mem ?_ (others u hu)⟩
        exact fun same => alone (same ▸ List.mem_map_of_mem hu)

theorem names_nodup_of_validate {tiers : List Tier} (accepted : validate tiers = none) :
    (tiers.map Tier.name).Nodup :=
  (firstFault?_eq_none_iff.mp (faultless_of_validate accepted).1).2.1

/-! ### Ranges -/

/-- Two tiers share no rank. -/
def Apart (a b : Tier) : Prop := ∀ rank, ¬ (a.covers rank ∧ b.covers rank)

theorem Apart.symm {a b : Tier} (apart : Apart a b) : Apart b a :=
  fun rank both => apart rank both.symm

theorem pairwise_apart_iff {tiers : List Tier} :
    tiers.Pairwise Apart ↔ ∀ (i j : Nat) (t u : Tier), i ≠ j → tiers[i]? = some t →
      tiers[j]? = some u → Apart t u := by
  rw [List.pairwise_iff_getElem]
  constructor
  · intro pairs i j t u other here there
    obtain ⟨inside, rfl⟩ := List.getElem?_eq_some_iff.mp here
    obtain ⟨inside', rfl⟩ := List.getElem?_eq_some_iff.mp there
    rcases Nat.lt_or_gt_of_ne other with before | after
    · exact pairs i j inside inside' before
    · exact (pairs j i inside' inside after).symm
  · intro places i j inside inside' before
    exact places i j _ _ (Nat.ne_of_lt before) (List.getElem?_eq_getElem inside)
      (List.getElem?_eq_getElem inside')

private theorem pairwise_of_overlap?_eq_none {tiers : List Tier}
    (ranges : ∀ t ∈ tiers, t.IsRange) (sound : overlap? tiers = none) :
    tiers.Pairwise fun a b => a.idTo < b.idFrom := by
  induction tiers with
  | nil => exact List.Pairwise.nil
  | cons first rest ih =>
    cases rest with
    | nil => exact List.pairwise_singleton _ _
    | cons second rest =>
      rw [overlap?] at sound
      split at sound
      · cases sound
      · rename_i clear
        have later := ih (fun t ht => ranges t (List.mem_cons_of_mem _ ht)) sound
        have behind := (List.pairwise_cons.mp later).1
        have range := ranges second (by simp)
        refine List.pairwise_cons.mpr ⟨?_, later⟩
        intro t ht
        rcases List.mem_cons.mp ht with rfl | ht
        · omega
        · have := behind t ht
          have := range.2
          omega

theorem apart_iff_before {a b : Tier} (range : b.IsRange) (first : a.idFrom ≤ b.idFrom) :
    Apart a b ↔ a.idTo < b.idFrom := by
  constructor
  · intro apart
    exact Nat.lt_of_not_le fun reaches => apart b.idFrom ⟨⟨first, reaches⟩, Nat.le_refl _, range.2⟩
  · rintro before rank ⟨inside, beyond⟩
    have := inside.2
    have := beyond.1
    omega

private theorem overlap?_eq_none_of_pairwise {tiers : List Tier}
    (clear : tiers.Pairwise fun a b => a.idTo < b.idFrom) : overlap? tiers = none := by
  induction tiers with
  | nil => rfl
  | cons first rest ih =>
    cases rest with
    | nil => rfl
    | cons second rest =>
      have ⟨behind, later⟩ := List.pairwise_cons.mp clear
      rw [overlap?, if_neg (Nat.not_le.mpr (behind second List.mem_cons_self))]
      exact ih later

/-- Neighbours among the sorted tiers are compared, and with that all tiers with all others. -/
theorem overlap?_sorted_eq_none_iff {tiers : List Tier} (ranges : ∀ t ∈ tiers, t.IsRange) :
    overlap? (sorted tiers) = none ↔ tiers.Pairwise Apart := by
  have same : (sorted tiers).Perm tiers := List.mergeSort_perm _ _
  have ranges : ∀ t ∈ sorted tiers, t.IsRange := fun t ht => ranges t (same.mem_iff.mp ht)
  have rising : (sorted tiers).Pairwise fun a b => a.idFrom ≤ b.idFrom := by
    refine (List.pairwise_mergeSort (fun a b c => ?_) (fun a b => ?_) tiers).imp of_decide_eq_true
    · simp only [decide_eq_true_eq]
      exact Nat.le_trans
    · simp only [Bool.or_eq_true, decide_eq_true_eq]
      exact Nat.le_total a.idFrom b.idFrom
  rw [← same.pairwise_iff Apart.symm]
  constructor
  · intro clear
    have before := pairwise_of_overlap?_eq_none ranges clear
    exact (before.and rising).imp_of_mem fun _ here ⟨before, first⟩ =>
      (apart_iff_before (ranges _ here) first).mpr before
  · intro apart
    refine overlap?_eq_none_of_pairwise ?_
    exact (apart.and rising).imp_of_mem fun _ here ⟨apart, first⟩ =>
      (apart_iff_before (ranges _ here) first).mp apart

theorem isRange_of_validate {tiers : List Tier} (accepted : validate tiers = none) :
    ∀ t ∈ tiers, t.IsRange :=
  fun t ht => ((firstFault?_eq_none_iff.mp (faultless_of_validate accepted).1).1 t ht).2.1

theorem apart_of_validate {tiers : List Tier} (accepted : validate tiers = none) :
    tiers.Pairwise Apart :=
  (overlap?_sorted_eq_none_iff (isRange_of_validate accepted)).mp (faultless_of_validate accepted).2

/-! ### What is accepted -/

/-- Tiers that can be scheduled beside each other: every name shows something and belongs to one tier,
every range begins at a rank and does not end before it begins, every interval takes time, and tiers at
two places of the list have no rank in common. -/
structure WellFormed (tiers : List Tier) : Prop where
  named : ∀ t ∈ tiers, ∃ c ∈ t.name.toList, Text.isBlank c = false
  distinct : (tiers.map Tier.name).Nodup
  ranges : ∀ t ∈ tiers, 1 ≤ t.idFrom ∧ t.idFrom ≤ t.idTo
  timed : ∀ t ∈ tiers, 0 < t.interval.nanos
  apart : ∀ (i j : Nat) (t u : Tier), i ≠ j → tiers[i]? = some t → tiers[j]? = some u →
    ∀ rank, ¬ (t.covers rank ∧ u.covers rank)

theorem isAllBlank_eq_false_iff {name : String} :
    Text.isAllBlank name = false ↔ ∃ c ∈ name.toList, Text.isBlank c = false := by
  rw [Text.isAllBlank, List.all_eq_false]
  simp only [Bool.not_eq_true]

theorem isZero_eq_false_iff {d : Duration} : d.isZero = false ↔ 0 < d.nanos := by
  rw [Duration.isZero, beq_eq_false_iff_ne, Nat.pos_iff_ne_zero]

theorem WellFormed.perm {tiers order : List Tier} (wellFormed : WellFormed tiers)
    (same : order.Perm tiers) : WellFormed order where
  named t ht := wellFormed.named t (same.mem_iff.mp ht)
  distinct := (same.map Tier.name).nodup_iff.mpr wellFormed.distinct
  ranges t ht := wellFormed.ranges t (same.mem_iff.mp ht)
  timed t ht := wellFormed.timed t (same.mem_iff.mp ht)
  apart :=
    pairwise_apart_iff.mp (same.symm.pairwise (pairwise_apart_iff.mpr wellFormed.apart) Apart.symm)

private theorem validate_eq_none {tiers : List Tier} (wellFormed : WellFormed tiers) :
    validate tiers = none := by
  have faultless : firstFault? [] tiers = none := by
    refine firstFault?_eq_none_iff.mpr ⟨fun t ht => ?_, wellFormed.distinct, fun t _ => nofun⟩
    exact ⟨isAllBlank_eq_false_iff.mpr (wellFormed.named t ht), wellFormed.ranges t ht,
      isZero_eq_false_iff.mpr (wellFormed.timed t ht)⟩
  rw [validate, faultless]
  exact (overlap?_sorted_eq_none_iff wellFormed.ranges).mpr (pairwise_apart_iff.mpr wellFormed.apart)

private theorem wellFormed_of_validate {tiers : List Tier} (accepted : validate tiers = none) :
    WellFormed tiers := by
  obtain ⟨sound, distinct, -⟩ := firstFault?_eq_none_iff.mp (faultless_of_validate accepted).1
  exact {
    named := fun t ht => isAllBlank_eq_false_iff.mp (sound t ht).1
    distinct := distinct
    ranges := fun t ht => (sound t ht).2.1
    timed := fun t ht => isZero_eq_false_iff.mp (sound t ht).2.2
    apart := pairwise_apart_iff.mp (apart_of_validate accepted) }

/-- Exactly the well-formed lists of tiers are accepted, however long their ranges are; so it does not
matter in which order the tiers are given. -/
theorem accepts_wellFormed (tiers : List Tier) :
    (validate tiers = none ↔ WellFormed tiers) ∧
      ∀ order : List Tier, order.Perm tiers → (validate order = none ↔ validate tiers = none) := by
  refine ⟨⟨wellFormed_of_validate, validate_eq_none⟩, fun order same => ⟨fun accepted => ?_,
    fun accepted => ?_⟩⟩
  · exact validate_eq_none ((wellFormed_of_validate accepted).perm same.symm)
  · exact validate_eq_none ((wellFormed_of_validate accepted).perm same)

def hundred : Tier := ⟨"top", 1, 100, Duration.ofSeconds 60, false⟩

def beyond : Tier := ⟨"rest", 101, UInt64.size - 1, Duration.ofSeconds 3600, false⟩

theorem accepts_wellFormed_hundred :
    [beyond, hundred].Perm [hundred, beyond] ∧ validate [beyond, hundred] = none ∧
      ¬ WellFormed [⟨"last", UInt64.size - 1, UInt64.size - 1, Duration.ofSeconds 60, true⟩,
        hundred, beyond] := by
  have swapped : [beyond, hundred].Perm [hundred, beyond] := .swap _ _ _
  have order : sorted [hundred, beyond] = [hundred, beyond] := by
    simp [sorted, List.mergeSort, hundred, beyond]
  have accepted : validate [hundred, beyond] = none := by
    rw [validate, order]
    decide +kernel
  have order : sorted [⟨"last", UInt64.size - 1, UInt64.size - 1, Duration.ofSeconds 60, true⟩,
      hundred, beyond] =
      [hundred, beyond, ⟨"last", UInt64.size - 1, UInt64.size - 1, Duration.ofSeconds 60, true⟩] := by
    simp [sorted, List.mergeSort, hundred, beyond, UInt64.size]
  have refused : validate [⟨"last", UInt64.size - 1, UInt64.size - 1, Duration.ofSeconds 60, true⟩,
      hundred, beyond] ≠ none := by
    rw [validate, order]
    decide +kernel
  exact ⟨swapped, ((accepts_wellFormed [hundred, beyond]).2 _ swapped).mpr accepted,
    fun wellFormed => refused ((accepts_wellFormed _).1.mpr wellFormed)⟩

end MarketFeed.Tier
