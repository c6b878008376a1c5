import MarketFeed.Endpoint.Locator
/-!
What fixed parameters do to the query pairs of a path. Each replaces the value of the first pair of its
name, or is added at the end; the names of the pairs stay in front, and so do the values of the pairs
that no parameter replaces.
-/

set_option autoImplicit false
set_option relaxedAutoImplicit false

namespace MarketFeed.Endpoint

/-- Gives some parameters to some pairs, one after the other. -/
def overrideAll (params pairs : List QueryPair) : List QueryPair :=
  params.foldl (fun acc p => overridePair p.1 p.2 acc) pairs

def lastValue (params : List QueryPair) (name value : List Char) : List Char :=
  params.foldl (fun acc p => if p.1 = name then p.2 else acc) value

/-- The values of the pairs that no parameter replaces: a name counts for the first pair of it only. -/
def keptValues (names : List (List Char)) : List QueryPair → List (List Char)
  | [] => []
  | (name, value) :: rest =>
    if name ∈ names then keptValues (names.filter (· != name)) rest
    else value :: keptValues names rest

variable {params pairs : List QueryPair} {name value : List Char}

theorem overrideAll_cons (params rest : List QueryPair) (name value : List Char) :
    overrideAll params ((name, value) :: rest) =
      (name, lastValue params name value) ::
        overrideAll (params.filter fun p => p.1 != name) rest := by
  induction params generalizing value rest with
  | nil => rfl
  | cons p params ih =>
    obtain ⟨k, v⟩ := p
    show overrideAll params (overridePair k v ((name, value) :: rest)) = _
    by_cases same : name = k
    · have others : ((k, v) :: params).filter (fun p => p.1 != name) =
          params.filter fun p => p.1 != name := by simp [same]
      have last : lastValue ((k, v) :: params) name value = lastValue params name v := by
        simp [lastValue, same]
      rw [overridePair, if_pos same, ih, others, last]
    · have others : ((k, v) :: params).filter (fun p => p.1 != name) =
          (k, v) :: params.filter fun p => p.1 != name := by simp [Ne.symm same]
      have last : lastValue ((k, v) :: params) name value = lastValue params name value := by
        simp [lastValue, Ne.symm same]
      rw [overridePair, if_neg same, ih, others, last]
      rfl

theorem lastValue_of_not_mem (off : name ∉ params.map Prod.fst) (value : List Char) :
    lastValue params name value = value := by
  induction params generalizing value with
  | nil => rfl
  | cons p params ih =>
    rw [List.map_cons, List.mem_cons, not_or] at off
    show lastValue params name (if p.1 = name then p.2 else value) = value
    rw [if_neg (Ne.symm off.1), ih off.2]

theorem lastValue_of_mem (named : name ∈ params.map Prod.fst) (value value' : List Char) :
    lastValue params name value = lastValue params name value' := by
  induction params generalizing value value' with
  | nil => cases named
  | cons p params ih =>
    show lastValue params name (if p.1 = name then p.2 else value) =
      lastValue params name (if p.1 = name then p.2 else value')
    by_cases same : p.1 = name
    · rw [if_pos same, if_pos same]
    · rw [List.map_cons, List.mem_cons] at named
      rw [if_neg same, if_neg same, ih (named.resolve_left (Ne.symm same)) value value']

theorem names_prefix_overrideAll (params pairs : List QueryPair) :
    pairs.map Prod.fst <+: (overrideAll params pairs).map Prod.fst := by
  induction pairs generalizing params with
  | nil => exact List.nil_prefix
  | cons p rest ih =>
    rw [overrideAll_cons, List.map_cons, List.map_cons]
    exact (List.prefix_cons_inj p.1).mpr (ih _)

theorem names_overrideAll {params pairs pairs' : List QueryPair}
    (names : pairs.map Prod.fst = pairs'.map Prod.fst) :
    (overrideAll params pairs).map Prod.fst = (overrideAll params pairs').map Prod.fst := by
  induction pairs generalizing params pairs' with
  | nil =>
    rw [List.map_nil, eq_comm, List.map_eq_nil_iff] at names
    rw [names]
  | cons p rest ih =>
    cases pairs' with
    | nil => cases names
    | cons p' rest' =>
      obtain ⟨same, tails⟩ := List.cons.inj names
      rw [overrideAll_cons, overrideAll_cons, List.map_cons, List.map_cons, ← same, ih tails]

/-- Of pairs with the same names the parameters make the same exactly if they leave the same values. -/
theorem overrideAll_eq_iff {pairs' : List QueryPair}
    (names : pairs.map Prod.fst = pairs'.map Prod.fst) :
    overrideAll params pairs = overrideAll params pairs' ↔
      keptValues (params.map Prod.fst) pairs = keptValues (params.map Prod.fst) pairs' := by
  induction pairs generalizing params pairs' with
  | nil =>
    rw [List.map_nil, eq_comm, List.map_eq_nil_iff] at names
    rw [names]
    exact iff_of_true rfl rfl
  | cons p rest ih =>
    obtain ⟨name, value⟩ := p
    cases pairs' with
    | nil => cases names
    | cons p' rest' =>
      obtain ⟨name', value'⟩ := p'
      obtain ⟨rfl, tails⟩ := List.cons.inj names
      have left : overrideAll (params.filter fun p => p.1 != name) rest =
          overrideAll (params.filter fun p => p.1 != name) rest' ↔ _ := ih tails
      have others : (params.filter fun p => p.1 != name).map Prod.fst =
          (params.map Prod.fst).filter (· != name) := by
        rw [List.filter_map]
        rfl
      rw [others] at left
      rw [overrideAll_cons, overrideAll_cons, keptValues, keptValues]
      by_cases named : name ∈ params.map Prod.fst
      · rw [if_pos named, if_pos named, lastValue_of_mem named value value', List.cons_inj_right, left]
      · have all : (params.map Prod.fst).filter (· != name) = params.map Prod.fst := by
          rw [List.filter_eq_self]
          intro other member
          simpa using fun same : other = name => named (same ▸ member)
        rw [all] at left
        rw [if_neg named, if_neg named, lastValue_of_not_mem named, lastValue_of_not_mem named,
          List.cons.injEq, List.cons.injEq, Prod.mk.injEq, left]
        simp only [true_and]

theorem keptValues_map (change : List Char → List Char) (names : List (List Char))
    (pairs : List QueryPair) :
    keptValues names (pairs.map fun p => (p.1, change p.2)) = (keptValues names pairs).map change := by
  induction pairs generalizing names with
  | nil => rfl
  | cons p rest ih =>
    rw [List.map_cons, keptValues, keptValues]
    by_cases named : p.1 ∈ names
    · rw [if_pos named, if_pos named, ih]
    · rw [if_neg named, if_neg named, ih, List.map_cons]

theorem mem_overridePair {p : QueryPair} (member : p ∈ overridePair name value pairs) :
    p ∈ pairs ∨ p = (name, value) := by
  induction pairs with
  | nil => exact .inr (List.mem_singleton.mp member)
  | cons q rest ih =>
    rw [overridePair] at member
    split at member
    next same =>
      rcases List.mem_cons.mp member with here | later
      · exact .inr (here.trans (by rw [same]))
      · exact .inl (List.mem_cons_of_mem _ later)
    next =>
      rcases List.mem_cons.mp member with here | later
      · exact .inl (here ▸ List.mem_cons_self)
      · exact (ih later).imp_left (List.mem_cons_of_mem _)

theorem forall_overrideAll {good : QueryPair → Prop} (given : ∀ p ∈ params, good p)
    (there : ∀ p ∈ pairs, good p) : ∀ p ∈ overrideAll params pairs, good p := by
  induction params generalizing pairs with
  | nil => exact there
  | cons q params ih =>
    refine ih (fun p member => given p (List.mem_cons_of_mem _ member)) fun p member => ?_
    rcases mem_overridePair member with old | new
    · exact there p old
    · exact new ▸ given q List.mem_cons_self

end MarketFeed.Endpoint
