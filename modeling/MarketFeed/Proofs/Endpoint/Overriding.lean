import MarketFeed.Proofs.Endpoint.Substitution
import MarketFeed.Table.Lemmas
/-!
What fixed parameters override. A parameter is looked for under its encoded name and replaces the first
pair that is found. The pairs whose name is decoded to that of the parameter are one pair with its value
only if the path has at most one such pair, and this one is named as parameters are written. Pairs whose
name is decoded to that of no parameter stay as they are.
-/

set_option autoImplicit false
set_option relaxedAutoImplicit false

namespace MarketFeed.Endpoint

open Text

/-- The pairs whose name is decoded to a text. -/
def pairsNamed (name : String) (pairs : List QueryPair) : List QueryPair :=
  pairs.filter fun p => Percent.decode? p.1 = some name.toList

/-- The pairs whose name is decoded to none of some texts. -/
def pairsBeside (names : List String) (pairs : List QueryPair) : List QueryPair :=
  pairs.filter fun p => ∀ name ∈ names, Percent.decode? p.1 ≠ some name.toList

/-! ### Selecting pairs by their names -/

theorem filter_overridePair (good : List Char → Bool) (name value : List Char) (pairs : List QueryPair) :
    (overridePair name value pairs).filter (fun p => good p.1) =
      if good name then overridePair name value (pairs.filter fun p => good p.1)
      else pairs.filter fun p => good p.1 := by
  induction pairs with
  | nil =>
    rw [overridePair, List.filter_cons, List.filter_nil]
    rfl
  | cons p rest ih =>
    obtain ⟨k, v⟩ := p
    rw [overridePair, List.filter_cons]
    by_cases same : k = name
    · subst same
      rw [if_pos rfl, List.filter_cons]
      split
      next => rw [overridePair, if_pos rfl]
      next => rfl
    · rw [if_neg same, List.filter_cons, ih]
      by_cases kept : good k = true
      · rw [if_pos kept, if_pos kept, overridePair, if_neg same]
        split <;> rfl
      · rw [if_neg kept, if_neg kept]

theorem filter_overrideAll (good : List Char → Bool) (params pairs : List QueryPair) :
    (overrideAll params pairs).filter (fun p => good p.1) =
      overrideAll (params.filter fun p => good p.1) (pairs.filter fun p => good p.1) := by
  induction params generalizing pairs with
  | nil => rfl
  | cons p params ih =>
    show (overrideAll params (overridePair p.1 p.2 pairs)).filter _ = _
    rw [ih, filter_overridePair, List.filter_cons]
    split <;> rfl

theorem pairsNamed_overrideAll (name : String) (params pairs : List QueryPair) :
    pairsNamed name (overrideAll params pairs) =
      overrideAll (pairsNamed name params) (pairsNamed name pairs) :=
  filter_overrideAll (fun k => Percent.decode? k = some name.toList) params pairs

theorem pairsBeside_overrideAll (names : List String) (params pairs : List QueryPair) :
    pairsBeside names (overrideAll params pairs) =
      overrideAll (pairsBeside names params) (pairsBeside names pairs) :=
  filter_overrideAll (fun k => ∀ name ∈ names, Percent.decode? k ≠ some name.toList) params pairs

theorem overridePair_ne_nil (name value : List Char) (pairs : List QueryPair) :
    overridePair name value pairs ≠ [] := by
  cases pairs with
  | nil => exact List.cons_ne_nil _ _
  | cons p rest =>
    rw [overridePair]
    split <;> exact List.cons_ne_nil _ _

theorem overridePair_eq_singleton_iff {name value : List Char} {pairs : List QueryPair} {p : QueryPair} :
    overridePair name value pairs = [p] ↔
      p = (name, value) ∧ (pairs = [] ∨ ∃ value', pairs = [(name, value')]) := by
  cases pairs with
  | nil =>
    rw [overridePair, List.cons.injEq]
    exact ⟨fun alone => ⟨alone.1.symm, .inl rfl⟩, fun alone => ⟨alone.1.symm, rfl⟩⟩
  | cons q rest =>
    obtain ⟨k, v⟩ := q
    rw [overridePair]
    by_cases same : k = name
    · subst same
      rw [if_pos rfl]
      constructor
      · intro alone
        obtain ⟨rfl, rfl⟩ := List.cons.inj alone
        exact ⟨rfl, .inr ⟨v, rfl⟩⟩
      · rintro ⟨rfl, none | ⟨_, one⟩⟩
        · cases none
        · cases one
          rfl
    · rw [if_neg same]
      constructor
      · intro alone
        exact absurd (List.cons.inj alone).2 (overridePair_ne_nil name value rest)
      · rintro ⟨-, none | ⟨_, one⟩⟩
        · cases none
        · exact absurd (Prod.mk.inj (List.cons.inj one).1).1 same

namespace Locator

variable {l : Locator}

theorem filter_params (name : String) (good : List Char → Bool)
    (own : ∀ key, good (encodeText key) = decide (key = name)) :
    l.params.filter (fun p => good p.1) =
      ((l.endpoint.queryParams.get? name).map fun value => (encodeText name, encodeText value)).toList := by
  rw [params, List.filter_map]
  simp only [Function.comp_def, own]
  cases fixed : l.endpoint.queryParams.get? name with
  | some value =>
    rw [Table.filter_of_mem_distinct l.endpoint.queryParams.distinct_keys ((Table.mem_entries_iff ..).mpr fixed)]
    rfl
  | none =>
    rw [List.filter_eq_nil_iff.mpr]
    · rfl
    · rintro ⟨key, value⟩ held same
      cases of_decide_eq_true same
      cases fixed.symm.trans ((Table.mem_entries_iff ..).mp held)

theorem pairsNamed_params {name value : String}
    (fixed : l.endpoint.queryParams.get? name = some value) :
    pairsNamed name l.params = [(encodeText name, encodeText value)] := by
  have own (key : String) :
      decide (Percent.decode? (encodeText key) = some name.toList) = decide (key = name) := by
    rw [decide_eq_decide, encodeText, Percent.decode?_encode, Option.some_inj, String.toList_inj]
  rw [pairsNamed, filter_params name (fun k => Percent.decode? k = some name.toList) own, fixed]
  rfl

theorem pairsBeside_params : pairsBeside l.endpoint.queryParams.keys l.params = [] := by
  rw [pairsBeside, List.filter_eq_nil_iff]
  intro p member beside
  obtain ⟨⟨key, value⟩, held, rfl⟩ := List.mem_map.mp member
  exact decide_eq_true_iff.mp beside key (List.mem_map_of_mem held) (Percent.decode?_encode key.toList)

end Locator

/-- **What fixed parameters override.** Of the pairs whose name is decoded to that of a parameter, the first
one that is spelled as parameters are written gets its value, and if there is none a pair is added. So there
is exactly one such pair, and with the value of the parameter, exactly if the path has no such pair or a
single one that is spelled so. All other pairs are those of the path. -/
theorem parameters_override_iff {e : Endpoint} {l : Locator} (located : Locator.ofEndpoint e = .ok l)
    (ids : List String) (fits : l.mode = .single → ids.length = 1) :
    ∃ url raw written pairs, l.url ids none = .ok url ∧
      raw = replace l.mark (joinIds ids) e.path.toList ∧ written = readPairs raw ∧
      url.toList = joinUrl e.baseUrl.toList (cutQuery raw).1 ++ writeQuery pairs ∧
      ('?' ∉ e.baseUrl.toList → readPairs url.toList = pairs) ∧
      (∀ name value, e.queryParams.get? name = some value →
        pairsNamed name pairs =
          overridePair (encodeText name) (encodeText value) (pairsNamed name written) ∧
        ((∃ p, pairsNamed name pairs = [p] ∧ Percent.decode? p.2 = some value.toList) ↔
          pairsNamed name written = [] ∨ ∃ value', pairsNamed name written = [(encodeText name, value')])) ∧
      pairsBeside e.queryParams.keys pairs = pairsBeside e.queryParams.keys written := by
  obtain ⟨rfl, path⟩ := Locator.of_ofEndpoint located
  have rendered := l.toList_render_eq (joinIds ids) none
  have parts : l.parts (joinIds ids) none =
      ((cutQuery (replace l.mark (joinIds ids) l.endpoint.path.toList)).1,
        overrideAll l.params (readPairs (replace l.mark (joinIds ids) l.endpoint.path.toList))) := by
    rw [Locator.parts, l.withParams_eq, path, Locator.keyPairs, List.append_nil]
    rfl
  rw [parts] at rendered
  refine ⟨_, _, _, _, Locator.url_eq_render fits none, rfl, rfl, rendered, ?_, ?_, ?_⟩
  · intro off
    rw [(l.cutQuery_render (joinIds ids) none off).2, parts]
  · intro name value fixed
    have described := pairsNamed_overrideAll name l.params
      (readPairs (replace l.mark (joinIds ids) l.endpoint.path.toList))
    rw [Locator.pairsNamed_params fixed] at described
    refine ⟨described, ?_⟩
    rw [described]
    constructor
    · rintro ⟨p, alone, -⟩
      exact (overridePair_eq_singleton_iff.mp alone).2
    · intro single
      exact ⟨_, overridePair_eq_singleton_iff.mpr ⟨rfl, single⟩, Percent.decode?_encode value.toList⟩
  · rw [pairsBeside_overrideAll, Locator.pairsBeside_params]
    rfl

def converted : Endpoint :=
  { path := "/p?ids=\x7b\x7bids_list\x7d\x7d&vs=usd",
    queryParams := ((∅ : Table String).insert "vs" "gbp").insert "a b" "c&d" }

theorem parameters_override_iff_converted :
    ∃ l, Locator.ofEndpoint converted = .ok l ∧ ∃ url, l.url ["bitcoin"] none = .ok url ∧
      converted.queryParams.get? "vs" = some "gbp" ∧ converted.queryParams.get? "a b" = some "c&d" ∧
      (∃ p, pairsNamed "vs" (readPairs url.toList) = [p] ∧ Percent.decode? p.2 = some "gbp".toList) ∧
      (∃ p, pairsNamed "a b" (readPairs url.toList) = [p] ∧ Percent.decode? p.2 = some "c&d".toList) ∧
      pairsBeside ["a b", "vs"] (readPairs url.toList) = [("ids".toList, "bitcoin".toList)] := by
  refine ⟨⟨converted, ⟨converted.path, .batch⟩⟩, rfl, ?_⟩
  obtain ⟨url, raw, written, pairs, here, rfl, rfl, -, read, named, beside⟩ :=
    parameters_override_iff (e := converted) (l := ⟨converted, ⟨converted.path, .batch⟩⟩) rfl
      ["bitcoin"] nofun
  rw [← read (by decide)] at named beside
  have vs := (named "vs" "gbp" (by decide)).2
  have spaced := (named "a b" "c&d" (by decide)).2
  refine ⟨url, here, by decide, by decide, vs.mpr (.inr ⟨"usd".toList, ?_⟩), spaced.mpr (.inl ?_), ?_⟩
  · decide +kernel
  · decide +kernel
  · exact beside.trans (by decide +kernel)

def repeated : Endpoint :=
  { path := "/p?vs=usd&vs=eur&ids=\x7b\x7bids_list\x7d\x7d", baseUrl := "https://api.example.com",
    queryParams := (∅ : Table String).insert "vs" "gbp" }

/-- A parameter does not override all pairs of its name. -/
theorem override_incomplete_repeated :
    ∃ l, Locator.ofEndpoint repeated = .ok l ∧ repeated.queryParams.get? "vs" = some "gbp" ∧
      l.url ["bitcoin"] none = .ok "https://api.example.com/p?vs=gbp&vs=eur&ids=bitcoin" ∧
      pairsNamed "vs" (readPairs "https://api.example.com/p?vs=gbp&vs=eur&ids=bitcoin".toList) =
        [("vs".toList, "gbp".toList), ("vs".toList, "eur".toList)] :=
  ⟨⟨repeated, ⟨repeated.path, .batch⟩⟩, rfl, by decide, rfl, by decide +kernel⟩

end MarketFeed.Endpoint
