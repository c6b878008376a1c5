import MarketFeed.Proofs.Endpoint.Overriding
/-!
The granularity that an address asks for. Whether data finer than daily is asked for is decided from the path
and the parameters as they are configured. The address says the same where identifiers are put neither in
the name of a pair nor in the value that selects the granularity: its first pair of that name has the value
that was looked at, and to be encoded does not make a value finer.
-/

set_option autoImplicit false
set_option relaxedAutoImplicit false

namespace MarketFeed.Endpoint

open Text

/-- A granularity is named that is not daily, in letters of any case. -/
def IsFiner (value : List Char) : Prop := value ≠ [] ∧ value.map Char.toLower ≠ "daily".toList

instance : DecidablePred IsFiner := fun _ => inferInstanceAs (Decidable (_ ∧ _))

theorem isFiner_encodeText (s : String) : IsFiner (encodeText s) ↔ IsFiner s.toList := by
  have daily : ∀ c ∈ "daily".toList, Percent.isPlain c = true := List.all_eq_true.mp (by decide)
  have empty : encodeText s = [] ↔ s.toList = [] :=
    ⟨fun none => Percent.encode_injective (t := []) none, fun none => congrArg Percent.encode none⟩
  rw [IsFiner, IsFiner, Ne, Ne, empty, encodeText, Ne, Ne, Percent.map_toLower_encode_iff daily]

/-! ### The first pair of a name -/

section First

variable {name : List Char} {params pairs : List QueryPair}

theorem find?_overrideAll_of_param {value : List Char}
    (one : params.filter (fun p => p.1 = name) = [(name, value)]) :
    (overrideAll params pairs).find? (fun p => p.1 = name) = some (name, value) := by
  rw [← List.head?_filter, filter_overrideAll (fun k => k = name), one]
  show (overridePair name value _).head? = _
  cases own : pairs.filter fun p => p.1 = name with
  | nil => rfl
  | cons p rest =>
    have here : p ∈ pairs.filter fun p => p.1 = name := own ▸ List.mem_cons_self
    rw [overridePair, if_pos (of_decide_eq_true (List.mem_filter.mp here).2),
      of_decide_eq_true (List.mem_filter.mp here).2]
    rfl

theorem find?_overrideAll_of_no_param (none : params.filter (fun p => p.1 = name) = []) :
    (overrideAll params pairs).find? (fun p => p.1 = name) = pairs.find? fun p => p.1 = name := by
  rw [← List.head?_filter, filter_overrideAll (fun k => k = name), none, ← List.head?_filter]
  rfl

theorem find?_replacePair {pat : List Char} (filled : pat ≠ [])
    (plain : ∀ p ∈ pairs, occurs pat p.1 = false ∧ (p.1 = name → occurs pat p.2 = false))
    (sub : List Char) :
    (pairs.map (replacePair pat sub)).find? (fun p => p.1 = name) = pairs.find? fun p => p.1 = name := by
  rw [map_replacePair filled fun p member => (plain p member).1, List.find?_map]
  show (pairs.find? fun p => p.1 = name).map _ = _
  cases found : pairs.find? fun p => p.1 = name with
  | none => rfl
  | some p =>
    have named : p.1 = name := by simpa using List.find?_some found
    have kept := (plain p (List.mem_of_find?_eq_some found)).2 named
    rw [Option.map_some, replace_of_not_occurs filled kept]

end First

theorem Locator.isFine_iff (l : Locator) :
    l.isFine = true ↔ ∃ value, l.interval? = some value ∧ IsFiner value := by
  rw [isFine]
  cases l.interval? with
  | none => simp
  | some value => simp [IsFiner]

/-- **An address tells whether fine data is asked for.** Where an endpoint is accepted, its base has no
question mark, and its placeholder stands neither in the name of a pair nor in the value of a pair that
selects the granularity, the endpoint asks for fine data exactly if the first pair of that name in the
address for some identifiers, without a credential, has a value that is neither empty nor daily. -/
theorem isFine_iff_address {e : Endpoint} {l : Locator} (located : Locator.ofEndpoint e = .ok l)
    (off : '?' ∉ e.baseUrl.toList)
    (placed : ∀ p ∈ readPairs e.path.toList, occurs l.mark p.1 = false ∧
      (p.1 = Locator.intervalParam.toList → occurs l.mark p.2 = false))
    (ids : List String) (fits : l.mode = .single → ids.length = 1) (filled : joinIds ids ≠ []) :
    ∃ url, l.url ids none = .ok url ∧
      (l.isFine = true ↔ ∃ p,
        (readPairs url.toList).find? (fun p => p.1 = Locator.intervalParam.toList) = some p ∧
          IsFiner p.2) := by
  obtain ⟨rfl, path⟩ := Locator.of_ofEndpoint located
  have marked : l.mark ≠ [] := (seamless_placeholder l.mode).filled
  have read : l.rawParts.2 = readPairs l.endpoint.path.toList := by
    rw [Locator.rawParts, path, readPairs]
  have pairs : readPairs (l.render (joinIds ids) none).toList =
      overrideAll l.params ((readPairs l.endpoint.path.toList).map (replacePair l.mark (joinIds ids))) := by
    rw [(l.cutQuery_render (joinIds ids) none off).2, l.parts_eq (seamless_joinIds filled) none, read]
    exact List.append_nil _
  have own (key : String) : decide (encodeText key = Locator.intervalParam.toList) =
      decide (key = Locator.intervalParam) := by
    rw [decide_eq_decide, show Locator.intervalParam.toList = encodeText Locator.intervalParam by decide]
    exact ⟨encodeText_injective, congrArg encodeText⟩
  have params := l.filter_params Locator.intervalParam (fun k => k = Locator.intervalParam.toList) own
  refine ⟨_, Locator.url_eq_render fits none, ?_⟩
  rw [pairs, Locator.isFine_iff, Locator.interval?]
  cases fixed : l.endpoint.queryParams.get? Locator.intervalParam with
  | some value =>
    rw [fixed] at params
    rw [find?_overrideAll_of_param params]
    simp only [Option.some.injEq, exists_eq_left']
    exact (isFiner_encodeText value).symm
  | none =>
    rw [fixed] at params
    rw [find?_overrideAll_of_no_param params, find?_replacePair marked placed, path]
    show (∃ value, ((readPairs _).find? fun p => p.1 == _).map Prod.snd = some value ∧ _) ↔ _
    simp only [beq_eq_decide, Option.map_eq_some_iff, exists_exists_and_eq_and]

def refined : Endpoint :=
  { path := "/coins/{{id}}/chart?vs=usd&interval=Daily",
    queryParams := (∅ : Table String).insert "interval" "5m" }

theorem isFine_iff_address_refined :
    ∃ l, Locator.ofEndpoint refined = .ok l ∧ '?' ∉ refined.baseUrl.toList ∧
      (∀ p ∈ readPairs refined.path.toList, occurs l.mark p.1 = false ∧
        (p.1 = Locator.intervalParam.toList → occurs l.mark p.2 = false)) ∧
      l.isFine = true ∧ ∃ url, l.url ["bitcoin"] none = .ok url ∧
        ∃ p, (readPairs url.toList).find? (fun p => p.1 = Locator.intervalParam.toList) = some p ∧
          IsFiner p.2 := by
  have located : Locator.ofEndpoint refined = .ok ⟨refined, ⟨refined.path, .single⟩⟩ := rfl
  obtain ⟨url, here, iff⟩ :=
    isFine_iff_address located (by decide) (by decide) ["bitcoin"] (fun _ => rfl) (by decide)
  exact ⟨_, located, by decide, by decide, by decide, url, here, iff.mp (by decide)⟩

end MarketFeed.Endpoint
