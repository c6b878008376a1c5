import MarketFeed.Proofs.Endpoint.Identifiers
/-!
Identifiers stay where they are put. An address made for some identifiers has the segments and the pairs
of the path of the endpoint: what is put for the placeholder is cut neither at slashes nor at the
separators of a query. What is put can be cut at its commas and decoded into the identifiers again.
-/

set_option autoImplicit false
set_option relaxedAutoImplicit false

namespace MarketFeed.Endpoint

open Text

/-! ### What is put for the placeholder -/

theorem not_mem_joinIds (ids : List String) {c : Char} (special : Percent.isPlain c = false)
    (percent : c ≠ '%') (comma : c ≠ ',') : c ∉ joinIds ids := by
  intro written
  rcases mem_of_mem_joinWith written with here | ⟨part, member, inside⟩
  · exact comma (List.mem_singleton.mp here)
  · obtain ⟨id, -, rfl⟩ := List.mem_map.mp member
    exact not_mem_encodeText id special percent inside

theorem seamless_joinIds {ids : List String} (filled : joinIds ids ≠ []) : Seamless (joinIds ids) where
  filled := filled
  query := not_mem_joinIds ids rfl (by decide) (by decide)
  pair := not_mem_joinIds ids rfl (by decide) (by decide)
  value := not_mem_joinIds ids rfl (by decide) (by decide)
  slash := not_mem_joinIds ids rfl (by decide) (by decide)

theorem decode_pieces_joinIds {ids : List String} (filled : joinIds ids ≠ []) :
    (pieces ',' (joinIds ids)).map Percent.decode? = ids.map fun id => some id.toList := by
  have some_id : ids.map encodeText ≠ [] := by
    intro none
    rw [joinIds, none] at filled
    exact filled rfl
  have off : ∀ part ∈ ids.map encodeText, ',' ∉ part := by
    intro part member
    obtain ⟨id, -, rfl⟩ := List.mem_map.mp member
    exact not_mem_encodeText id rfl (by decide)
  rw [joinIds, pieces_joinWith some_id off, List.map_map]
  exact List.map_congr_left fun id _ => Percent.decode?_encode id.toList

/-! ### Where it is put -/

theorem length_pieces_joinUrl_replace {pat sub : List Char} (whole : Seamless pat) (whole' : Seamless sub)
    (base path : List Char) :
    (pieces '/' (joinUrl base (replace pat sub path))).length =
      (pieces '/' (joinUrl base path)).length := by
  have slashes : ∀ s, (replace pat sub s).count '/' = s.count '/' := by
    intro s
    have cut := congrArg List.length (pieces_replace whole.filled whole.slash whole'.slash s)
    rw [List.length_map, length_pieces, length_pieces] at cut
    exact Nat.succ.inj cut
  have filled : (replace pat sub (path.dropWhile (· == '/'))).isEmpty =
      (path.dropWhile (· == '/')).isEmpty := by
    rw [Bool.eq_iff_iff, List.isEmpty_iff, List.isEmpty_iff]
    exact replace_eq_nil_iff whole.filled whole'.filled
  have written : (writePath (replace pat sub path)).count '/' = (writePath path).count '/' := by
    rw [writePath, writePath, dropWhile_replace whole.filled whole'.filled whole.slash whole'.slash, filled]
    split
    · rfl
    · rw [List.count_cons_self, List.count_cons_self, slashes]
  rw [joinUrl_eq, joinUrl_eq, length_pieces, length_pieces, List.count_append, List.count_append, written]

theorem Template.raw_of_parse {raw : String} {expected : Option Mode} {t : Template}
    (accepted : parse raw expected = .ok t) : t.raw = raw := by
  rw [parse, check] at accepted
  split at accepted
  · cases accepted
  · split at accepted
    · cases accepted
      rfl
    · split at accepted
      · cases accepted
        rfl
      · cases accepted

theorem Locator.of_ofEndpoint {e : Endpoint} {l : Locator} (located : ofEndpoint e = .ok l) :
    l.endpoint = e ∧ l.template.raw = e.path := by
  rw [ofEndpoint] at located
  cases accepted : Template.parse e.path e.mode with
  | error fault =>
    rw [accepted] at located
    cases located
  | ok t =>
    rw [accepted] at located
    cases located
    exact ⟨rfl, Template.raw_of_parse accepted⟩

/-- **Identifiers cannot alter a request.** Where an endpoint is accepted and its placeholder stands in no
name of a pair, the address for some identifiers is the base and the path with the identifiers in it,
followed by the pairs of the path with the identifiers in their values, the fixed parameters, and the key
of the credential. So the number of segments and the names of the pairs are those of the endpoint. -/
theorem identifiers_stay_in_place {e : Endpoint} {l : Locator} (located : Locator.ofEndpoint e = .ok l)
    (placed : ∀ p ∈ readPairs e.path.toList, occurs l.mark p.1 = false) (ids : List String)
    (fits : l.mode = .single → ids.length = 1) (filled : joinIds ids ≠ [])
    (credential : Option Credential) :
    (∃ url path pairs, l.url ids credential = .ok url ∧
      url.toList = joinUrl (l.baseFor credential).toList path ++ writeQuery pairs ∧
      path = replace l.mark (joinIds ids) (cutQuery e.path.toList).1 ∧
      pairs = l.withParams ((readPairs e.path.toList).map fun p =>
        (p.1, replace l.mark (joinIds ids) p.2)) ++ l.keyPairs credential ∧
      (pieces '/' (joinUrl (l.baseFor credential).toList path)).length =
        (pieces '/' (joinUrl (l.baseFor credential).toList (cutQuery e.path.toList).1)).length ∧
      pairs.map Prod.fst = (l.withParams (readPairs e.path.toList) ++ l.keyPairs credential).map Prod.fst ∧
      ('?' ∉ (l.baseFor credential).toList →
        (cutQuery url.toList).1 = joinUrl (l.baseFor credential).toList path ∧
          readPairs url.toList = pairs)) ∧
    (∀ c ∈ ['/', '?', '&', '=', '#'], c ∉ joinIds ids) ∧
    (pieces ',' (joinIds ids)).map Percent.decode? = ids.map fun id => some id.toList := by
  have whole := seamless_joinIds filled
  have marked : Seamless l.mark := seamless_placeholder l.mode
  obtain ⟨-, raw⟩ := Locator.of_ofEndpoint located
  have read : l.rawParts = ((cutQuery e.path.toList).1, readPairs e.path.toList) := by
    rw [Locator.rawParts, raw, readPairs]
  have values := map_replacePair marked.filled placed (joinIds ids)
  have parts := l.parts_eq whole credential
  rw [read, values, ← l.withParams_eq] at parts
  constructor
  · refine ⟨_, _, _, Locator.url_eq_render fits credential, l.toList_render_eq _ credential, ?_⟩
    refine ⟨?_, ?_, ?_, ?_, ?_⟩
    · rw [parts]
    · rw [parts]
    · rw [parts]
      exact length_pieces_joinUrl_replace marked whole _ _
    · have names : ((readPairs e.path.toList).map fun p => (p.1, replace l.mark (joinIds ids) p.2)).map
          Prod.fst = (readPairs e.path.toList).map Prod.fst := by
        rw [List.map_map]
        rfl
      rw [parts, List.map_append, List.map_append, l.withParams_eq, l.withParams_eq,
        names_overrideAll names]
    · exact l.cutQuery_render (joinIds ids) credential
  · refine ⟨fun c cuts => ?_, decode_pieces_joinIds filled⟩
    simp only [List.mem_cons, List.not_mem_nil, or_false] at cuts
    rcases cuts with rfl | rfl | rfl | rfl | rfl
    all_goals exact not_mem_joinIds ids rfl (by decide) (by decide)

def charts : Endpoint :=
  { path := "/c/\x7b\x7bids_list\x7d\x7d/chart?vs=usd&of=\x7b\x7bids_list\x7d\x7d",
    queryParams := (∅ : Table String).insert "vs" "eur" }

theorem identifiers_stay_in_place_charts :
    ∃ l, Locator.ofEndpoint charts = .ok l ∧
      (∀ p ∈ readPairs charts.path.toList, occurs l.mark p.1 = false) ∧
      joinIds ["a/b", "c&d=e"] = "a%2Fb,c%26d%3De".toList ∧
      ∃ url, l.url ["a/b", "c&d=e"] (some ⟨"k", .demo⟩) = .ok url ∧
        (cutQuery url.toList).1 = "https://api.coingecko.com/api/v3/c/a%2Fb,c%26d%3De/chart".toList ∧
        readPairs url.toList = [("vs".toList, "eur".toList), ("of".toList, "a%2Fb,c%26d%3De".toList),
          ("x_cg_demo_api_key".toList, "k".toList)] := by
  refine ⟨⟨charts, ⟨charts.path, .batch⟩⟩, rfl, by decide, by decide, ?_⟩
  obtain ⟨⟨url, path, pairs, here, -, stands, paired, -, -, read⟩, -⟩ :=
    identifiers_stay_in_place (e := charts) (l := ⟨charts, ⟨charts.path, .batch⟩⟩) rfl (by decide)
      ["a/b", "c&d=e"] nofun (by decide) (some ⟨"k", .demo⟩)
  obtain ⟨front, back⟩ := read (by decide)
  refine ⟨url, here, ?_, ?_⟩
  · rw [front, stands]
    decide +kernel
  · rw [back, paired]
    decide +kernel

end MarketFeed.Endpoint
