import Mathlib.Logic.Basic
import MarketFeed.Proofs.Endpoint.Addresses
import MarketFeed.Proofs.Endpoint.Parameters
import MarketFeed.Proofs.Endpoint.Reading
import MarketFeed.Proofs.FeedConfig.Acceptance
import MarketFeed.Proofs.Text.Replacing
/-!
Which identifiers an address tells apart. What is put for the placeholder is not cut when the address
is, so it stands in the path, in the names and in the values where the placeholder stands in the path
of the endpoint. The addresses of two identifiers differ, unless the placeholder stands only in values
that fixed parameters replace.
-/

set_option autoImplicit false
set_option relaxedAutoImplicit false

namespace MarketFeed.Endpoint

open Text

/-! ### Cutting after replacing -/

variable {pat sub : List Char}

/-- A pair with a text put for each occurrence of a pattern. -/
def replacePair (pat sub : List Char) (p : QueryPair) : QueryPair :=
  (replace pat sub p.1, replace pat sub p.2)

theorem map_replacePair {pairs : List QueryPair} (filled : pat ≠ [])
    (plain : ∀ p ∈ pairs, occurs pat p.1 = false) (sub : List Char) :
    pairs.map (replacePair pat sub) = pairs.map fun p => (p.1, replace pat sub p.2) := by
  refine List.map_congr_left fun p member => ?_
  rw [replacePair, replace_of_not_occurs filled (plain p member)]

theorem cutQuery_replace (whole : Seamless pat) (whole' : Seamless sub) (s : List Char) :
    cutQuery (replace pat sub s) =
      (replace pat sub (cutQuery s).1, (cutQuery s).2.map (replace pat sub)) := by
  rw [cutQuery, cutQuery, splitOnce_replace whole.filled whole.query whole'.query]
  cases splitOnce '?' s <;> rfl

theorem queryPairs_replace (whole : Seamless pat) (whole' : Seamless sub) (query : List Char) :
    queryPairs (replace pat sub query) = (queryPairs query).map (replacePair pat sub) := by
  have filled : ∀ piece, (replace pat sub piece).isEmpty = piece.isEmpty := by
    intro piece
    rw [Bool.eq_iff_iff, List.isEmpty_iff, List.isEmpty_iff]
    exact replace_eq_nil_iff whole.filled whole'.filled
  have pair : ∀ piece, (splitOnce '=' (replace pat sub piece)).getD (replace pat sub piece, []) =
      replacePair pat sub ((splitOnce '=' piece).getD (piece, [])) := by
    intro piece
    rw [splitOnce_replace whole.filled whole.value whole'.value]
    cases splitOnce '=' piece <;> rfl
  rw [queryPairs, queryPairs, pieces_replace whole.filled whole.pair whole'.pair, List.filter_map,
    List.map_map, List.map_map]
  simp only [Function.comp_def, filled, pair]

namespace Locator

variable (l : Locator)

def mark : List Char := l.mode.placeholder.toList

def rawParts : List Char × List QueryPair :=
  let cut := cutQuery l.template.raw.toList
  (cut.1, (cut.2.map queryPairs).getD [])

def params : List QueryPair :=
  l.endpoint.queryParams.entries.map fun p => (encodeText p.1, encodeText p.2)

theorem withParams_eq (pairs : List QueryPair) : l.withParams pairs = overrideAll l.params pairs := by
  rw [withParams, overrideAll, params, List.foldl_map]

theorem parts_eq (whole : Seamless sub) (credential : Option Credential) :
    l.parts sub credential = (replace l.mark sub l.rawParts.1,
      overrideAll l.params (l.rawParts.2.map (replacePair l.mark sub)) ++ l.keyPairs credential) := by
  have marked : Seamless l.mark := seamless_placeholder l.mode
  have pairs : (((cutQuery l.template.raw.toList).2.map (replace l.mark sub)).map queryPairs).getD [] =
      l.rawParts.2.map (replacePair l.mark sub) := by
    rw [rawParts]
    cases (cutQuery l.template.raw.toList).2 with
    | none => rfl
    | some query => exact queryPairs_replace marked whole query
  rw [parts, ← mark, cutQuery_replace marked whole, withParams_eq, pairs]
  rfl

theorem clear_keyPairs (credential : Option Credential) :
    ∀ p ∈ l.keyPairs credential, Clear p := by
  intro p member
  rw [keyPairs.eq_def] at member
  split at member
  · cases member
  · split at member
    · cases member
    · rw [List.mem_singleton.mp member]
      exact clear_encodeText _ _

theorem clear_parts (sub : List Char) (credential : Option Credential) :
    ∀ p ∈ (l.parts sub credential).2, Clear p := by
  intro p member
  rw [parts, withParams_eq] at member
  rcases List.mem_append.mp member with own | key
  · refine forall_overrideAll (fun p given => ?_) (fun p written => ?_) p own
    · obtain ⟨q, -, rfl⟩ := List.mem_map.mp given
      exact clear_encodeText _ _
    · revert written
      cases (cutQuery (replace l.mode.placeholder.toList sub l.template.raw.toList)).2 with
      | none => nofun
      | some query => exact clear_queryPairs p
  · exact l.clear_keyPairs credential p key

theorem not_mem_parts (sub : List Char) (credential : Option Credential) :
    '?' ∉ (l.parts sub credential).1 := by
  show '?' ∉ (cutQuery (replace l.mode.placeholder.toList sub l.template.raw.toList)).1
  rw [cutQuery]
  split
  next path query cut => exact (splitOnce_eq_some_iff.mp cut).2
  next uncut => exact splitOnce_eq_none_iff.mp uncut

theorem cutQuery_render (sub : List Char) (credential : Option Credential)
    (off : '?' ∉ (l.baseFor credential).toList) :
    (cutQuery (l.render sub credential).toList).1 =
        joinUrl (l.baseFor credential).toList (l.parts sub credential).1 ∧
      readPairs (l.render sub credential).toList = (l.parts sub credential).2 := by
  rw [toList_render_eq]
  exact cutQuery_append_writeQuery (not_mem_joinUrl off (l.not_mem_parts sub credential))
    (l.clear_parts sub credential)

/-- Two addresses with one credential are the same exactly if their paths, but for slashes in front, and
their pairs are. -/
theorem render_eq_iff (sub sub' : List Char) (credential : Option Credential) :
    l.render sub credential = l.render sub' credential ↔
      (l.parts sub credential).1.dropWhile (· == '/') =
          (l.parts sub' credential).1.dropWhile (· == '/') ∧
        (l.parts sub credential).2 = (l.parts sub' credential).2 := by
  rw [← String.toList_inj, toList_render, toList_render, List.append_cancel_left_eq]
  exact writePath_append_writeQuery_eq_iff (l.not_mem_parts sub credential)
    (l.not_mem_parts sub' credential) (l.clear_parts sub credential) (l.clear_parts sub' credential)

/-! ### Where identifiers show -/

/-- The placeholder stands in the path, in the name of a pair, or in a value that no fixed parameter
replaces. -/
def Shows : Prop :=
  occurs l.mark l.rawParts.1 = true ∨ (∃ p ∈ l.rawParts.2, occurs l.mark p.1 = true) ∨
    ∃ value ∈ keptValues (l.params.map Prod.fst) l.rawParts.2, occurs l.mark value = true

instance : Decidable l.Shows := inferInstanceAs (Decidable (_ ∨ _ ∨ _))

variable {l}

/-- Pairs with different texts for the placeholder become the same exactly if it stands in no name and in
no value that is kept. -/
theorem overrideAll_replacePair_eq_iff {sub' : List Char} (other : sub ≠ sub')
    (pairs : List QueryPair) :
    overrideAll l.params (pairs.map (replacePair l.mark sub)) =
        overrideAll l.params (pairs.map (replacePair l.mark sub')) ↔
      (∀ p ∈ pairs, occurs l.mark p.1 = false) ∧
        ∀ value ∈ keptValues (l.params.map Prod.fst) pairs, occurs l.mark value = false := by
  have filled : l.mark ≠ [] := (seamless_placeholder l.mode).filled
  have values : (∀ p ∈ pairs, occurs l.mark p.1 = false) →
      (overrideAll l.params (pairs.map (replacePair l.mark sub)) =
          overrideAll l.params (pairs.map (replacePair l.mark sub')) ↔
        ∀ value ∈ keptValues (l.params.map Prod.fst) pairs, occurs l.mark value = false) := by
    intro plain
    rw [map_replacePair filled plain, map_replacePair filled plain,
      overrideAll_eq_iff (by simp only [List.map_map, Function.comp_def]), keptValues_map, keptValues_map,
      List.map_inj_left]
    simp only [replace_eq_iff filled other]
  constructor
  · intro same
    have names : (pairs.map (replacePair l.mark sub)).map Prod.fst =
        (pairs.map (replacePair l.mark sub')).map Prod.fst := by
      have front := names_prefix_overrideAll l.params (pairs.map (replacePair l.mark sub))
      have front' := names_prefix_overrideAll l.params (pairs.map (replacePair l.mark sub'))
      rw [same] at front
      refine (List.prefix_of_prefix_length_le front front' ?_).eq_of_length ?_ <;>
        simp only [List.length_map, Nat.le_refl]
    have plain : ∀ p ∈ pairs, occurs l.mark p.1 = false := by
      intro p member
      rw [List.map_map, List.map_map, List.map_inj_left] at names
      exact (replace_eq_iff filled other).mp (names p member)
    exact ⟨plain, (values plain).mp same⟩
  · rintro ⟨plain, hidden⟩
    exact (values plain).mpr hidden

theorem render_ne_iff {sub' : List Char} (whole : Seamless sub) (whole' : Seamless sub')
    (other : sub ≠ sub') (credential : Option Credential) :
    l.render sub credential ≠ l.render sub' credential ↔ l.Shows := by
  have marked : Seamless l.mark := seamless_placeholder l.mode
  have paths : (replace l.mark sub l.rawParts.1).dropWhile (· == '/') =
        (replace l.mark sub' l.rawParts.1).dropWhile (· == '/') ↔
      occurs l.mark l.rawParts.1 = false := by
    rw [dropWhile_replace marked.filled whole.filled marked.slash whole.slash,
      dropWhile_replace marked.filled whole'.filled marked.slash whole'.slash,
      replace_eq_iff marked.filled other, occurs_dropWhile marked.filled marked.slash]
  rw [Ne, render_eq_iff, parts_eq l whole, parts_eq l whole', List.append_cancel_right_eq, paths,
    overrideAll_replacePair_eq_iff other, Shows]
  simp only [not_and_or, not_forall, Bool.not_eq_false, exists_prop]

end Locator

/-- **Addresses tell identifiers apart where these show.** An accepted configuration has an address for
each identifier, with every credential and with none, and the addresses of two different identifiers
differ exactly if the placeholder stands in the path, in the name of a query pair, or in the value of a
pair that no fixed parameter replaces. -/
theorem addresses_differ_iff {c : FeedConfig} (accepted : c.validate = .ok ()) :
    ∃ l, Locator.ofEndpoint c.endpoint = .ok l ∧
      ∀ credential a b, a ≠ "" → b ≠ "" → a ≠ b →
        ∃ first second, l.url [a] credential = .ok first ∧ l.url [b] credential = .ok second ∧
          (first ≠ second ↔ l.Shows) := by
  obtain ⟨l, located⟩ := (FeedConfig.validate_eq_ok_iff.mp accepted).located
  refine ⟨l, located, fun credential a b filled filled' other => ?_⟩
  refine ⟨_, _, l.url_singleton a credential, l.url_singleton b credential, ?_⟩
  exact Locator.render_ne_iff (seamless_encodeText filled) (seamless_encodeText filled')
    (fun same => other (encodeText_injective same)) credential

theorem addresses_differ_iff_prices :
    FeedConfig.prices.validate = .ok () ∧ ∃ l, Locator.ofEndpoint FeedConfig.prices.endpoint = .ok l ∧
      ∃ first second, l.url ["bitcoin"] none = .ok first ∧ l.url ["ethereum"] none = .ok second ∧
        first ≠ second := by
  obtain ⟨l, located, apart⟩ := addresses_differ_iff FeedConfig.prices_accepted
  obtain ⟨first, second, here, there, iff⟩ :=
    apart none "bitcoin" "ethereum" (by decide) (by decide) (by decide)
  cases located
  exact ⟨FeedConfig.prices_accepted, _, rfl, first, second, here, there, iff.mpr (by decide)⟩

def shadowed : FeedConfig :=
  { FeedConfig.prices with endpoint := FeedConfig.prices.endpoint.withQueryParam "ids" "bitcoin" }

/-- Addresses do not always tell identifiers apart: a fixed parameter can stand for all of them. -/
theorem addresses_alike_shadowed :
    shadowed.validate = .ok () ∧ "bitcoin" ≠ "ethereum" ∧
      ∃ l, Locator.ofEndpoint shadowed.endpoint = .ok l ∧
        ∃ url, l.url ["bitcoin"] none = .ok url ∧ l.url ["ethereum"] none = .ok url :=
  ⟨rfl, by decide, _, rfl, _, rfl, rfl⟩

end MarketFeed.Endpoint
