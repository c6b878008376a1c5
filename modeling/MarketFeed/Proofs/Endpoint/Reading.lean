import MarketFeed.Endpoint.Locator
import MarketFeed.Proofs.Text.Cutting
import MarketFeed.Proofs.Text.Percent
/-!
Reading an address back. Behind the base its path ends at the first question mark, its pairs end at
ampersands and their names at equals signs, so an address tells its path, but for slashes in front, and
its pairs. Encoded texts have none of these characters.
-/

set_option autoImplicit false
set_option relaxedAutoImplicit false

namespace MarketFeed.Endpoint

open Text

/-! ### Texts that are not cut -/

/-- A text that is not empty and has none of the characters at which an address is cut. -/
structure Seamless (s : List Char) : Prop where
  filled : s ≠ []
  query : '?' ∉ s
  pair : '&' ∉ s
  value : '=' ∉ s
  slash : '/' ∉ s

theorem seamless_placeholder (mode : Mode) : Seamless mode.placeholder.toList := by
  cases mode <;> constructor <;> decide

theorem not_mem_encodeText (s : String) {c : Char} (special : Percent.isPlain c = false)
    (other : c ≠ '%') : c ∉ encodeText s := by
  intro written
  rcases Percent.plain_of_mem_encode written with plain | percent
  · rw [special] at plain
    cases plain
  · exact other percent

theorem seamless_encodeText {s : String} (filled : s ≠ "") : Seamless (encodeText s) where
  filled := Percent.encode_ne_nil fun empty => filled (String.toList_inj.mp empty)
  query := not_mem_encodeText s rfl (by decide)
  pair := not_mem_encodeText s rfl (by decide)
  value := not_mem_encodeText s rfl (by decide)
  slash := not_mem_encodeText s rfl (by decide)

theorem encodeText_injective {s t : String} (same : encodeText s = encodeText t) : s = t :=
  String.toList_inj.mp (Percent.encode_injective same)

/-! ### Pairs -/

/-- A pair that can be told in a query: no ampersand in it, and no equals sign in its name. -/
structure Clear (p : QueryPair) : Prop where
  value : '=' ∉ p.1
  first : '&' ∉ p.1
  second : '&' ∉ p.2

theorem clear_encodeText (name value : String) : Clear (encodeText name, encodeText value) where
  value := not_mem_encodeText name rfl (by decide)
  first := not_mem_encodeText name rfl (by decide)
  second := not_mem_encodeText value rfl (by decide)

theorem clear_queryPairs {query : List Char} : ∀ p ∈ queryPairs query, Clear p := by
  intro p member
  obtain ⟨piece, kept, rfl⟩ := List.mem_map.mp member
  have off : '&' ∉ piece := not_mem_of_mem_pieces (List.mem_filter.mp kept).1
  cases cut : splitOnce '=' piece with
  | none => exact ⟨splitOnce_eq_none_iff.mp cut, off, List.not_mem_nil⟩
  | some parts =>
    obtain ⟨whole, front⟩ := splitOnce_eq_some_iff.mp cut
    rw [whole, List.mem_append, List.mem_cons, not_or, not_or] at off
    exact ⟨front, off.1, off.2.2⟩

theorem not_mem_writePair {p : QueryPair} (clear : Clear p) : '&' ∉ writePair p := by
  rw [writePair, List.mem_append, List.mem_cons, not_or, not_or]
  exact ⟨clear.first, by decide, clear.second⟩

theorem splitOnce_writePair {p : QueryPair} (clear : Clear p) :
    splitOnce '=' (writePair p) = some p :=
  splitOnce_eq_some_iff.mpr ⟨rfl, clear.value⟩

/-! ### Addresses -/

def writePath (path : List Char) : List Char :=
  if (path.dropWhile (· == '/')).isEmpty then [] else '/' :: path.dropWhile (· == '/')

def writeQuery (pairs : List QueryPair) : List Char :=
  if pairs.isEmpty then [] else '?' :: joinWith ['&'] (pairs.map writePair)

/-- The pairs that are read in an address. -/
def readPairs (url : List Char) : List QueryPair := ((cutQuery url).2.map queryPairs).getD []

theorem writePath_eq_iff {path path' : List Char} :
    writePath path = writePath path' ↔
      path.dropWhile (· == '/') = path'.dropWhile (· == '/') := by
  rw [writePath, writePath]
  cases path.dropWhile (· == '/') <;> cases path'.dropWhile (· == '/') <;> simp

theorem not_mem_writePath {path : List Char} (off : '?' ∉ path) : '?' ∉ writePath path := by
  have off' : '?' ∉ path.dropWhile (· == '/') := fun member => off (List.dropWhile_subset _ member)
  rw [writePath]
  split
  · exact List.not_mem_nil
  · rw [List.mem_cons, not_or]
    exact ⟨by decide, off'⟩

theorem queryPairs_joinWith {pairs : List QueryPair} (clear : ∀ p ∈ pairs, Clear p) :
    queryPairs (joinWith ['&'] (pairs.map writePair)) = pairs := by
  cases pairs with
  | nil => rfl
  | cons p rest =>
    have off : ∀ part ∈ (p :: rest).map writePair, '&' ∉ part := by
      intro part written
      obtain ⟨q, member, rfl⟩ := List.mem_map.mp written
      exact not_mem_writePair (clear q member)
    have filled : ∀ part ∈ (p :: rest).map writePair, (!part.isEmpty) = true := by
      intro part written
      obtain ⟨⟨name, value⟩, -, rfl⟩ := List.mem_map.mp written
      cases name <;> rfl
    have back : ∀ q ∈ p :: rest, (splitOnce '=' (writePair q)).getD (writePair q, []) = id q := by
      intro q member
      rw [splitOnce_writePair (clear q member)]
      rfl
    rw [queryPairs, pieces_joinWith (by simp) off, List.filter_eq_self.mpr filled, List.map_map]
    exact (List.map_congr_left back).trans (List.map_id _)

theorem cutQuery_append_writeQuery {front : List Char} {pairs : List QueryPair} (off : '?' ∉ front)
    (clear : ∀ p ∈ pairs, Clear p) :
    (cutQuery (front ++ writeQuery pairs)).1 = front ∧ readPairs (front ++ writeQuery pairs) = pairs := by
  cases pairs with
  | nil =>
    have uncut : splitOnce '?' (front ++ writeQuery []) = none := by
      rw [show front ++ writeQuery [] = front from List.append_nil front]
      exact splitOnce_eq_none_iff.mpr off
    rw [readPairs, cutQuery, uncut]
    exact ⟨List.append_nil front, rfl⟩
  | cons p rest =>
    have cut : splitOnce '?' (front ++ writeQuery (p :: rest)) =
        some (front, joinWith ['&'] ((p :: rest).map writePair)) :=
      splitOnce_eq_some_iff.mpr ⟨rfl, off⟩
    rw [readPairs, cutQuery, cut]
    exact ⟨rfl, queryPairs_joinWith clear⟩

/-- A path and pairs can be read back from what stands behind the base. -/
theorem writePath_append_writeQuery_eq_iff {path path' : List Char} {pairs pairs' : List QueryPair}
    (off : '?' ∉ path) (off' : '?' ∉ path') (clear : ∀ p ∈ pairs, Clear p)
    (clear' : ∀ p ∈ pairs', Clear p) :
    writePath path ++ writeQuery pairs = writePath path' ++ writeQuery pairs' ↔
      path.dropWhile (· == '/') = path'.dropWhile (· == '/') ∧ pairs = pairs' := by
  constructor
  · intro same
    obtain ⟨front, back⟩ := cutQuery_append_writeQuery (not_mem_writePath off) clear
    obtain ⟨front', back'⟩ := cutQuery_append_writeQuery (not_mem_writePath off') clear'
    rw [same] at front back
    exact ⟨writePath_eq_iff.mp (front.symm.trans front'), back.symm.trans back'⟩
  · rintro ⟨paths, rfl⟩
    rw [writePath_eq_iff.mpr paths]

theorem joinUrl_eq (base path : List Char) :
    joinUrl base path = (base.reverse.dropWhile (· == '/')).reverse ++ writePath path := by
  rw [joinUrl, writePath]
  split
  · exact (List.append_nil _).symm
  · rfl

theorem not_mem_joinUrl {base path : List Char} (off : '?' ∉ base) (off' : '?' ∉ path) :
    '?' ∉ joinUrl base path := by
  have trimmed : '?' ∉ (base.reverse.dropWhile (· == '/')).reverse := by
    intro member
    exact off (List.mem_reverse.mp (List.dropWhile_subset _ (List.mem_reverse.mp member)))
  rw [joinUrl_eq, List.mem_append, not_or]
  exact ⟨trimmed, not_mem_writePath off'⟩

namespace Locator

theorem toList_render_eq (l : Locator) (sub : List Char) (credential : Option Credential) :
    (l.render sub credential).toList =
      joinUrl (l.baseFor credential).toList (l.parts sub credential).1 ++
        writeQuery (l.parts sub credential).2 := by
  rw [render, writeQuery]
  split
  · rw [String.toList_ofList, List.append_nil]
  · rw [String.toList_ofList]

/-- The base of the addresses with a credential, without slashes at its end. -/
def base (l : Locator) (credential : Option Credential) : List Char :=
  ((l.baseFor credential).toList.reverse.dropWhile (· == '/')).reverse

theorem toList_render (l : Locator) (sub : List Char) (credential : Option Credential) :
    (l.render sub credential).toList =
      l.base credential ++ (writePath (l.parts sub credential).1 ++
        writeQuery (l.parts sub credential).2) := by
  rw [toList_render_eq, joinUrl_eq, List.append_assoc]
  rfl

end Locator

end MarketFeed.Endpoint
