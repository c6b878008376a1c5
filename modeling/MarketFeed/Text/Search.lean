/-!
Finding, replacing and cutting. A pattern occurs where the text goes on with it. Replacing runs
from the left, and what it has replaced is not read again.
-/

set_option autoImplicit false
set_option relaxedAutoImplicit false

namespace MarketFeed.Text

def occurs (pat : List Char) : List Char → Bool
  | [] => pat.isEmpty
  | c :: s => pat.isPrefixOf (c :: s) || occurs pat s

/-- Puts `sub` for each occurrence of `pat`; the first `skip` characters belong to the last one. -/
def replaceFrom (pat sub : List Char) : Nat → List Char → List Char
  | _, [] => []
  | 0, c :: s =>
    if pat.isPrefixOf (c :: s) then sub ++ replaceFrom pat sub (pat.length - 1) s
    else c :: replaceFrom pat sub 0 s
  | skip + 1, _ :: s => replaceFrom pat sub skip s

/-- Puts `sub` for each occurrence of a pattern that is not empty, from the left. -/
def replace (pat sub s : List Char) : List Char := replaceFrom pat sub 0 s

/-- The text before and after the first `sep`, if there is one. -/
def splitOnce (sep : Char) : List Char → Option (List Char × List Char)
  | [] => none
  | c :: s =>
    if c = sep then some ([], s)
    else (splitOnce sep s).map fun parts => (c :: parts.1, parts.2)

/-- The stretches between the separators, one more than there are separators. -/
def pieces (sep : Char) : List Char → List (List Char)
  | [] => [[]]
  | c :: s =>
    if c = sep then [] :: pieces sep s
    else match pieces sep s with
      | [] => [[c]]
      | first :: rest => (c :: first) :: rest

def joinWith (sep : List Char) : List (List Char) → List Char
  | [] => []
  | [s] => s
  | s :: rest => s ++ sep ++ joinWith sep rest

theorem pieces_ne_nil (sep : Char) (s : List Char) : pieces sep s ≠ [] := by
  cases s with
  | nil => simp [pieces]
  | cons c s =>
    rw [pieces]
    split
    · simp
    · split <;> simp

theorem joinWith_pieces (sep : Char) (s : List Char) : joinWith [sep] (pieces sep s) = s := by
  induction s with
  | nil => rfl
  | cons c s ih =>
    rw [pieces]
    split
    next h =>
      cases hp : pieces sep s with
      | nil => exact absurd hp (pieces_ne_nil sep s)
      | cons first rest => rw [hp] at ih; simp [joinWith, ih, h]
    next h =>
      cases hp : pieces sep s with
      | nil => exact absurd hp (pieces_ne_nil sep s)
      | cons first rest =>
        rw [hp] at ih
        cases rest with
        | nil => simpa [joinWith] using ih
        | cons second rest => simpa [joinWith] using ih

end MarketFeed.Text
