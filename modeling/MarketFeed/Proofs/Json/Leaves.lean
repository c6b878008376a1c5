import MarketFeed.Proofs.Json.Grammar
/-!
Reading the leaves of documents: blanks, the pieces between quotes, and numbers. What a reader takes
from the front of a text is what the grammar says, and what the grammar says is taken. A number is
read as far as it goes, so for the latter the text must not go on with a character of numbers.
-/

set_option autoImplicit false
set_option relaxedAutoImplicit false

namespace MarketFeed.Json

/-! ### Blanks -/

theorem isSpace_iff (c : Char) : isSpace c = true ↔ c ∈ [' ', '\t', '\n', '\r'] := by
  simp only [isSpace, Bool.or_eq_true, beq_iff_eq, List.mem_cons, List.not_mem_nil, or_false, or_assoc]

theorem skipSpace_blank {b : List Char} (blank : Blank b) (s : List Char) :
    skipSpace (b ++ s) = skipSpace s := by
  induction b with
  | nil => rfl
  | cons c b ih =>
    have space : isSpace c = true := (isSpace_iff c).mpr (blank c List.mem_cons_self)
    rw [List.cons_append, skipSpace, List.dropWhile_cons_of_pos space]
    exact ih fun c member => blank c (List.mem_cons_of_mem _ member)

theorem skipSpace_cons {c : Char} (solid : isSpace c = false) (s : List Char) :
    skipSpace (c :: s) = c :: s := by
  rw [skipSpace, List.dropWhile_cons_of_neg (by rw [solid]; decide)]

theorem exists_skipSpace (s : List Char) : ∃ b, Blank b ∧ s = b ++ skipSpace s := by
  refine ⟨s.takeWhile isSpace, fun c member => ?_, List.takeWhile_append_dropWhile.symm⟩
  exact (isSpace_iff c).mp (List.all_eq_true.mp List.all_takeWhile c member)

/-! ### Pieces -/

theorem shortEscape?_eq_some {e c : Char} :
    shortEscape? e = some c ↔ (e, c) ∈ shortEscapes := by
  constructor
  · intro escape
    rw [shortEscape?] at escape
    simp only [Bool.or_eq_true, beq_iff_eq, or_assoc] at escape
    split at escape
    · rename_i itself
      cases escape
      rcases itself with rfl | rfl | rfl <;> decide
    · repeat' split at escape
      all_goals first
        | cases escape
          rename_i letter
          cases letter
          decide
        | cases escape
  · intro listed
    simp only [shortEscapes, List.mem_cons, Prod.mk.injEq, List.not_mem_nil, or_false] at listed
    rcases listed with ⟨rfl, rfl⟩ | ⟨rfl, rfl⟩ | ⟨rfl, rfl⟩ | ⟨rfl, rfl⟩ | ⟨rfl, rfl⟩ | ⟨rfl, rfl⟩ |
      ⟨rfl, rfl⟩ | ⟨rfl, rfl⟩ <;> rfl

theorem hexUnit?_eq_some {a b c d : Char} {code : Nat} (unit : hexUnit? a b c d = some code) :
    WritesPiece ['\\', 'u', a, b, c, d] (.unit code) := by
  simp only [hexUnit?, Option.bind_eq_bind, Option.bind_eq_some_iff, Option.pure_def,
    Option.some.injEq] at unit
  obtain ⟨w, first, x, second, y, third, z, fourth, rfl⟩ := unit
  exact .unit first second third fourth

private theorem pieces_cons {s rest rest' : List Char} {p : Piece} {acc ps : List Piece}
    (here : WritesPiece s p)
    (later : ∃ k ps', rest' = k ++ '"' :: rest ∧ WritesPieces k ps' ∧ ps = (p :: acc).reverse ++ ps') :
    ∃ k ps', s ++ rest' = k ++ '"' :: rest ∧ WritesPieces k ps' ∧ ps = acc.reverse ++ ps' := by
  obtain ⟨k, ps', rfl, writes, rfl⟩ := later
  refine ⟨s ++ k, p :: ps', (List.append_assoc _ _ _).symm, .cons here writes, ?_⟩
  rw [List.reverse_cons, List.append_assoc]
  rfl

theorem readPieces_sound {s : List Char} {acc ps : List Piece} {rest : List Char}
    (read : readPieces acc s = some (ps, rest)) :
    ∃ k ps', s = k ++ '"' :: rest ∧ WritesPieces k ps' ∧ ps = acc.reverse ++ ps' := by
  fun_induction readPieces acc s with
  | case1 => cases read
  | case2 acc a b c d rest' code unit ih => exact pieces_cons (hexUnit?_eq_some unit) (ih read)
  | case3 => cases read
  | case4 acc e rest' _ c escape ih =>
    exact pieces_cons (.short (shortEscape?_eq_some.mp escape)) (ih read)
  | case5 => cases read
  | case6 acc c rest' _ _ quote =>
    cases read
    cases beq_iff_eq.mp quote
    exact ⟨[], [], rfl, .nil, (List.append_nil _).symm⟩
  | case7 => cases read
  | case8 acc c rest' _ _ quote visible ih =>
    rw [Bool.or_eq_true, beq_iff_eq, decide_eq_true_eq, not_or, Nat.not_lt] at visible
    exact pieces_cons (.plain (mt beq_iff_eq.mpr quote) visible.1 visible.2) (ih read)

theorem readPieces_quote (acc : List Piece) (t : List Char) :
    readPieces acc ('"' :: t) = some (acc.reverse, t) := by
  rw [readPieces]
  · rfl
  · nofun
  · nofun

theorem readPieces_cons {s : List Char} {p : Piece} (writes : WritesPiece s p) (acc : List Piece)
    (t : List Char) : readPieces acc (s ++ t) = readPieces (p :: acc) t := by
  cases writes with
  | @plain c quote escape visible =>
    show readPieces acc (c :: t) = _
    rw [readPieces]
    · have plain : (c == '\\' || decide (c.toNat < 0x20)) = false := by
        rw [beq_eq_false_iff_ne.mpr escape, decide_eq_false (Nat.not_lt.mpr visible)]
        rfl
      rw [beq_eq_false_iff_ne.mpr quote, plain]
      rfl
    · exact fun _ _ _ _ _ same => absurd same escape
    · exact fun _ _ same => absurd same escape
  | @short e c listed =>
    show readPieces acc ('\\' :: e :: t) = _
    rw [readPieces, shortEscape?_eq_some.mpr listed]
    rintro _ _ _ _ _ rfl
    revert listed
    simp [shortEscapes]
  | @unit a b c d w x y z first second third fourth =>
    have unit : hexUnit? a b c d = some (((w * 16 + x) * 16 + y) * 16 + z) := by
      rw [hexUnit?, first, second, third, fourth]
      rfl
    show readPieces acc ('\\' :: 'u' :: a :: b :: c :: d :: t) = _
    rw [readPieces, unit]

theorem readPieces_complete {k : List Char} {ps : List Piece} (writes : WritesPieces k ps)
    (acc : List Piece) (rest : List Char) :
    readPieces acc (k ++ '"' :: rest) = some (acc.reverse ++ ps, rest) := by
  induction writes generalizing acc with
  | nil =>
    rw [List.append_nil]
    exact readPieces_quote acc rest
  | cons here later ih =>
    rw [List.append_assoc, readPieces_cons here, ih, List.reverse_cons, List.append_assoc]
    rfl

/-! ### Numbers -/

def Stops (p : Char → Bool) (s : List Char) : Prop := ∀ c ∈ s.head?, p c = false

def inNumber (c : Char) : Bool := isDigit c || c == '.' || c == 'e' || c == 'E'

theorem isDigit_iff (c : Char) : isDigit c = true ↔ '0' ≤ c ∧ c ≤ '9' := by
  rw [isDigit, Bool.and_eq_true, decide_eq_true_eq, decide_eq_true_eq]

theorem readDigits_sound {s ds rest : List Char} (read : readDigits s = some (ds, rest)) :
    s = ds ++ rest ∧ Digits ds := by
  rw [readDigits] at read
  split at read
  · cases read
  · rename_i some
    cases read
    refine ⟨List.takeWhile_append_dropWhile.symm, ?_, fun c member => ?_⟩
    · exact fun none => some (List.isEmpty_iff.mpr none)
    · exact (isDigit_iff c).mp (List.all_eq_true.mp List.all_takeWhile c member)

private theorem readDigits_map_sound {α : Type} {g : List Char → α} {s rest : List Char} {a : α}
    (read : (readDigits s).map (fun r => (g r.1, r.2)) = some (a, rest)) :
    ∃ ds, s = ds ++ rest ∧ Digits ds ∧ a = g ds := by
  obtain ⟨⟨ds, rest'⟩, row, same⟩ := Option.map_eq_some_iff.mp read
  cases same
  obtain ⟨rfl, digits⟩ := readDigits_sound row
  exact ⟨ds, rfl, digits, rfl⟩

theorem readDigits_complete {ds rest : List Char} (digits : Digits ds) (stops : Stops isDigit rest) :
    readDigits (ds ++ rest) = some (ds, rest) := by
  have all : ∀ c ∈ ds, isDigit c = true := fun c member => (isDigit_iff c).mpr (digits.2 c member)
  have none_taken : rest.takeWhile isDigit = [] := by
    cases rest with
    | nil => rfl
    | cons c rest => rw [List.takeWhile_cons_of_neg (by rw [stops c rfl]; decide)]
  have none_dropped : rest.dropWhile isDigit = rest := by
    cases rest with
    | nil => rfl
    | cons c rest => rw [List.dropWhile_cons_of_neg (by rw [stops c rfl]; decide)]
  have some : ds.isEmpty = false := by
    rw [Bool.eq_false_iff, ne_eq, List.isEmpty_iff]
    exact digits.1
  rw [readDigits]
  simp only [List.takeWhile_append_of_pos all, List.dropWhile_append_of_pos all, none_taken, none_dropped,
    List.append_nil, some]
  rfl

theorem readWhole_sound {s ds rest : List Char} (read : readWhole s = some (ds, rest)) :
    s = ds ++ rest ∧ Whole ds := by
  rw [readWhole.eq_def] at read
  split at read
  · cases read
    exact ⟨rfl, .inl rfl⟩
  · rename_i other
    obtain ⟨rfl, digits⟩ := readDigits_sound read
    refine ⟨rfl, .inr ⟨digits, fun zero => ?_⟩⟩
    obtain ⟨ds', rfl⟩ := List.head?_eq_some_iff.mp zero
    exact other (ds' ++ rest) rfl

theorem readWhole_complete {ds rest : List Char} (whole : Whole ds) (stops : Stops isDigit rest) :
    readWhole (ds ++ rest) = some (ds, rest) := by
  rcases whole with rfl | ⟨digits, nonzero⟩
  · rfl
  · rw [readWhole.eq_def]
    split
    · rename_i rest' whole
      cases ds with
      | nil => exact absurd rfl digits.1
      | cons c ds =>
        cases whole
        exact absurd rfl nonzero
    · exact readDigits_complete digits stops

theorem readFraction_sound {s rest : List Char} {fraction : Option (List Char)}
    (read : readFraction s = some (fraction, rest)) :
    ∃ f, s = f ++ rest ∧ WritesFraction f fraction := by
  rw [readFraction.eq_def] at read
  split at read
  · obtain ⟨ds, rfl, digits, rfl⟩ := readDigits_map_sound read
    exact ⟨'.' :: ds, rfl, .some digits⟩
  · cases read
    exact ⟨[], rfl, .none⟩

theorem readFraction_complete {f rest : List Char} {fraction : Option (List Char)}
    (writes : WritesFraction f fraction) (stops : Stops isDigit rest) (point : Stops (· == '.') rest) :
    readFraction (f ++ rest) = some (fraction, rest) := by
  cases writes with
  | none =>
    rw [List.nil_append, readFraction.eq_def]
    split
    · have unpointed := point '.' rfl
      cases unpointed
    · rfl
  | some digits =>
    show (readDigits (_ ++ rest)).map _ = _
    rw [readDigits_complete digits stops]
    rfl

theorem readExponent_sound {s rest : List Char} {exponent : Option (Bool × List Char)}
    (read : readExponent s = some (exponent, rest)) :
    ∃ x, s = x ++ rest ∧ WritesExponent x exponent := by
  cases s with
  | nil =>
    cases read
    exact ⟨[], rfl, .none⟩
  | cons c s =>
    rw [readExponent.eq_def] at read
    dsimp only at read
    split at read
    · rename_i mark
      have marked : c = 'e' ∨ c = 'E' := by
        rwa [Bool.or_eq_true, beq_iff_eq, beq_iff_eq] at mark
      split at read
      · obtain ⟨ds, rfl, digits, rfl⟩ := readDigits_map_sound (g := fun ds => some (true, ds)) read
        exact ⟨c :: '-' :: ds, rfl, .minus marked digits⟩
      · obtain ⟨ds, rfl, digits, rfl⟩ := readDigits_map_sound (g := fun ds => some (false, ds)) read
        exact ⟨c :: '+' :: ds, rfl, .plus marked digits⟩
      · obtain ⟨ds, rfl, digits, rfl⟩ := readDigits_map_sound (g := fun ds => some (false, ds)) read
        exact ⟨c :: ds, rfl, .plain marked digits⟩
    · cases read
      exact ⟨[], rfl, .none⟩

theorem Stops.mono {p q : Char → Bool} {s : List Char} (stops : Stops p s)
    (weaker : ∀ c, p c = false → q c = false) : Stops q s :=
  fun c first => weaker c (stops c first)

theorem Stops.digits {s : List Char} (stops : Stops inNumber s) : Stops isDigit s :=
  stops.mono fun c other => by
    rw [inNumber, Bool.or_eq_false_iff, Bool.or_eq_false_iff, Bool.or_eq_false_iff] at other
    exact other.1.1.1

theorem readExponent_complete {x rest : List Char} {exponent : Option (Bool × List Char)}
    (writes : WritesExponent x exponent) (stops : Stops inNumber rest) :
    readExponent (x ++ rest) = some (exponent, rest) := by
  have marks : ∀ {mark : Char}, mark = 'e' ∨ mark = 'E' → (mark == 'e' || mark == 'E') = true := by
    rintro mark (rfl | rfl) <;> rfl
  cases writes with
  | none =>
    cases rest with
    | nil => rfl
    | cons c rest =>
      have other := stops c rfl
      simp only [inNumber, Bool.or_eq_false_iff] at other
      rw [List.nil_append, readExponent.eq_def]
      simp only [other, Bool.or_self]
      rfl
  | @plain mark ds marked digits =>
    have digit : ∀ c t, ds ++ rest = c :: t → '0' ≤ c ∧ c ≤ '9' := by
      intro c t whole
      cases ds with
      | nil => exact absurd rfl digits.1
      | cons d ds =>
        cases whole
        exact digits.2 c List.mem_cons_self
    rw [List.cons_append, readExponent, if_pos (marks marked),
      readDigits_complete digits stops.digits]
    · rfl
    · exact fun t sign => absurd (digit _ _ sign) (by decide)
    · exact fun t sign => absurd (digit _ _ sign) (by decide)
  | plus marked digits =>
    show (if _ then (readDigits (_ ++ rest)).map _ else _) = _
    rw [if_pos (marks marked), readDigits_complete digits stops.digits]
    rfl
  | minus marked digits =>
    show (if _ then (readDigits (_ ++ rest)).map _ else _) = _
    rw [if_pos (marks marked), readDigits_complete digits stops.digits]
    rfl

theorem readNumeral_sound {s rest : List Char} {n : Numeral}
    (read : readNumeral s = some (n, rest)) : ∃ source, s = source ++ rest ∧ WritesNumeral source n := by
  have unsigned : ∀ {negative : Bool} {s : List Char}, readUnsigned negative s = some (n, rest) →
      ∃ source, s = source ++ rest ∧
        WritesNumeral ((if negative then ['-'] else []) ++ source) n := by
    intro negative s read
    simp only [readUnsigned, Option.bind_eq_bind, Option.bind_eq_some_iff, Option.pure_def,
      Option.some.injEq, Prod.mk.injEq] at read
    obtain ⟨⟨whole, s₁⟩, first, ⟨fraction, s₂⟩, second, ⟨exponent, s₃⟩, third, rfl, rfl⟩ := read
    obtain ⟨rfl, before⟩ := readWhole_sound first
    obtain ⟨f, rfl, behind⟩ := readFraction_sound second
    obtain ⟨x, rfl, power⟩ := readExponent_sound third
    refine ⟨whole ++ f ++ x, by simp only [List.append_assoc], ?_⟩
    rw [← List.append_assoc, ← List.append_assoc]
    exact .mk before behind power
  rw [readNumeral.eq_def] at read
  split at read
  · obtain ⟨source, rfl, writes⟩ := unsigned read
    exact ⟨'-' :: source, rfl, writes⟩
  · obtain ⟨source, rfl, writes⟩ := unsigned read
    exact ⟨source, rfl, writes⟩

theorem WritesExponent.stops {x rest : List Char} {exponent : Option (Bool × List Char)}
    (writes : WritesExponent x exponent) (stops : Stops inNumber rest) :
    Stops (fun c => isDigit c || c == '.') (x ++ rest) := by
  have marked : ∀ {mark : Char} {t : List Char}, mark = 'e' ∨ mark = 'E' →
      Stops (fun c => isDigit c || c == '.') (mark :: t) := by
    rintro mark t (rfl | rfl) _ ⟨⟩ <;> rfl
  cases writes with
  | none =>
    refine stops.mono fun c other => ?_
    rw [inNumber, Bool.or_eq_false_iff, Bool.or_eq_false_iff] at other
    exact other.1.1
  | plain mark _ => exact marked mark
  | plus mark _ => exact marked mark
  | minus mark _ => exact marked mark

theorem WritesFraction.stops {f rest : List Char} {fraction : Option (List Char)}
    (writes : WritesFraction f fraction) (stops : Stops isDigit rest) :
    Stops isDigit (f ++ rest) := by
  cases writes with
  | none => exact stops
  | some _ =>
    rintro _ ⟨⟩
    rfl

theorem readNumeral_complete {source rest : List Char} {n : Numeral}
    (writes : WritesNumeral source n) (stops : Stops inNumber rest) :
    readNumeral (source ++ rest) = some (n, rest) := by
  obtain @⟨negative, whole, f, x, fraction, exponent, before, behind, power⟩ := writes
  have neither := power.stops stops
  have point : Stops (· == '.') (x ++ rest) := neither.mono fun c other =>
    (Bool.or_eq_false_iff.mp other).2
  have digits : Stops isDigit (x ++ rest) := neither.mono fun c other =>
    (Bool.or_eq_false_iff.mp other).1
  have unsigned : readUnsigned negative (whole ++ f ++ x ++ rest) =
      some (⟨negative, whole, fraction, exponent⟩, rest) := by
    rw [readUnsigned, List.append_assoc, List.append_assoc,
      readWhole_complete before (behind.stops digits)]
    simp only [Option.bind_eq_bind, Option.bind_some, readFraction_complete behind digits point,
      readExponent_complete power stops, Option.pure_def]
  cases negative with
  | true => exact unsigned
  | false =>
    show readNumeral (whole ++ f ++ x ++ rest) = _
    rw [readNumeral.eq_def]
    split
    · rename_i rest' signed
      cases whole with
      | nil =>
        rcases before with zero | row
        · cases zero
        · exact absurd rfl row.1.1
      | cons c whole =>
        cases signed
        rcases before with zero | row
        · cases zero
        · exact absurd (row.1.2 '-' List.mem_cons_self) (by decide)
    · exact unsigned

end MarketFeed.Json
