import MarketFeed.Proofs.Text.Utf8
import MarketFeed.Text.Percent
/-!
Percent encoding loses nothing: what is encoded can be decoded again, so different texts are encoded
differently, and only plain characters and percent signs are written.
-/

set_option autoImplicit false
set_option relaxedAutoImplicit false

namespace MarketFeed.Text

namespace Hex

theorem value?_upper : ∀ n < 16, value? (upper n) = some n := by decide

theorem isPlain_upper : ∀ n < 16, Percent.isPlain (upper n) = true := by decide

end Hex

namespace Percent

theorem bytes_escapeByte (b : UInt8) (rest : List Char) :
    bytes (escapeByte b ++ rest) = b :: bytes rest := by
  have small : b.toNat < 256 := b.toNat_lt
  have high := Hex.value?_upper (b.toNat / 16) (by omega)
  have low := Hex.value?_upper (b.toNat % 16) (by omega)
  have whole : b.toNat / 16 * 16 + b.toNat % 16 = b.toNat := Nat.div_add_mod' b.toNat 16
  rw [escapeByte, List.cons_append, List.cons_append, List.cons_append, List.nil_append, bytes, high,
    low]
  show UInt8.ofNat (b.toNat / 16 * 16 + b.toNat % 16) :: bytes rest = b :: bytes rest
  rw [whole, UInt8.ofNat_toNat]

theorem bytes_escapes (bs : Bytes) (rest : List Char) :
    bytes (bs.flatMap escapeByte ++ rest) = bs ++ bytes rest := by
  induction bs with
  | nil => rfl
  | cons b bs ih =>
    rw [List.flatMap_cons, List.append_assoc, bytes_escapeByte, ih, List.cons_append]

theorem bytes_cons {c : Char} (other : c ≠ '%') (rest : List Char) :
    bytes (c :: rest) = Utf8.encode [c] ++ bytes rest := by
  rw [bytes]
  rintro a b s rfl -
  exact other rfl

theorem bytes_encodeChar (c : Char) (rest : List Char) :
    bytes (encodeChar c ++ rest) = String.utf8EncodeChar c ++ bytes rest := by
  rw [encodeChar]
  split
  next plain =>
    have other : c ≠ '%' := by
      rintro rfl
      exact absurd plain (by decide)
    rw [List.singleton_append, bytes_cons other, Utf8.encode, List.flatMap_singleton]
  next => exact bytes_escapes _ rest

theorem bytes_encode (s : List Char) : bytes (encode s) = Utf8.encode s := by
  induction s with
  | nil => rfl
  | cons c s ih => rw [encode, List.flatMap_cons, bytes_encodeChar, Utf8.encode, List.flatMap_cons,
      ← Utf8.encode, ← ih, encode]

theorem decode?_encode (s : List Char) : decode? (encode s) = some s := by
  rw [decode?, bytes_encode]
  exact Utf8.decode?_eq_some_iff.mpr rfl

theorem encode_injective {s t : List Char} (same : encode s = encode t) : s = t := by
  have decoded := decode?_encode s
  rw [same, decode?_encode] at decoded
  exact (Option.some.inj decoded).symm

theorem plain_of_mem_encode {s : List Char} {c : Char} (written : c ∈ encode s) :
    isPlain c = true ∨ c = '%' := by
  obtain ⟨d, -, written⟩ := List.mem_flatMap.mp written
  rw [encodeChar] at written
  split at written
  next plain =>
    rw [List.mem_singleton.mp written]
    exact .inl plain
  next =>
    obtain ⟨b, -, written⟩ := List.mem_flatMap.mp written
    have small : b.toNat < 256 := b.toNat_lt
    simp only [escapeByte, List.mem_cons, List.not_mem_nil, or_false] at written
    rcases written with rfl | rfl | rfl
    · exact .inr rfl
    · exact .inl (Hex.isPlain_upper _ (by omega))
    · exact .inl (Hex.isPlain_upper _ (by omega))

theorem ascii_of_isPlain {c : Char} (plain : isPlain c = true) : c.toNat < 0x80 := by
  simp only [isPlain, Bool.or_eq_true, Bool.and_eq_true, decide_eq_true_eq, beq_iff_eq,
    Char.le_def, UInt32.le_iff_toNat_le] at plain
  rcases plain with (((((⟨-, high⟩ | ⟨-, high⟩) | ⟨-, high⟩) | rfl) | rfl) | rfl) | rfl
  · exact Nat.lt_of_le_of_lt high (by decide)
  · exact Nat.lt_of_le_of_lt high (by decide)
  · exact Nat.lt_of_le_of_lt high (by decide)
  all_goals decide

theorem ascii_of_mem_encode {s : List Char} {c : Char} (written : c ∈ encode s) : c.toNat < 0x80 := by
  rcases plain_of_mem_encode written with plain | rfl
  · exact ascii_of_isPlain plain
  · decide

theorem encode_ne_nil {s : List Char} (filled : s ≠ []) : encode s ≠ [] := by
  intro empty
  exact filled (encode_injective (t := []) empty)

theorem encode_eq_self {s : List Char} (plain : ∀ c ∈ s, isPlain c = true) : encode s = s := by
  induction s with
  | nil => rfl
  | cons c s ih =>
    obtain ⟨own, rest⟩ := List.forall_mem_cons.mp plain
    rw [encode, List.flatMap_cons, encodeChar, if_pos own, ← encode, ih rest, List.singleton_append]

theorem percent_mem_encodeChar {c : Char} (special : isPlain c ≠ true) : '%' ∈ encodeChar c := by
  rw [encodeChar, if_neg special]
  cases bytes : String.utf8EncodeChar c with
  | nil =>
    have size := String.length_utf8EncodeChar c
    rw [bytes] at size
    exact absurd size.symm (Nat.pos_iff_ne_zero.mp c.utf8Size_pos)
  | cons b bs => exact List.mem_flatMap.mpr ⟨b, List.mem_cons_self, List.mem_cons_self⟩

theorem isPlain_of_toLower {c : Char} (plain : isPlain c.toLower = true) : isPlain c = true := by
  by_cases upper : c.val ≥ 'A'.val ∧ c.val ≤ 'Z'.val
  · have capital : ('A' ≤ c && c ≤ 'Z') = true := by
      rw [Bool.and_eq_true, decide_eq_true_iff, decide_eq_true_iff]
      exact upper
    simp only [isPlain, capital, Bool.or_true, Bool.true_or]
  · have same : c.toLower = c := dif_neg upper
    rwa [same] at plain

theorem map_toLower_encode_iff {s word : List Char} (plain : ∀ c ∈ word, isPlain c = true) :
    (encode s).map Char.toLower = word ↔ s.map Char.toLower = word := by
  constructor
  · rintro rfl
    have all : ∀ c ∈ s, isPlain c = true := by
      intro c member
      refine Decidable.byContradiction fun special => ?_
      have written : '%' ∈ encode s := List.mem_flatMap.mpr ⟨c, member, percent_mem_encodeChar special⟩
      exact absurd (plain _ (List.mem_map_of_mem written)) (by decide)
    rw [encode_eq_self all]
  · rintro rfl
    rw [encode_eq_self fun c member => isPlain_of_toLower (plain _ (List.mem_map_of_mem member))]

end Percent

end MarketFeed.Text
