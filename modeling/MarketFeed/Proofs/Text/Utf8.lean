import MarketFeed.Text.Utf8
/-!
Reading texts from their bytes. A scan is followed byte by byte: what a first byte begins, within
which bounds it goes on, and which character it has become after two, three or four bytes.
-/

set_option autoImplicit false
set_option relaxedAutoImplicit false

namespace MarketFeed.Text.Utf8

variable {byte : UInt8} {rest : Bytes} {b : Begun} {s : List Char}

theorem mapM_id_cons {x : Option Char} {l : List (Option Char)} :
    (x :: l).mapM id = some s ↔ ∃ c s', x = some c ∧ l.mapM id = some s' ∧ s = c :: s' := by
  cases x with
  | none => simp
  | some c => cases h : l.mapM id <;> simp [h, eq_comm]

/-! ### Single bytes -/

theorem first_ascii (n : byte.toNat < 0x80) : first byte = .whole (Char.ofNat byte.toNat) := if_pos n

theorem first_two (low : 0xC2 ≤ byte.toNat) (high : byte.toNat ≤ 0xDF) :
    first byte = .begun ⟨byte.toNat - 0xC0, 1, 0x80, 0xBF⟩ := by
  rw [first]
  simp only [Nat.not_lt.mpr (Nat.le_trans (by decide : 0x80 ≤ 0xC2) low), if_false, low, high, decide_true,
    Bool.and_self, if_true]

theorem first_three (low : 0xE0 ≤ byte.toNat) (high : byte.toNat ≤ 0xEF) :
    first byte = .begun ⟨byte.toNat - 0xE0, 2, if byte.toNat = 0xE0 then 0xA0 else 0x80,
      if byte.toNat = 0xED then 0x9F else 0xBF⟩ := by
  rw [first]
  generalize byte.toNat = n at low high
  grind

theorem first_four (low : 0xF0 ≤ byte.toNat) (high : byte.toNat ≤ 0xF4) :
    first byte = .begun ⟨byte.toNat - 0xF0, 3, if byte.toNat = 0xF0 then 0x90 else 0x80,
      if byte.toNat = 0xF4 then 0x8F else 0xBF⟩ := by
  rw [first]
  generalize byte.toNat = n at low high
  grind

theorem first_broken (low : 0x80 ≤ byte.toNat) (off : byte.toNat < 0xC2 ∨ 0xF4 < byte.toNat) :
    first byte = .broken := by
  rw [first]
  generalize byte.toNat = n at low off
  grind

/-! ### Steps of a scan -/

theorem scan_begun {b : Begun} (begun : first byte = .begun b) :
    scanFrom none (byte :: rest) = scanFrom (some b) rest := by
  rw [scanFrom]
  simp only [begun, List.nil_append]

theorem scan_whole {c : Char} (whole : first byte = .whole c) :
    scanFrom none (byte :: rest) = some c :: scanFrom none rest := by
  rw [scanFrom]
  simp only [whole, List.nil_append]

theorem scan_last {value low high : Nat} (within : low ≤ byte.toNat ∧ byte.toNat ≤ high) :
    scanFrom (some ⟨value, 1, low, high⟩) (byte :: rest) =
      some (Char.ofNat (value * 64 + (byte.toNat - 0x80))) :: scanFrom none rest := by
  rw [scanFrom]
  simp only [within.1, within.2, decide_true, Bool.and_self, if_true, Nat.le_refl]

theorem scan_owed {value owed low high : Nat} (within : low ≤ byte.toNat ∧ byte.toNat ≤ high) :
    scanFrom (some ⟨value, owed + 2, low, high⟩) (byte :: rest) =
      scanFrom (some ⟨value * 64 + (byte.toNat - 0x80), owed + 1, 0x80, 0xBF⟩) rest := by
  have more : ¬ owed + 2 ≤ 1 := by omega
  rw [scanFrom]
  simp only [within.1, within.2, decide_true, Bool.and_self, if_true, if_neg more]
  rfl

theorem scan_outside (rest : Bytes) (off : ¬ (b.low ≤ byte.toNat ∧ byte.toNat ≤ b.high)) :
    ∃ l, scanFrom (some b) (byte :: rest) = none :: l := by
  rw [scanFrom]
  have outside : (decide (b.low ≤ byte.toNat) && decide (byte.toNat ≤ b.high)) = false := by
    rw [Bool.eq_false_iff]
    intro within
    rw [Bool.and_eq_true, decide_eq_true_eq, decide_eq_true_eq] at within
    exact off within
  simp only [outside]
  cases first byte <;> exact ⟨_, rfl⟩

theorem within_of_mapM {bytes : Bytes} (whole : (scanFrom (some b) bytes).mapM id = some s) :
    ∃ byte rest, bytes = byte :: rest ∧ b.low ≤ byte.toNat ∧ byte.toNat ≤ b.high := by
  cases bytes with
  | nil =>
    rw [scanFrom] at whole
    cases whole
  | cons byte rest =>
    by_cases within : b.low ≤ byte.toNat ∧ byte.toNat ≤ b.high
    · exact ⟨byte, rest, rfl, within⟩
    · obtain ⟨l, broken⟩ := scan_outside rest within
      rw [broken] at whole
      cases whole

/-! ### Characters of two, three and four bytes -/

section Characters

variable {b₀ b₁ b₂ b₃ : UInt8}

theorem scan_two (h₀ : 0xC2 ≤ b₀.toNat ∧ b₀.toNat ≤ 0xDF) (h₁ : 0x80 ≤ b₁.toNat ∧ b₁.toNat ≤ 0xBF) :
    scanFrom none (b₀ :: b₁ :: rest) =
      some (Char.ofNat ((b₀.toNat - 0xC0) * 64 + (b₁.toNat - 0x80))) :: scanFrom none rest := by
  rw [scan_begun (first_two h₀.1 h₀.2), scan_last h₁]

theorem scan_three (h₀ : 0xE0 ≤ b₀.toNat ∧ b₀.toNat ≤ 0xEF)
    (h₁ : (if b₀.toNat = 0xE0 then 0xA0 else 0x80) ≤ b₁.toNat ∧
      b₁.toNat ≤ if b₀.toNat = 0xED then 0x9F else 0xBF)
    (h₂ : 0x80 ≤ b₂.toNat ∧ b₂.toNat ≤ 0xBF) :
    scanFrom none (b₀ :: b₁ :: b₂ :: rest) =
      some (Char.ofNat (((b₀.toNat - 0xE0) * 64 + (b₁.toNat - 0x80)) * 64 + (b₂.toNat - 0x80))) ::
        scanFrom none rest := by
  rw [scan_begun (first_three h₀.1 h₀.2), scan_owed h₁, scan_last h₂]

theorem scan_four (h₀ : 0xF0 ≤ b₀.toNat ∧ b₀.toNat ≤ 0xF4)
    (h₁ : (if b₀.toNat = 0xF0 then 0x90 else 0x80) ≤ b₁.toNat ∧
      b₁.toNat ≤ if b₀.toNat = 0xF4 then 0x8F else 0xBF)
    (h₂ : 0x80 ≤ b₂.toNat ∧ b₂.toNat ≤ 0xBF) (h₃ : 0x80 ≤ b₃.toNat ∧ b₃.toNat ≤ 0xBF) :
    scanFrom none (b₀ :: b₁ :: b₂ :: b₃ :: rest) =
      some (Char.ofNat ((((b₀.toNat - 0xF0) * 64 + (b₁.toNat - 0x80)) * 64 + (b₂.toNat - 0x80)) * 64 +
        (b₃.toNat - 0x80))) :: scanFrom none rest := by
  rw [scan_begun (first_four h₀.1 h₀.2), scan_owed h₁, scan_owed h₂, scan_last h₃]

end Characters

private theorem toNat_ofNat_byte {n : Nat} (small : n < 256) : (UInt8.ofNat n).toNat = n :=
  Nat.mod_eq_of_lt small

theorem scan_encodeChar (c : Char) (rest : Bytes) :
    scanFrom none (String.utf8EncodeChar c ++ rest) = some c :: scanFrom none rest := by
  have valid : c.val.toNat < 0xD800 ∨ 0xDFFF < c.val.toNat ∧ c.val.toNat < 0x110000 := c.valid
  have same : Char.ofNat c.val.toNat = c := Char.ofNat_toNat c
  rw [String.utf8EncodeChar]
  generalize c.val.toNat = v at valid same
  rw [← same]
  by_cases one : v ≤ 0x7F
  · have byte₀ := toNat_ofNat_byte (n := v) (by omega)
    rw [if_pos one]
    refine (scan_whole (first_ascii (by omega))).trans ?_
    rw [byte₀]
    rfl
  · rw [if_neg one]
    by_cases two : v ≤ 0x7FF
    · have byte₀ := toNat_ofNat_byte (n := v / 64 % 32 + 192) (by omega)
      have byte₁ := toNat_ofNat_byte (n := v % 64 + 128) (by omega)
      rw [if_pos two]
      refine (scan_two (by omega) (by omega)).trans ?_
      have value : (v / 64 % 32 + 192 - 0xC0) * 64 + (v % 64 + 128 - 0x80) = v := by omega
      rw [byte₀, byte₁, value]
      rfl
    · rw [if_neg two]
      by_cases three : v ≤ 0xFFFF
      · have byte₀ := toNat_ofNat_byte (n := v / 4096 % 16 + 224) (by omega)
        have byte₁ := toNat_ofNat_byte (n := v / 64 % 64 + 128) (by omega)
        have byte₂ := toNat_ofNat_byte (n := v % 64 + 128) (by omega)
        rw [if_pos three]
        refine (scan_three (by omega) ?_ (by omega)).trans ?_
        · rw [byte₀, byte₁]
          split <;> split <;> omega
        · have value : ((v / 4096 % 16 + 224 - 0xE0) * 64 + (v / 64 % 64 + 128 - 0x80)) * 64 +
              (v % 64 + 128 - 0x80) = v := by omega
          rw [byte₀, byte₁, byte₂, value]
          rfl
      · have byte₀ := toNat_ofNat_byte (n := v / 262144 % 8 + 240) (by omega)
        have byte₁ := toNat_ofNat_byte (n := v / 4096 % 64 + 128) (by omega)
        have byte₂ := toNat_ofNat_byte (n := v / 64 % 64 + 128) (by omega)
        have byte₃ := toNat_ofNat_byte (n := v % 64 + 128) (by omega)
        rw [if_neg three]
        refine (scan_four (by omega) ?_ (by omega) (by omega)).trans ?_
        · rw [byte₀, byte₁]
          split <;> split <;> omega
        · have value : (((v / 262144 % 8 + 240 - 0xF0) * 64 + (v / 4096 % 64 + 128 - 0x80)) * 64 +
              (v / 64 % 64 + 128 - 0x80)) * 64 + (v % 64 + 128 - 0x80) = v := by omega
          rw [byte₀, byte₁, byte₂, byte₃, value]
          rfl

theorem scan_encode (s : List Char) (rest : Bytes) :
    scan (encode s ++ rest) = s.map some ++ scan rest := by
  rw [scan, scan]
  induction s with
  | nil => rfl
  | cons c s ih =>
    rw [encode, List.flatMap_cons, List.append_assoc, scan_encodeChar]
    exact congrArg (some c :: ·) ih

theorem decode?_encode_append (s : List Char) (rest : Bytes) :
    decode? (encode s ++ rest) = (decode? rest).map (s ++ ·) := by
  rw [decode?, decode?, scan_encode]
  induction s with
  | nil => exact Option.map_id'.symm
  | cons c s ih =>
    rw [List.map_cons, List.cons_append, List.mapM_cons, ih]
    cases (scan rest).mapM id <;> rfl

private theorem ofNat_byte (byte : UInt8) {n : Nat} (same : n = byte.toNat) : UInt8.ofNat n = byte := by
  rw [same]
  exact UInt8.ofNat_toNat

private theorem encodeChar_ofNat {v : Nat} (valid : v.isValidChar) :
    String.utf8EncodeChar (Char.ofNat v) =
      if v ≤ 0x7F then [UInt8.ofNat v]
      else if v ≤ 0x7FF then [UInt8.ofNat (v / 64 % 32 + 192), UInt8.ofNat (v % 64 + 128)]
      else if v ≤ 0xFFFF then [UInt8.ofNat (v / 4096 % 16 + 224), UInt8.ofNat (v / 64 % 64 + 128),
        UInt8.ofNat (v % 64 + 128)]
      else [UInt8.ofNat (v / 262144 % 8 + 240), UInt8.ofNat (v / 4096 % 64 + 128),
        UInt8.ofNat (v / 64 % 64 + 128), UInt8.ofNat (v % 64 + 128)] := by
  have value : (Char.ofNat v).val.toNat = v := by
    rw [Char.ofNat, dif_pos valid]
    rfl
  rw [String.utf8EncodeChar]
  simp only [value]

private theorem encode_two {b₀ b₁ : UInt8} (h₀ : 0xC2 ≤ b₀.toNat ∧ b₀.toNat ≤ 0xDF)
    (h₁ : 0x80 ≤ b₁.toNat ∧ b₁.toNat ≤ 0xBF) :
    String.utf8EncodeChar (Char.ofNat ((b₀.toNat - 0xC0) * 64 + (b₁.toNat - 0x80))) = [b₀, b₁] := by
  rw [encodeChar_ofNat (.inl (by omega)), if_neg (by omega), if_pos (by omega),
    ofNat_byte b₀ (by omega), ofNat_byte b₁ (by omega)]

private theorem encode_three {b₀ b₁ b₂ : UInt8} (h₀ : 0xE0 ≤ b₀.toNat ∧ b₀.toNat ≤ 0xEF)
    (h₁ : (if b₀.toNat = 0xE0 then 0xA0 else 0x80) ≤ b₁.toNat ∧
      b₁.toNat ≤ if b₀.toNat = 0xED then 0x9F else 0xBF)
    (h₂ : 0x80 ≤ b₂.toNat ∧ b₂.toNat ≤ 0xBF) :
    String.utf8EncodeChar (Char.ofNat (((b₀.toNat - 0xE0) * 64 + (b₁.toNat - 0x80)) * 64 +
      (b₂.toNat - 0x80))) = [b₀, b₁, b₂] := by
  have shortest : b₀.toNat = 0xE0 → 0xA0 ≤ b₁.toNat := fun least => by
    rw [if_pos least] at h₁
    exact h₁.1
  have below : b₀.toNat = 0xED → b₁.toNat ≤ 0x9F := fun gap => by
    rw [if_pos gap] at h₁
    exact h₁.2
  have continuing : 0x80 ≤ b₁.toNat ∧ b₁.toNat ≤ 0xBF := by
    split at h₁ <;> split at h₁ <;> omega
  clear h₁
  have valid : (((b₀.toNat - 0xE0) * 64 + (b₁.toNat - 0x80)) * 64 +
      (b₂.toNat - 0x80)).isValidChar := by
    by_cases before : b₀.toNat ≤ 0xED
    · exact .inl (by omega)
    · exact .inr ⟨by omega, by omega⟩
  rw [encodeChar_ofNat valid, if_neg (by omega), if_neg (by omega), if_pos (by omega),
    ofNat_byte b₀ (by omega), ofNat_byte b₁ (by omega),
    ofNat_byte b₂ (by omega)]

private theorem encode_four {b₀ b₁ b₂ b₃ : UInt8} (h₀ : 0xF0 ≤ b₀.toNat ∧ b₀.toNat ≤ 0xF4)
    (h₁ : (if b₀.toNat = 0xF0 then 0x90 else 0x80) ≤ b₁.toNat ∧
      b₁.toNat ≤ if b₀.toNat = 0xF4 then 0x8F else 0xBF)
    (h₂ : 0x80 ≤ b₂.toNat ∧ b₂.toNat ≤ 0xBF) (h₃ : 0x80 ≤ b₃.toNat ∧ b₃.toNat ≤ 0xBF) :
    String.utf8EncodeChar (Char.ofNat ((((b₀.toNat - 0xF0) * 64 + (b₁.toNat - 0x80)) * 64 +
      (b₂.toNat - 0x80)) * 64 + (b₃.toNat - 0x80))) = [b₀, b₁, b₂, b₃] := by
  have shortest : b₀.toNat = 0xF0 → 0x90 ≤ b₁.toNat := fun least => by
    rw [if_pos least] at h₁
    exact h₁.1
  have last : b₀.toNat = 0xF4 → b₁.toNat ≤ 0x8F := fun most => by
    rw [if_pos most] at h₁
    exact h₁.2
  have continuing : 0x80 ≤ b₁.toNat ∧ b₁.toNat ≤ 0xBF := by
    split at h₁ <;> split at h₁ <;> omega
  clear h₁
  rw [encodeChar_ofNat (.inr ⟨by omega, by omega⟩), if_neg (by omega), if_neg (by omega),
    if_neg (by omega), ofNat_byte b₀ (by omega), ofNat_byte b₁ (by omega),
    ofNat_byte b₂ (by omega), ofNat_byte b₃ (by omega)]

private theorem scan_char (whole : (scanFrom none (byte :: rest)).mapM id = some s) :
    ∃ c rest', byte :: rest = String.utf8EncodeChar c ++ rest' ∧
      scanFrom none (byte :: rest) = some c :: scanFrom none rest' := by
  have ranges : byte.toNat < 0x80 ∨ (0xC2 ≤ byte.toNat ∧ byte.toNat ≤ 0xDF) ∨
      (0xE0 ≤ byte.toNat ∧ byte.toNat ≤ 0xEF) ∨ (0xF0 ≤ byte.toNat ∧ byte.toNat ≤ 0xF4) ∨
      0x80 ≤ byte.toNat ∧ (byte.toNat < 0xC2 ∨ 0xF4 < byte.toNat) := by omega
  rcases ranges with one | two | three | four | broken
  · refine ⟨Char.ofNat byte.toNat, rest, ?_, scan_whole (first_ascii one)⟩
    rw [encodeChar_ofNat (.inl (by omega)), if_pos (by omega), ofNat_byte byte rfl]
    rfl
  · rw [scan_begun (first_two two.1 two.2)] at whole
    obtain ⟨b₁, rest, rfl, within⟩ := within_of_mapM whole
    refine ⟨_, rest, ?_, scan_two two within⟩
    rw [encode_two two within]
    rfl
  · rw [scan_begun (first_three three.1 three.2)] at whole
    obtain ⟨b₁, rest, rfl, within₁⟩ := within_of_mapM whole
    rw [scan_owed within₁] at whole
    obtain ⟨b₂, rest, rfl, within₂⟩ := within_of_mapM whole
    refine ⟨_, rest, ?_, scan_three three within₁ within₂⟩
    rw [encode_three three within₁ within₂]
    rfl
  · rw [scan_begun (first_four four.1 four.2)] at whole
    obtain ⟨b₁, rest, rfl, within₁⟩ := within_of_mapM whole
    rw [scan_owed within₁] at whole
    obtain ⟨b₂, rest, rfl, within₂⟩ := within_of_mapM whole
    rw [scan_owed within₂] at whole
    obtain ⟨b₃, rest, rfl, within₃⟩ := within_of_mapM whole
    refine ⟨_, rest, ?_, scan_four four within₁ within₂ within₃⟩
    rw [encode_four four within₁ within₂ within₃]
    rfl
  · rw [scanFrom] at whole
    simp only [first_broken broken.1 broken.2] at whole
    cases whole

/-- Exactly the bytes of a text are read as this text. -/
theorem decode?_eq_some_iff {bytes : Bytes} : decode? bytes = some s ↔ bytes = encode s := by
  constructor
  · intro whole
    rw [decode?, scan] at whole
    induction len : bytes.length using Nat.strongRecOn generalizing bytes s with
    | _ n ih =>
      cases bytes with
      | nil =>
        cases whole
        rfl
      | cons byte rest =>
        obtain ⟨c, rest', split_, scanned⟩ := scan_char whole
        rw [scanned, mapM_id_cons] at whole
        obtain ⟨c', s', same, later, rfl⟩ := whole
        cases same
        -- a character takes at least one byte, so what stands behind it is shorter
        have shorter : rest'.length < n := by
          rw [← len, split_, List.length_append, String.length_utf8EncodeChar]
          exact Nat.lt_add_of_pos_left (Char.utf8Size_pos c)
        rw [split_, ih _ shorter later rfl]
        rfl
  · rintro rfl
    have empty : decode? [] = some [] := rfl
    rw [← List.append_nil (encode s), decode?_encode_append, empty, Option.map_some,
      List.append_nil]

theorem length_encode (ascii : ∀ c ∈ s, c.toNat < 0x80) : (encode s).length = s.length := by
  induction s with
  | nil => rfl
  | cons c s ih =>
    have own : c.toNat < 0x80 := ascii c List.mem_cons_self
    have one : c.utf8Size = 1 := by
      rw [Char.utf8Size_eq_one_iff, UInt32.le_iff_toNat_le]
      exact Nat.le_of_lt_succ own
    have later := ih fun d member => ascii d (List.mem_cons_of_mem c member)
    rw [encode, List.flatMap_cons, List.length_append, String.length_utf8EncodeChar, ← encode, later,
      one, List.length_cons, Nat.add_comm]

end MarketFeed.Text.Utf8
