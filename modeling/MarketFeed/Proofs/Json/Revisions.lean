import Mathlib.Data.List.Nodup
import MarketFeed.Json.Record
/-!
Documents that say the same. A writer writes every field of a record. In a revision of what it wrote the
members stand in any order, and members that hold the default of their field may be left out, at any
level. A codec reads from every revision of a document what the document was written for.
-/

set_option autoImplicit false
set_option relaxedAutoImplicit false

namespace MarketFeed.Json

/-- Which values may stand for a value. -/
abbrev Revision : Type := Value → Value → Prop

/-- Members of an object, revised by name, without some of those that hold a default. -/
inductive Keeps (each : String → Revision) (defaults : List (String × Value)) :
    List (String × Value) → List (String × Value) → Prop where
  | nil : Keeps each defaults [] []
  | keep {name : String} {v w : Value} {ms kept : List (String × Value)} (revised : each name v w)
      (rest : Keeps each defaults ms kept) : Keeps each defaults ((name, v) :: ms) ((name, w) :: kept)
  | leaveOut {name : String} {v : Value} {ms kept : List (String × Value)}
      (holds : (name, v) ∈ defaults) (rest : Keeps each defaults ms kept) :
      Keeps each defaults ((name, v) :: ms) kept

/-- Some members of an object are revised, those with a default may be left out, and their order is
free. -/
def Revision.object (each : String → Revision) (defaults : List (String × Value)) : Revision :=
  fun v w => ∃ ms kept ns, v = .object ms ∧ Keeps each defaults ms kept ∧ kept.Perm ns ∧ w = .object ns

def Revision.array (each : Revision) : Revision :=
  fun v w => ∃ vs ws, v = .array vs ∧ List.Forall₂ each vs ws ∧ w = .array ws

/-- A reader that reads what a writer has written from every revision of it. -/
structure Codec {α : Type} (revision : Revision) (encode : α → Value) (decode? : Value → Option α) :
    Prop where
  whole : ∀ a, revision (encode a) (encode a)
  reads : ∀ a w, revision (encode a) w → decode? w = some a

section Codec

variable {α : Type} {revision : Revision} {encode : α → Value} {decode? : Value → Option α}

theorem Codec.decode?_encode (codec : Codec revision encode decode?) (a : α) :
    decode? (encode a) = some a := codec.reads a (encode a) (codec.whole a)

theorem Codec.injective (codec : Codec revision encode decode?) {a b : α} (same : encode a = encode b) :
    a = b := by
  have first := codec.decode?_encode a
  rw [same, codec.decode?_encode b] at first
  exact (Option.some.inj first).symm

theorem codec_of_eq (reads : ∀ a, decode? (encode a) = some a) : Codec Eq encode decode? := by
  refine ⟨fun _ => rfl, ?_⟩
  rintro a w rfl
  exact reads a

theorem Codec.array (codec : Codec revision encode decode?) :
    Codec (Revision.array revision) (fun as => .array (as.map encode)) (Value.list? decode?) where
  whole as := by
    refine ⟨_, _, rfl, ?_, rfl⟩
    induction as with
    | nil => exact .nil
    | cons a as ih => exact .cons (codec.whole a) ih
  reads as w := by
    rintro ⟨vs, ws, ⟨rfl⟩, revised, rfl⟩
    show ws.mapM decode? = some as
    induction as generalizing ws with
    | nil =>
      cases revised
      rfl
    | cons a as ih =>
      cases revised with
      | cons first rest =>
        rw [List.mapM_cons, codec.reads a _ first, ih _ rest]
        rfl

end Codec

/-! ### Leaves -/

theorem digitsValue_toDigits (n : Nat) : Numeral.digitsValue (Nat.toDigits 10 n) = n := by
  have value := Nat.ofDigitChars_ten_toDigits (n := n)
  rw [Nat.ofDigitChars_eq_foldl] at value
  rw [Numeral.digitsValue]
  simp only [Nat.mul_comm _ 10, Numeral.digit]
  exact value

theorem nat?_ofNat (n : Nat) : (Value.ofNat n).nat? = some n := congrArg some (digitsValue_toDigits n)

theorem codec_text : Codec Eq Value.string Value.text? := codec_of_eq fun _ => rfl

theorem codec_bool : Codec Eq Value.bool Value.bool? := codec_of_eq fun _ => rfl

theorem codec_uint64 : Codec Eq (fun n : UInt64 => .ofNat n.toNat) Value.uint64? := by
  apply codec_of_eq
  intro n
  rw [Value.uint64?, nat?_ofNat, Option.bind_some, if_pos n.toNat_lt_size, UInt64.ofNat_toNat]

theorem codec_uint32 : Codec Eq (fun n : UInt32 => .ofNat n.toNat) Value.uint32? := by
  apply codec_of_eq
  intro n
  rw [Value.uint32?, nat?_ofNat, Option.bind_some, if_pos n.toNat_lt_size, UInt32.ofNat_toNat]

/-! ### Members by name -/

theorem name_mem {ms : List (String × Value)} {name : String} {v : Value} (member : (name, v) ∈ ms) :
    name ∈ ms.map Prod.fst := List.mem_map.mpr ⟨(name, v), member, rfl⟩

theorem member?_eq_some {ms : List (String × Value)} {name : String} {v : Value}
    (distinct : (ms.map Prod.fst).Nodup) (member : (name, v) ∈ ms) : Value.member? ms name = some v := by
  have found : ∀ ms : List (String × Value), (ms.map Prod.fst).Nodup → (name, v) ∈ ms →
      ms.find? (fun m => m.1 == name) = some (name, v) := by
    intro ms distinct member
    induction ms with
    | nil => exact absurd member List.not_mem_nil
    | cons head rest ih =>
      rw [List.map_cons, List.nodup_cons] at distinct
      rw [List.find?_cons]
      rcases List.mem_cons.mp member with rfl | later
      · simp
      · have other : (head.1 == name) = false := by
          rw [beq_eq_false_iff_ne]
          intro same
          exact distinct.1 (same ▸ name_mem later)
        rw [other]
        exact ih distinct.2 later
  have backwards : (ms.reverse.map Prod.fst).Nodup := by
    rw [List.map_reverse, List.nodup_reverse]
    exact distinct
  rw [Value.member?, found _ backwards (List.mem_reverse.mpr member)]
  rfl

theorem member?_eq_none {ms : List (String × Value)} {name : String} (missing : name ∉ ms.map Prod.fst) :
    Value.member? ms name = none := by
  rw [Value.member?, Option.map_eq_none_iff, List.find?_eq_none]
  intro m member
  rw [List.mem_reverse] at member
  rw [beq_iff_eq]
  rintro rfl
  exact missing (List.mem_map_of_mem member)

section Keeps

variable {each : String → Revision} {defaults ms kept : List (String × Value)} {name : String}
  {v w : Value}

theorem keeps_self (revised : ∀ m ∈ ms, each m.1 m.2 m.2) : Keeps each defaults ms ms := by
  induction ms with
  | nil => exact .nil
  | cons m ms ih =>
    have all := List.forall_mem_cons.mp revised
    exact .keep all.1 (ih all.2)

theorem Keeps.without {i : Nat} (holds : defaults[i]? = some (name, v))
    (rest : Keeps each defaults ms kept) : Keeps each defaults ((name, v) :: ms) kept :=
  .leaveOut (List.mem_of_getElem? holds) rest

theorem Keeps.names (keeps : Keeps each defaults ms kept) :
    (kept.map Prod.fst).Sublist (ms.map Prod.fst) := by
  induction keeps with
  | nil => exact .slnil
  | keep _ _ ih => exact ih.cons_cons _
  | leaveOut _ _ ih => exact ih.cons _

theorem Keeps.eq (keeps : Keeps (fun _ => Eq) [] ms kept) : kept = ms := by
  induction keeps with
  | nil => rfl
  | keep revised _ ih => rw [revised, ih]
  | leaveOut holds => exact absurd holds List.not_mem_nil

theorem Keeps.origin (keeps : Keeps each defaults ms kept) (member : (name, w) ∈ kept) :
    ∃ v, (name, v) ∈ ms ∧ each name v w := by
  induction keeps with
  | nil => exact absurd member List.not_mem_nil
  | @keep _ v _ _ _ revised _ ih =>
    rcases List.mem_cons.mp member with same | later
    · cases same
      exact ⟨v, List.mem_cons_self, revised⟩
    · obtain ⟨v', before, revised⟩ := ih later
      exact ⟨v', List.mem_cons_of_mem _ before, revised⟩
  | leaveOut _ _ ih =>
    obtain ⟨v', before, revised⟩ := ih member
    exact ⟨v', List.mem_cons_of_mem _ before, revised⟩

theorem Keeps.member (keeps : Keeps each defaults ms kept) (distinct : (ms.map Prod.fst).Nodup)
    (member : (name, v) ∈ ms) :
    (∃ w, each name v w ∧ (name, w) ∈ kept) ∨ (name, v) ∈ defaults ∧ name ∉ kept.map Prod.fst := by
  induction keeps with
  | nil => exact absurd member List.not_mem_nil
  | @keep other _ w _ _ revised rest ih =>
    rw [List.map_cons, List.nodup_cons] at distinct
    rcases List.mem_cons.mp member with same | later
    · cases same
      exact .inl ⟨w, revised, List.mem_cons_self⟩
    · rcases ih distinct.2 later with ⟨w', revised, found⟩ | ⟨holds, missing⟩
      · exact .inl ⟨w', revised, List.mem_cons_of_mem _ found⟩
      · refine .inr ⟨holds, ?_⟩
        rw [List.map_cons, List.mem_cons, not_or]
        refine ⟨?_, missing⟩
        rintro rfl
        exact distinct.1 (name_mem later)
  | leaveOut holds rest ih =>
    rw [List.map_cons, List.nodup_cons] at distinct
    rcases List.mem_cons.mp member with same | later
    · cases same
      exact .inr ⟨holds, fun found => distinct.1 (rest.names.subset found)⟩
    · exact ih distinct.2 later

end Keeps

/-! ### Fields -/

structure Revised (each : String → Revision) (defaults ms ns : List (String × Value)) : Prop where
  distinct : (ms.map Prod.fst).Nodup
  once : (defaults.map Prod.fst).Nodup
  revises : ∃ kept, Keeps each defaults ms kept ∧ kept.Perm ns

section Revised

variable {each : String → Revision} {defaults ms ns : List (String × Value)} {name : String}

/-- The members that stand for a record are revised as those of any other record of its type, of which
those with a default are a part. -/
theorem revised_of_object (standard : List (String × Value)) {w : Value}
    (revised : Revision.object each defaults (.object ms) w) (part : defaults.Sublist standard)
    (named : ms.map Prod.fst = standard.map Prod.fst) (distinct : (standard.map Prod.fst).Nodup) :
    ∃ ns, w = .object ns ∧ Revised each defaults ms ns := by
  obtain ⟨_, kept, ns, ⟨rfl⟩, keeps, order, rfl⟩ := revised
  have once : (defaults.map Prod.fst).Nodup := distinct.sublist (part.map Prod.fst)
  rw [← named] at distinct
  exact ⟨ns, rfl, distinct, once, kept, keeps, order⟩

theorem Revised.distinct_after (revised : Revised each defaults ms ns) : (ns.map Prod.fst).Nodup := by
  obtain ⟨kept, keeps, order⟩ := revised.revises
  exact (order.map Prod.fst).nodup_iff.mp (revised.distinct.sublist keeps.names)

theorem Revised.origin (revised : Revised each defaults ms ns) {w : Value} (member : (name, w) ∈ ns) :
    ∃ v, (name, v) ∈ ms ∧ each name v w := by
  obtain ⟨kept, keeps, order⟩ := revised.revises
  exact keeps.origin (order.mem_iff.mpr member)

theorem Revised.member (revised : Revised each defaults ms ns) {v : Value} (member : (name, v) ∈ ms) :
    (∃ w, each name v w ∧ (name, w) ∈ ns) ∨
      (name, v) ∈ defaults ∧ Value.member? ns name = none := by
  obtain ⟨kept, keeps, order⟩ := revised.revises
  rcases keeps.member revised.distinct member with ⟨w, revises, found⟩ | ⟨holds, missing⟩
  · exact .inl ⟨w, revises, order.mem_iff.mp found⟩
  · refine .inr ⟨holds, member?_eq_none ?_⟩
    rw [← (order.map Prod.fst).mem_iff]
    exact missing

variable {α : Type} {revision : Revision} {encode : α → Value} {decode? : Value → Option α} {a : α}

theorem Revised.required (revised : Revised each defaults ms ns)
    (codec : Codec revision encode decode?) (place : Nat) (own : each name = revision) {i : Nat}
    (written : ms[i]? = some (name, encode a)) (lasting : name ∉ defaults.map Prod.fst) :
    (Record.members ns).required place name decode? = some a := by
  rcases revised.member (List.mem_of_getElem? written) with ⟨w, revises, found⟩ | ⟨holds, -⟩
  · rw [own] at revises
    have looked : (Record.members ns).field? place name = some w :=
      member?_eq_some revised.distinct_after found
    rw [Record.required, looked, Option.bind_some]
    exact codec.reads a w revises
  · exact absurd (name_mem holds) lasting

theorem Revised.optional (revised : Revised each defaults ms ns)
    (codec : Codec revision encode decode?) (place : Nat) (own : each name = revision) {standard : α}
    {i j : Nat} (written : ms[i]? = some (name, encode a))
    (default : defaults[j]? = some (name, encode standard)) :
    (Record.members ns).optional place name decode? standard = some a := by
  rcases revised.member (List.mem_of_getElem? written) with ⟨w, revises, found⟩ | ⟨holds, missing⟩
  · rw [own] at revises
    have looked : (Record.members ns).field? place name = some w :=
      member?_eq_some revised.distinct_after found
    rw [Record.optional, looked]
    exact codec.reads a w revises
  · have looked : (Record.members ns).field? place name = none := missing
    have same : encode a = encode standard := by
      have one := member?_eq_some revised.once holds
      rw [member?_eq_some revised.once (List.mem_of_getElem? default)] at one
      exact (Option.some.inj one).symm
    rw [Record.optional, looked, codec.injective same]

end Revised

end MarketFeed.Json
