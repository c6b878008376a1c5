import MarketFeed.FeedConfig.Codec
import MarketFeed.Proofs.Json.Revisions
import MarketFeed.Table.Lemmas
/-!
Configurations and their documents. What is written for a configuration is read as this configuration, and
so is every revision of it: with the members of any object in another order, and without any members that
hold the default of their field.
-/

set_option autoImplicit false
set_option relaxedAutoImplicit false

namespace MarketFeed

open Json

def Json.Value.members : Value → List (String × Value)
  | .object ms => ms
  | _ => []

private theorem bind_of_some {α β : Type} {x : Option α} {f : α → Option β} {a : α} {b : β}
    (read : x = some a) (onward : f a = some b) : (x >>= f) = some b := by
  rw [read]
  exact onward

/-! ### Records without other records -/

namespace RetryConfig

/-- What is written for each field that nobody has set. -/
def defaults : List (String × Value) := (encode {}).members

def revision : Revision := .object (fun _ => Eq) defaults

theorem codec_retry : Codec revision encode decode? where
  whole c := ⟨_, _, _, rfl, keeps_self fun _ _ => rfl, .refl _, rfl⟩
  reads c w revised := by
    obtain ⟨ns, rfl, fields⟩ := revised_of_object defaults revised (.refl _) rfl (by decide)
    have maxRetries := fields.optional codec_uint32 0 rfl (i := 0) (j := 0) rfl rfl
    have baseBackoffMs := fields.optional codec_uint64 1 rfl (i := 1) (j := 1) rfl rfl
    have connectionTimeoutMs := fields.optional codec_uint64 2 rfl (i := 2) (j := 2) rfl rfl
    have requestTimeoutMs := fields.optional codec_uint64 3 rfl (i := 3) (j := 3) rfl rfl
    exact bind_of_some rfl <| bind_of_some maxRetries <| bind_of_some baseBackoffMs <|
      bind_of_some connectionTimeoutMs <| bind_of_some requestTimeoutMs rfl

end RetryConfig

namespace TierConfig

def defaults : List (String × Value) := (encode ⟨"", 0, 0, 0, false⟩).members.drop 4

def revision : Revision := .object (fun _ => Eq) defaults

theorem codec_tier : Codec revision encode decode? where
  whole t := ⟨_, _, _, rfl, keeps_self fun _ _ => rfl, .refl _, rfl⟩
  reads t w revised := by
    obtain ⟨ns, rfl, fields⟩ := revised_of_object (encode ⟨"", 0, 0, 0, false⟩).members revised
      (List.drop_sublist 4 _) rfl (by decide)
    have name := fields.required codec_text 0 rfl (i := 0) rfl (by decide)
    have idFrom := fields.required codec_uint64 1 rfl (i := 1) rfl (by decide)
    have idTo := fields.required codec_uint64 2 rfl (i := 2) rfl (by decide)
    have updateIntervalSecs := fields.required codec_uint64 3 rfl (i := 3) rfl (by decide)
    have supplementary := fields.optional codec_bool 4 rfl (i := 4) (j := 0) rfl rfl
    exact bind_of_some rfl <| bind_of_some name <| bind_of_some idFrom <| bind_of_some idTo <|
      bind_of_some updateIntervalSecs <| bind_of_some supplementary rfl

end TierConfig

namespace RateLimit

def revision : Revision := .object (fun _ => Eq) []

theorem codec_limit : Codec revision encode decode? where
  whole l := ⟨_, _, _, rfl, keeps_self fun _ _ => rfl, .refl _, rfl⟩
  reads l w revised := by
    obtain ⟨ns, rfl, fields⟩ :=
      revised_of_object (encode ⟨0, 0⟩).members revised (List.nil_sublist _) rfl (by decide)
    have requestsPerMinute := fields.required codec_uint32 0 rfl (i := 0) rfl (by decide)
    have burst := fields.required codec_uint32 1 rfl (i := 1) rfl (by decide)
    exact bind_of_some rfl <| bind_of_some requestsPerMinute <| bind_of_some burst rfl

theorem codec_policy : Codec Eq Policy.encode Policy.decode? := by
  apply codec_of_eq
  intro p
  cases p <;> rfl

/-- The limits are written with one member for each kind that has one. -/
def revisionAll : Revision := .object (fun _ => revision) []

private theorem mem_members {limits : Credential.PerKind (Option RateLimit)} {name : String} {v : Value} :
    (name, v) ∈ (encodeAll limits).members ↔
      ∃ kind l, limits.get kind = some l ∧ name = kind.word ∧ v = l.encode := by
  rw [encodeAll, Value.members, List.mem_filterMap]
  constructor
  · rintro ⟨kind, -, written⟩
    obtain ⟨l, given, same⟩ := Option.map_eq_some_iff.mp written
    cases same
    exact ⟨kind, l, given, rfl, rfl⟩
  · rintro ⟨kind, l, given, rfl, rfl⟩
    refine ⟨kind, ?_, ?_⟩
    · cases kind <;> decide
    · rw [given]
      rfl

private theorem word_injective {kind kind' : Credential.Kind} (same : kind.word = kind'.word) :
    kind = kind' := by
  have read : ∀ kind : Credential.Kind, Credential.Kind.ofWord? kind.word = some kind := by
    intro kind
    cases kind <;> rfl
  have first := read kind
  rw [same, read kind'] at first
  exact (Option.some.inj first).symm

private theorem distinct_members (limits : Credential.PerKind (Option RateLimit)) :
    ((encodeAll limits).members.map Prod.fst).Nodup := by
  rw [encodeAll, Value.members, List.map_filterMap]
  refine List.Nodup.filterMap ?_ (by decide)
  intro kind kind' name own other
  simp only [Option.map_map, Option.mem_def, Option.map_eq_some_iff, Function.comp_apply] at own other
  obtain ⟨-, -, rfl⟩ := own
  obtain ⟨-, -, same⟩ := other
  exact word_injective same.symm

private theorem decodeMembers?_given {limits : Credential.PerKind (Option RateLimit)}
    {ns : List (String × Value)} (acc : Credential.PerKind (Option RateLimit))
    (given : ∀ m ∈ ns, ∃ kind l, limits.get kind = some l ∧ m.1 = kind.word ∧ decode? m.2 = some l) :
    ∃ read, decodeMembers? ns acc = some read ∧
      ∀ kind, read.get kind = if kind.word ∈ ns.map Prod.fst then limits.get kind else acc.get kind := by
  induction ns generalizing acc with
  | nil => exact ⟨acc, rfl, fun _ => rfl⟩
  | cons m ns ih =>
    obtain ⟨name, v⟩ := m
    have all := List.forall_mem_cons.mp given
    obtain ⟨kind, l, held, rfl, decoded⟩ := all.1
    obtain ⟨read, reads, value⟩ := ih (acc.set kind (some l)) all.2
    have worded : Credential.Kind.ofWord? kind.word = some kind := by cases kind <;> rfl
    refine ⟨read, ?_, ?_⟩
    · rw [decodeMembers?]
      dsimp only at decoded
      rw [worded, decoded]
      exact reads
    · intro other
      rw [value, Credential.PerKind.get_set]
      by_cases same : other = kind
      · subst same
        simp [held]
      · have different : other.word ≠ kind.word := fun equal => same (word_injective equal)
        have among : other.word ∈ ((kind.word, v) :: ns).map Prod.fst ↔ other.word ∈ ns.map Prod.fst := by
          rw [List.map_cons, List.mem_cons, or_iff_right different]
        simp only [if_neg same, among]

theorem codec_limits : Codec revisionAll encodeAll decodeAll? where
  whole limits := ⟨_, _, _, rfl, keeps_self fun m member => by
    obtain ⟨kind, l, -, -, written⟩ := mem_members.mp member
    rw [written]
    exact codec_limit.whole l, .refl _, rfl⟩
  reads limits w revised := by
    obtain ⟨ns, rfl, fields⟩ := revised_of_object (encodeAll limits).members revised
      (List.nil_sublist _) rfl (distinct_members limits)
    have given : ∀ m ∈ ns, ∃ kind l, limits.get kind = some l ∧ m.1 = kind.word ∧
        decode? m.2 = some l := by
      intro m member
      obtain ⟨v, before, revises⟩ := fields.origin member
      obtain ⟨kind, l, held, named, rfl⟩ := mem_members.mp before
      exact ⟨kind, l, held, named, codec_limit.reads l _ revises⟩
    obtain ⟨read, reads, value⟩ := decodeMembers?_given (.const none) given
    have same : ∀ kind, read.get kind = limits.get kind := by
      intro kind
      rw [value]
      split
      next => rfl
      next missing =>
        cases held : limits.get kind with
        | none => cases kind <;> rfl
        | some l =>
          rcases fields.member (mem_members.mpr ⟨kind, l, held, rfl, rfl⟩) with ⟨w, -, found⟩ | ⟨default, -⟩
          · exact absurd (name_mem found) missing
          · exact absurd default List.not_mem_nil
    have equal : read = limits := by
      have paid := same .paid
      have demo := same .demo
      have anonymous := same .anonymous
      cases read
      cases limits
      simp only [Credential.PerKind.get] at paid demo anonymous
      rw [paid, demo, anonymous]
    rw [← equal]
    exact reads

end RateLimit

namespace KeyRing.Config

def defaults : List (String × Value) := (encode {}).members

def revisionOf : String → Revision
  | "rate_limits" => RateLimit.revisionAll
  | _ => Eq

def revision : Revision := .object revisionOf defaults

theorem codec_keys : Codec revision encode decode? where
  whole c := by
    have kept : Keeps revisionOf defaults (encode c).members (encode c).members :=
      .keep rfl <| .keep rfl <| .keep rfl <| .keep rfl <|
        .keep (RateLimit.codec_limits.whole c.rateLimits) .nil
    exact ⟨_, _, _, rfl, kept, .refl _, rfl⟩
  reads c w revised := by
    obtain ⟨ns, rfl, fields⟩ := revised_of_object defaults revised (.refl _) rfl (by decide)
    have tryAnonymousFirst := fields.optional codec_bool 0 rfl (i := 0) (j := 0) rfl rfl
    have allowAnonymous := fields.optional codec_bool 1 rfl (i := 1) (j := 1) rfl rfl
    have policy := fields.optional RateLimit.codec_policy 2 rfl (i := 2) (j := 2) rfl rfl
    have cooldownSecs := fields.optional codec_uint64 3 rfl (i := 3) (j := 3) rfl rfl
    have rateLimits := fields.optional RateLimit.codec_limits 4 rfl (i := 4) (j := 4) rfl rfl
    exact bind_of_some rfl <| bind_of_some tryAnonymousFirst <| bind_of_some allowAnonymous <|
      bind_of_some policy <| bind_of_some cooldownSecs <| bind_of_some rateLimits rfl

end KeyRing.Config

namespace Endpoint

def paramsRevision : Revision := .object (fun _ => Eq) []

private theorem mapM_of_forall {α β : Type} {read : α → Option β} {f : α → β} {as : List α}
    (reads : ∀ a ∈ as, read a = some (f a)) : as.mapM read = some (as.map f) := by
  induction as with
  | nil => rfl
  | cons a as ih =>
    have all := List.forall_mem_cons.mp reads
    rw [List.mapM_cons, all.1, ih all.2]
    rfl

theorem codec_params : Codec paramsRevision encodeParams decodeParams? where
  whole t := ⟨_, _, _, rfl, keeps_self fun _ _ => rfl, .refl _, rfl⟩
  reads t w revised := by
    obtain ⟨_, kept, ns, ⟨rfl⟩, keeps, order, rfl⟩ := revised
    rw [keeps.eq] at order
    let pair : String × Value → String × String := fun m => (m.1, m.2.text?.getD "")
    have texts : ∀ m ∈ ns, (m.2.text?.map fun s => (m.1, s)) = some (pair m) := by
      intro m member
      obtain ⟨e, -, rfl⟩ := List.mem_map.mp (order.mem_iff.mpr member)
      rfl
    have entries : (ns.map pair).Perm t.entries := by
      have pairs := (order.map pair).symm
      rw [List.map_map] at pairs
      exact pairs.trans (.of_eq (List.map_id _))
    rw [decodeParams?, mapM_of_forall texts, Option.map_some, Table.ofList_of_perm entries]

theorem codec_mode : Codec Eq (fun m : Option Mode => (m.map Mode.encode).getD .null)
    (Value.orNull? Mode.decode?) := by
  apply codec_of_eq
  intro m
  rcases m with _ | m
  · rfl
  · cases m <;> rfl

def defaults : List (String × Value) := (encode { path := "" }).members.drop 1

def revisionOf : String → Revision
  | "query_params" => paramsRevision
  | _ => Eq

def revision : Revision := .object revisionOf defaults

theorem codec_endpoint : Codec revision encode decode? where
  whole e := by
    have kept : Keeps revisionOf defaults (encode e).members (encode e).members :=
      .keep rfl <| .keep rfl <| .keep rfl <| .keep (codec_params.whole e.queryParams) <| .keep rfl <|
        .keep rfl <| .keep rfl .nil
    exact ⟨_, _, _, rfl, kept, .refl _, rfl⟩
  reads e w revised := by
    obtain ⟨ns, rfl, fields⟩ := revised_of_object (encode { path := "" }).members revised
      (List.drop_sublist 1 _) rfl (by decide)
    have path := fields.required codec_text 0 rfl (i := 0) rfl (by decide)
    have baseUrl := fields.optional codec_text 1 rfl (i := 1) (j := 0) rfl rfl
    have proBaseUrl := fields.optional codec_text 2 rfl (i := 2) (j := 1) rfl rfl
    have queryParams := fields.optional codec_params 3 rfl (i := 3) (j := 2) rfl rfl
    have paidKeyParam := fields.optional codec_text 4 rfl (i := 4) (j := 3) rfl rfl
    have demoKeyParam := fields.optional codec_text 5 rfl (i := 5) (j := 4) rfl rfl
    have mode := fields.optional codec_mode 6 rfl (i := 6) (j := 5) rfl rfl
    exact bind_of_some rfl <| bind_of_some path <| bind_of_some baseUrl <| bind_of_some proBaseUrl <|
      bind_of_some queryParams <| bind_of_some paidKeyParam <| bind_of_some demoKeyParam <|
      bind_of_some mode rfl

end Endpoint

namespace FeedConfig

def standard : List (String × Value) := (encode { name := "", endpoint := { path := "" } }).members

def defaults : List (String × Value) := standard.drop 2

def revisionOf : String → Revision
  | "endpoint" => Endpoint.revision
  | "tiers" => .array TierConfig.revision
  | "retry" => RetryConfig.revision
  | "rotator" => KeyRing.Config.revision
  | _ => Eq

def revision : Revision := .object revisionOf defaults

theorem codec_feed : Codec revision encode decode? where
  whole c := by
    have kept : Keeps revisionOf defaults (encode c).members (encode c).members :=
      .keep rfl <| .keep (Endpoint.codec_endpoint.whole c.endpoint) <| .keep rfl <| .keep rfl <|
        .keep rfl <| .keep rfl <| .keep rfl <| .keep (TierConfig.codec_tier.array.whole c.tiers) <|
        .keep rfl <| .keep (RetryConfig.codec_retry.whole c.retry) <|
        .keep (KeyRing.Config.codec_keys.whole c.keys) .nil
    exact ⟨_, _, _, rfl, kept, .refl _, rfl⟩
  reads c w revised := by
    obtain ⟨ns, rfl, fields⟩ := revised_of_object standard revised (List.drop_sublist 2 _) rfl
      (by decide)
    have name := fields.required codec_text 0 rfl (i := 0) rfl (by decide)
    have endpoint := fields.required Endpoint.codec_endpoint 1 rfl (i := 1) rfl (by decide)
    have ttlSecs := fields.optional codec_uint64 2 rfl (i := 2) (j := 0) rfl rfl
    have chunkSize := fields.optional codec_uint64 0 rfl (i := 3) (j := 1) rfl rfl
    have maxIdsLen := fields.optional codec_uint64 1 rfl (i := 4) (j := 2) rfl rfl
    have chunkDelayMs := fields.optional codec_uint64 2 rfl (i := 5) (j := 3) rfl rfl
    have updateIntervalSecs := fields.optional codec_uint64 4 rfl (i := 6) (j := 4) rfl rfl
    have tiers := fields.optional TierConfig.codec_tier.array 5 rfl (i := 7) (j := 5) rfl rfl
    have readThrough := fields.optional codec_bool 6 rfl (i := 8) (j := 6) rfl rfl
    have retry := fields.optional RetryConfig.codec_retry 7 rfl (i := 9) (j := 7) rfl rfl
    have keys := fields.optional KeyRing.Config.codec_keys 8 rfl (i := 10) (j := 8) rfl rfl
    have chunk : ChunkConfig.ofRecord? (.members ns) = some c.chunk :=
      bind_of_some chunkSize <| bind_of_some maxIdsLen <| bind_of_some chunkDelayMs rfl
    exact bind_of_some rfl <| bind_of_some name <| bind_of_some endpoint <| bind_of_some ttlSecs <|
      bind_of_some chunk <| bind_of_some updateIntervalSecs <| bind_of_some tiers <|
      bind_of_some readThrough <| bind_of_some retry <| bind_of_some keys rfl

/-- A configuration is read from what is written for it, and from every revision of this. -/
theorem reads_revisions (c : FeedConfig) :
    decode? c.encode = some c ∧ ∀ v, revision c.encode v → decode? v = some c :=
  ⟨codec_feed.decode?_encode c, codec_feed.reads c⟩

def markets : FeedConfig where
  name := "markets"
  endpoint := { path := "/coins", queryParams := Table.ofList [("vs_currency", "usd")] }
  chunk := { chunkSize := 100 }
  tiers := [⟨"top", 1, 100, 30, false⟩]
  keys := { rateLimits := ⟨none, some ⟨20, 5⟩, none⟩ }

def marketsMembers : List (String × Value) :=
  [("name", .string "markets"),
    ("endpoint", .object [("path", .string "/coins"),
      ("query_params", .object [("vs_currency", .string "usd")])]),
    ("chunk_size", .ofNat 100),
    ("tiers", .array [.object [("name", .string "top"), ("id_from", .ofNat 1), ("id_to", .ofNat 100),
      ("update_interval_secs", .ofNat 30)]]),
    ("rotator", .object [("rate_limits", .object [("demo",
      .object [("requests_per_minute", .ofNat 20), ("burst", .ofNat 5)])])])]

private theorem keeps_markets :
    Keeps revisionOf defaults markets.encode.members marketsMembers := by
  have endpoint : Endpoint.revision markets.endpoint.encode (.object [("path", .string "/coins"),
      ("query_params", .object [("vs_currency", .string "usd")])]) := by
    refine ⟨_, _, _, rfl, ?_, .refl _, rfl⟩
    exact .keep rfl <| .without (i := 0) rfl <| .without (i := 1) rfl <|
      .keep (Endpoint.codec_params.whole markets.endpoint.queryParams) <|
      .without (i := 3) rfl <| .without (i := 4) rfl <| .without (i := 5) rfl .nil
  have tiers : Revision.array TierConfig.revision (.array (markets.tiers.map TierConfig.encode))
      (.array [.object [("name", .string "top"), ("id_from", .ofNat 1), ("id_to", .ofNat 100),
        ("update_interval_secs", .ofNat 30)]]) := by
    refine ⟨_, _, rfl, .cons ⟨_, _, _, rfl, ?_, .refl _, rfl⟩ .nil, rfl⟩
    exact .keep rfl <| .keep rfl <| .keep rfl <| .keep rfl <| .without (i := 0) rfl .nil
  have keys : KeyRing.Config.revision markets.keys.encode (.object [("rate_limits",
      .object [("demo", .object [("requests_per_minute", .ofNat 20), ("burst", .ofNat 5)])])]) := by
    refine ⟨_, _, _, rfl, ?_, .refl _, rfl⟩
    exact .without (i := 0) rfl <| .without (i := 1) rfl <| .without (i := 2) rfl <|
      .without (i := 3) rfl <| .keep (RateLimit.codec_limits.whole markets.keys.rateLimits) .nil
  exact .keep rfl <| .keep endpoint <| .without (i := 0) rfl <| .keep rfl <| .without (i := 2) rfl <|
    .without (i := 3) rfl <| .without (i := 4) rfl <| .keep tiers <| .without (i := 6) rfl <|
    .without (i := 7) rfl <| .keep keys .nil

theorem reads_revisions_markets :
    revision markets.encode (.object marketsMembers.reverse) ∧ decode? markets.encode = some markets ∧
      decode? (.object marketsMembers.reverse) = some markets := by
  have revised : revision markets.encode (.object marketsMembers.reverse) :=
    ⟨_, _, _, rfl, keeps_markets, (List.reverse_perm _).symm, rfl⟩
  exact ⟨revised, (reads_revisions markets).1, (reads_revisions markets).2 _ revised⟩

end FeedConfig

end MarketFeed
