import Mathlib.Data.Finset.Card
import MarketFeed.Proofs.Program.Histories
import MarketFeed.Refresh
import MarketFeed.Table.Lemmas
/-!
What a refresh leaves behind. Its history is an account of the chunks that arrived, each with the
attempt to store it and the announcement that follows; beside them there are only questions for
identifiers, pauses and failed fetches, and at the end the completion if there is one.
-/

set_option autoImplicit false
set_option relaxedAutoImplicit false

namespace MarketFeed.Refresh

open Program

/-- A chunk that arrived: the identifiers asked for, what came, and what the store said to it, which
counts only if there was something to store. -/
structure Arrival where
  ids : List String
  chunk : Payloads
  stored : Except RefreshError Unit

def announcement (feed tier : String) (chunk : Payloads) :
    Except RefreshError Unit → List (Exchanged requests)
  | .ok () => [⟨.inl (.publish (.chunkStored feed tier chunk.size)), ()⟩]
  | .error _ => []

/-- What is asked when a chunk arrives: one attempt to store it if it is not empty, and right after it
one announcement if the attempt succeeded. -/
def Arrival.exchanges (feed tier : String) (a : Arrival) : List (Exchanged requests) :=
  ⟨.inr (.chunk a.ids), .ok a.chunk⟩ ::
    if a.chunk.isEmpty then []
    else ⟨.inl (.store a.chunk), a.stored⟩ :: announcement feed tier a.chunk a.stored

/-- Exchanges that leave nothing behind: questions for identifiers, pauses and failed fetches. -/
def Silent : Exchanged requests → Prop
  | ⟨.inl (.ids _ _), _⟩ => True
  | ⟨.inl (.pause _), _⟩ => True
  | ⟨.inr (.chunk _), .error _⟩ => True
  | _ => False

/-- Histories that consist of some arrivals in their order, with silent exchanges between them. -/
inductive Accounts (feed tier : String) : List Arrival → List (Exchanged requests) → Prop where
  | nothing : Accounts feed tier [] []
  | silent {arrivals : List Arrival} {h : List (Exchanged requests)} {e : Exchanged requests}
      (before : Accounts feed tier arrivals h) (silent : Silent e) :
      Accounts feed tier arrivals (h ++ [e])
  | arrival {arrivals : List Arrival} {h : List (Exchanged requests)} {a : Arrival}
      (before : Accounts feed tier arrivals h) :
      Accounts feed tier (arrivals ++ [a]) (h ++ a.exchanges feed tier)

def Flagged (h : List (Exchanged requests)) : Prop :=
  ∃ e, h.getLast? = some e ∧ e.op = .inl .markReady

/-- Whether a request announces a completion. -/
def IsCompletion : requests.Op → Prop
  | .inl (.publish (.tierCompleted _ _ _)) => True
  | .inl (.publish (.refreshCompleted _ _)) => True
  | _ => False

/-- When a request may be made: the feed is marked as ready right before a completion is announced,
and at no other time, and only chunks that were fetched are stored. -/
structure Orderly (h : List (Exchanged requests)) (op : requests.Op) : Prop where
  flag : Flagged h ↔ IsCompletion op
  fetched : ∀ chunk, op = .inl (.store chunk) →
    ∃ ids, (⟨.inr (.chunk ids), .ok chunk⟩ : Exchanged requests) ∈ h

theorem not_flagged_nil : ¬ Flagged [] := by
  rintro ⟨e, last, -⟩
  cases last

theorem flagged_concat (h : List (Exchanged requests)) (e : Exchanged requests) :
    Flagged (h ++ [e]) ↔ e.op = .inl .markReady := by
  constructor
  · rintro ⟨e', last, marks⟩
    rw [List.getLast?_concat] at last
    cases last
    exact marks
  · intro marks
    exact ⟨e, List.getLast?_concat, marks⟩

private theorem Silent.not_marks {e : Exchanged requests} (silent : Silent e) :
    e.op ≠ .inl .markReady := by
  intro marks
  obtain ⟨op, r⟩ := e
  cases marks
  exact silent

private theorem Arrival.exchanges_end (feed tier : String) (a : Arrival) :
    ∃ before e, a.exchanges feed tier = before ++ [e] ∧ e.op ≠ .inl .markReady := by
  rw [Arrival.exchanges]
  split
  · exact ⟨[], _, rfl, nofun⟩
  · cases a.stored with
    | ok u => exact ⟨[_, _], _, rfl, nofun⟩
    | error e => exact ⟨[_], _, rfl, nofun⟩

theorem Accounts.not_flagged {feed tier : String} {arrivals : List Arrival}
    {h : List (Exchanged requests)} (accounts : Accounts feed tier arrivals h) : ¬ Flagged h := by
  cases accounts with
  | nothing => exact not_flagged_nil
  | silent before silent =>
    rw [flagged_concat]
    exact silent.not_marks
  | @arrival arrivals h a before =>
    obtain ⟨front, e, whole, other⟩ := a.exchanges_end feed tier
    rw [whole, ← List.append_assoc, flagged_concat]
    exact other

theorem Accounts.orderly {feed tier : String} {arrivals : List Arrival}
    {h : List (Exchanged requests)} {op : requests.Op} (accounts : Accounts feed tier arrivals h)
    (other : ¬ IsCompletion op) (noStore : ∀ chunk, op ≠ .inl (.store chunk)) : Orderly h op :=
  ⟨iff_of_false accounts.not_flagged other, fun chunk same => absurd same (noStore chunk)⟩

/-! ### Chunks -/

def gathered (data : Payloads) (arrivals : List Arrival) : Payloads :=
  arrivals.foldl (fun d a => d.union a.chunk) data

/-- How a fetch of some chunks ends when `earlier` had arrived before it: some of the first chunks
arrived, and exactly with a success all of them. -/
def Fetched (feed tier : String) (earlier : List Arrival) (chunks : List (List String))
    (data : Payloads) {ε : Type} (h : List (Exchanged requests)) (r : Except ε Payloads) : Prop :=
  ∃ arrivals, Accounts feed tier (earlier ++ arrivals) h ∧
    arrivals.map Arrival.ids <+: chunks ∧
    match r with
    | .ok d => arrivals.map Arrival.ids = chunks ∧ d = gathered data arrivals
    | .error _ => arrivals.map Arrival.ids ≠ chunks

variable {feed tier : String} {earlier : List Arrival} {h : List (Exchanged requests)}

private theorem obeys_deliver (accounts : Accounts feed tier earlier h) (ids : List String)
    (chunk : Payloads) :
    Obeys Orderly
      (fun k _ => ∃ a : Arrival, a.ids = ids ∧ a.chunk = chunk ∧
        Accounts feed tier (earlier ++ [a]) k)
      (h ++ [⟨.inr (.chunk ids), .ok chunk⟩]) (deliver feed tier chunk) := by
  have fetched_last : ¬ Flagged (h ++ [⟨.inr (.chunk ids), .ok chunk⟩]) := by
    rw [flagged_concat]
    exact nofun
  rw [deliver]
  split
  · rename_i empty
    refine obeys_pure ⟨⟨ids, chunk, .ok ()⟩, rfl, rfl, ?_⟩
    have told := accounts.arrival (a := ⟨ids, chunk, .ok ()⟩)
    rw [Arrival.exchanges, if_pos empty] at told
    exact told
  · rename_i filled
    have told : ∀ stored, Accounts feed tier (earlier ++ [⟨ids, chunk, stored⟩])
        (h ++ [⟨.inr (.chunk ids), .ok chunk⟩] ++ [⟨.inl (.store chunk), stored⟩] ++
          announcement feed tier chunk stored) := by
      intro stored
      have told := accounts.arrival (a := ⟨ids, chunk, stored⟩)
      rw [Arrival.exchanges, if_neg filled] at told
      rw [List.append_assoc, List.append_assoc]
      exact told
    have stores : Obeys Orderly (fun k r => k = h ++ [⟨.inr (.chunk ids), .ok chunk⟩] ++
        [⟨.inl (.store chunk), r⟩]) (h ++ [⟨.inr (.chunk ids), .ok chunk⟩]) (store chunk) :=
      obeys_asked (S := requests) _ ⟨iff_of_false fetched_last id, fun chunk' same =>
        ⟨ids, by cases same; exact List.mem_append_right _ List.mem_cons_self⟩⟩
    refine stores.bind ?_
    rintro k r rfl
    cases r with
    | error e =>
      refine obeys_pure ⟨⟨ids, chunk, .error e⟩, rfl, rfl, ?_⟩
      have whole := told (.error e)
      rw [announcement, List.append_nil] at whole
      exact whole
    | ok u =>
      refine obeys_call (S := requests) ⟨iff_of_false ?_ nofun, nofun⟩ fun u' => ?_
      · rw [flagged_concat]
        exact nofun
      · exact ⟨⟨ids, chunk, .ok ()⟩, rfl, rfl, told (.ok ())⟩

private theorem obeys_prepare (accounts : Accounts feed tier earlier h) (delay : Duration)
    (index : Nat) :
    Obeys Orderly (fun k _ => Accounts feed tier earlier k) h
      ((ChunkFetch.prepare delay index).interpret (carryOut feed tier)) := by
  rw [ChunkFetch.prepare]
  split
  · exact obeys_pure accounts
  · have paused : (ChunkFetch.pause delay).interpret (carryOut feed tier) =
        Program.call (S := requests) (.inl (.pause delay)) :=
      interpret_call (S := ChunkFetch.requests) (carryOut feed tier) (.inl (.pause delay))
    rw [paused]
    exact obeys_call (S := requests) (accounts.orderly id nofun) fun r => accounts.silent trivial

private theorem Fetched.cons {ε : Type} {chunk : List String} {chunks : List (List String)}
    {data : Payloads} {a : Arrival} (ids : a.ids = chunk) {k : List (Exchanged requests)}
    {r : Except ε Payloads}
    (rest : Fetched feed tier (earlier ++ [a]) chunks (data.union a.chunk) k r) :
    Fetched feed tier earlier (chunk :: chunks) data k r := by
  obtain ⟨arrivals, accounts, first, ends⟩ := rest
  refine ⟨a :: arrivals, ?_, ?_, ?_⟩
  · rw [List.append_cons]
    exact accounts
  · rw [List.map_cons, ids]
    exact List.cons_prefix_cons.mpr ⟨rfl, first⟩
  · cases r with
    | ok d =>
      obtain ⟨all, whole⟩ := ends
      exact ⟨by rw [List.map_cons, ids, all], whole⟩
    | error e => exact fun all => ends (List.cons.inj all).2

private theorem Fetched.failed {ε : Type} {chunk : List String} {chunks : List (List String)}
    {data : Payloads} {k : List (Exchanged requests)} {e : ε}
    (accounts : Accounts feed tier earlier k) :
    Fetched feed tier earlier (chunk :: chunks) data k (.error e) := by
  refine ⟨[], ?_, List.nil_prefix, nofun⟩
  rw [List.append_nil]
  exact accounts

private theorem obeys_fetchFrom (accounts : Accounts feed tier earlier h) (delay : Duration)
    (total index : Nat) (chunks : List (List String)) (data : Payloads) :
    Obeys Orderly (Fetched feed tier earlier chunks data) h
      ((ChunkFetch.fetchFrom delay total index chunks data).interpret (carryOut feed tier)) := by
  induction chunks generalizing earlier h index data with
  | nil =>
    refine obeys_pure ⟨[], ?_, List.prefix_rfl, rfl, rfl⟩
    rw [List.append_nil]
    exact accounts
  | cons chunk chunks ih =>
    rw [ChunkFetch.fetchFrom, bind_eq, interpret_bind]
    refine (obeys_prepare accounts delay index).bind fun k signal accounts => ?_
    cases signal with
    | cancelled => exact Fetched.failed accounts
    | elapsed =>
      have asks : Obeys Orderly (fun k' r => k' = k ++ [⟨.inr (.chunk chunk), r⟩]) k
          ((ChunkFetch.fetch chunk).interpret (carryOut feed tier)) :=
        obeys_asked (S := requests) _ (accounts.orderly id nofun)
      show Obeys _ _ _ (((ChunkFetch.fetch chunk).bind _).interpret (carryOut feed tier))
      rw [interpret_bind]
      refine asks.bind ?_
      rintro k' r rfl
      cases r with
      | error e => exact Fetched.failed (accounts.silent trivial)
      | ok arrived =>
        have carried : (ChunkFetch.deliver arrived).interpret (carryOut feed tier) =
            deliver feed tier arrived :=
          interpret_call (S := ChunkFetch.requests) (carryOut feed tier) (.inl (.deliver arrived))
        show Obeys _ _ _ (((ChunkFetch.deliver arrived).bind _).interpret (carryOut feed tier))
        rw [interpret_bind, carried]
        refine (obeys_deliver accounts chunk arrived).bind ?_
        rintro k' - ⟨a, ids, rfl, told⟩
        exact (ih told (index + 1) (data.union a.chunk)).mono fun _ _ => Fetched.cons ids

private theorem obeys_fetchAll (plan : Plan) (accounts : Accounts plan.feed tier earlier h)
    (ids : List String) :
    Obeys Orderly
      (Fetched plan.feed tier earlier (ChunkPlan.plan ids plan.mode plan.chunks) ∅) h
      (fetchAll plan tier ids) := by
  refine (obeys_fetchFrom accounts _ _ 0 (ChunkPlan.plan ids plan.mode plan.chunks) ∅).bind ?_
  intro k r fetched
  refine obeys_pure ?_
  cases r with
  | ok d => exact fetched
  | error e => exact fetched

/-! ### Identifiers of the second source -/

/-- The arrivals that count: those of the second fetch only if all of its chunks arrived. -/
def counted (main extra : List Arrival) (further : List (List String)) : List Arrival :=
  if extra.map Arrival.ids = further then main ++ extra else main

theorem counted_nil (main : List Arrival) : counted main [] [] = main := by
  rw [counted, List.map_nil, if_pos rfl, List.append_nil]

def distinct (arrivals : List Arrival) : Nat :=
  (arrivals.flatMap fun a => a.chunk.keys).toFinset.card

/-- Whether a second fetch may consist of some chunks: none, or those of what the second source has
beyond the first fetch. -/
def Further (plan : Plan) (tier : Tier) (main : List Arrival) (h : List (Exchanged requests))
    (further : List (List String)) : Prop :=
  further = [] ∨ tier.supplementary = true ∧
    ∃ more, (⟨.inl (.ids .supplementary 0), some (.ok more)⟩ : Exchanged requests) ∈ h ∧
      further = ChunkPlan.plan (extraIds (gathered ∅ main) more) plan.mode plan.chunks

theorem contains_union (s t : Payloads) (id : String) :
    (s.union t).contains id = true ↔ s.contains id = true ∨ t.contains id = true := by
  rw [Table.contains, Table.contains, Table.contains, Table.get?_union, Option.isSome_or,
    Bool.or_eq_true, or_comm]

theorem contains_gathered (data : Payloads) (arrivals : List Arrival) (id : String) :
    (gathered data arrivals).contains id = true ↔
      data.contains id = true ∨ ∃ a ∈ arrivals, a.chunk.contains id = true := by
  induction arrivals generalizing data with
  | nil => simp [gathered]
  | cons a rest ih =>
    show (gathered (data.union a.chunk) rest).contains id = true ↔ _
    rw [ih, contains_union, List.exists_mem_cons_iff, or_assoc]

theorem size_eq_distinct {data : Payloads} {arrivals : List Arrival}
    (same : ∀ id, data.contains id = true ↔ ∃ a ∈ arrivals, a.chunk.contains id = true) :
    data.size = distinct arrivals := by
  have once : data.keys.Nodup := by
    rw [Table.keys, List.Nodup, List.pairwise_map]
    refine data.sorted.imp fun {a b} below same_key => ?_
    rw [same_key] at below
    exact String.lt_irrefl _ below
  have keys : data.keys.toFinset = (arrivals.flatMap fun a => a.chunk.keys).toFinset := by
    ext id
    rw [List.mem_toFinset, List.mem_toFinset, Table.mem_keys_iff, same, List.mem_flatMap]
    simp only [Table.mem_keys_iff]
  rw [distinct, ← keys, List.toFinset_card_of_nodup once, Table.keys, List.length_map, Table.size]

variable {plan : Plan} {t : Tier} {main : List Arrival}

def Extra (plan : Plan) (t : Tier) (main : List Arrival) (h : List (Exchanged requests))
    (r : Except RefreshError Payloads) : Prop :=
  ∃ extra further, Accounts plan.feed t.name (main ++ extra) h ∧
    extra.map Arrival.ids <+: further ∧ Further plan t main h further ∧
    match r with
    | .ok d => extra.map Arrival.ids = further ∧ d = gathered ∅ extra
    | .error _ => counted main extra further = main

private theorem Extra.nothing {r : Except RefreshError Payloads}
    (accounts : Accounts plan.feed t.name main h) (empty : ∀ d, r = .ok d → d = ∅) :
    Extra plan t main h r := by
  refine ⟨[], [], ?_, List.prefix_rfl, .inl rfl, ?_⟩
  · rw [List.append_nil]
    exact accounts
  · cases r with
    | ok d => exact ⟨rfl, empty d rfl⟩
    | error e => exact counted_nil main

private theorem obeys_fetchExtra (supplementary : t.supplementary = true)
    (accounts : Accounts plan.feed t.name main h) :
    Obeys Orderly (Extra plan t main) h (fetchExtra plan t.name (gathered ∅ main)) := by
  have asks : Obeys Orderly (fun k r => k = h ++ [⟨.inl (.ids .supplementary 0), r⟩]) h
      (ids .supplementary 0) :=
    obeys_asked (S := requests) _ (accounts.orderly id nofun)
  refine asks.bind ?_
  rintro k answer rfl
  have asked := accounts.silent (e := ⟨.inl (.ids .supplementary 0), answer⟩) trivial
  match answer with
  | none => exact obeys_pure (Extra.nothing asked fun d ok => (Except.ok.inj ok).symm)
  | some (.error e) => exact obeys_pure (Extra.nothing asked nofun)
  | some (.ok more) =>
    show Obeys Orderly (Extra plan t main) _
      (if (extraIds (gathered ∅ main) more).isEmpty then pure (.ok ∅)
        else fetchAll plan t.name (extraIds (gathered ∅ main) more))
    split
    · exact obeys_pure (Extra.nothing asked fun d ok => (Except.ok.inj ok).symm)
    · refine (obeys_fetchAll plan asked _).extends.mono ?_
      rintro k r ⟨kept, extra, told, first, ends⟩
      refine ⟨extra, _, told, first, .inr ⟨supplementary, more, ?_, rfl⟩, ?_⟩
      · exact kept.subset (List.mem_append_right _ List.mem_cons_self)
      · cases r with
        | ok d => exact ends
        | error e => exact if_neg ends

def Supplemented (plan : Plan) (t : Tier) (main : List Arrival) (h : List (Exchanged requests))
    (r : Except RefreshError Payloads) : Prop :=
  ∃ extra further, Accounts plan.feed t.name (main ++ extra) h ∧
    extra.map Arrival.ids <+: further ∧ Further plan t main h further ∧
    ∀ d, r = .ok d → d.size = distinct (counted main extra further)

private theorem size_gathered (arrivals : List Arrival) :
    (gathered ∅ arrivals).size = distinct arrivals := by
  refine size_eq_distinct fun id => ?_
  rw [contains_gathered]
  exact or_iff_right nofun

private theorem obeys_withExtra (accounts : Accounts plan.feed t.name main h) :
    Obeys Orderly (Supplemented plan t main) h (withExtra plan t (gathered ∅ main)) := by
  rw [withExtra]
  split
  · rename_i supplementary
    refine (obeys_fetchExtra supplementary accounts).bind ?_
    rintro k r ⟨extra, further, told, first, source, ends⟩
    cases r with
    | ok d =>
      obtain ⟨all, rfl⟩ := ends
      refine obeys_pure ⟨extra, further, told, first, source, fun d ok => ?_⟩
      cases ok
      rw [counted, if_pos all]
      refine size_eq_distinct fun id => ?_
      rw [contains_union, contains_gathered, contains_gathered]
      simp only [List.mem_append, or_and_right, exists_or]
      exact or_congr (or_iff_right nofun) (or_iff_right nofun)
    | error e =>
      show Obeys Orderly (Supplemented plan t main) k
        (if e.isCancelled then pure (.error e) else pure (.ok (gathered ∅ main)))
      split
      · exact obeys_pure ⟨extra, further, told, first, source, nofun⟩
      · refine obeys_pure ⟨extra, further, told, first, source, fun d ok => ?_⟩
        cases ok
        rw [show counted main extra further = main from ends]
        exact size_gathered main
  · refine obeys_pure ⟨[], [], ?_, List.prefix_rfl, .inl rfl, fun d ok => ?_⟩
    · rw [List.append_nil]
      exact accounts
    · cases ok
      rw [counted_nil]
      exact size_gathered main

/-! ### The whole refresh -/

/-- What is asked when a refresh is completed: the feed becomes ready, and then the number of items is
announced, for the tier if the feed has tiers and otherwise for the feed. -/
def completed (plan : Plan) (tier : Tier) : Except RefreshError Nat → List (Exchanged requests)
  | .ok n =>
    [⟨.inl .markReady, ()⟩,
      ⟨.inl (.publish (if plan.tiered then .tierCompleted plan.feed tier.name n
        else .refreshCompleted plan.feed n)), ()⟩]
  | .error _ => []

/-- The account of a refresh before its end: what arrived for its own ranks, and what arrived of the
second source after all of that. -/
structure Account (plan : Plan) (tier : Tier) (slice : List String) (main extra : List Arrival)
    (further : List (List String)) (before : List (Exchanged requests)) : Prop where
  accounts : Accounts plan.feed tier.name (main ++ extra) before
  first : main.map Arrival.ids <+: ChunkPlan.plan slice plan.mode plan.chunks
  second : extra.map Arrival.ids <+: further
  order : extra ≠ [] → main.map Arrival.ids = ChunkPlan.plan slice plan.mode plan.chunks
  source : Further plan tier main before further

/-- A refresh that tells what it did: an account, and then the completion exactly with a success, for
which every chunk of its own ranks arrived and which counts each identifier once. -/
def Published (plan : Plan) (tier : Tier) (slice : List String) (h : List (Exchanged requests))
    (r : Except RefreshError Nat) : Prop :=
  ∃ main extra further before, Account plan tier slice main extra further before ∧
    h = before ++ completed plan tier r ∧
    ∀ n, r = .ok n → main.map Arrival.ids = ChunkPlan.plan slice plan.mode plan.chunks ∧
      0 < n ∧ n = distinct (counted main extra further)

variable {slice : List String}

private theorem Account.failed {extra : List Arrival} {further : List (List String)}
    (account : Account plan t slice main extra further h) (e : RefreshError) :
    Published plan t slice h (.error e) :=
  ⟨main, extra, further, h, account, (List.append_nil h).symm, nofun⟩

private theorem obeys_conclude {extra : List Arrival} {further : List (List String)}
    (ranks requested : Nat) {d : Payloads}
    (account : Account plan t slice main extra further h)
    (whole : main.map Arrival.ids = ChunkPlan.plan slice plan.mode plan.chunks)
    (size : d.size = distinct (counted main extra further)) :
    Obeys Orderly (fun k r => ¬ Flagged k ∧ Published plan t slice k r) h
      (conclude plan t ranks requested d) := by
  have quiet := account.accounts.not_flagged
  rw [conclude]
  split
  · exact obeys_pure ⟨quiet, account.failed _⟩
  · rename_i filled
    have some_data : 0 < d.size := by
      rw [Table.size, List.length_pos_iff]
      rw [Table.isEmpty, List.isEmpty_iff] at filled
      exact filled
    have marks : Obeys Orderly (fun k _ => k = h ++ [⟨.inl .markReady, ()⟩]) h markReady :=
      obeys_asked (S := requests) _ (account.accounts.orderly id (fun _ same => by cases same))
    refine marks.bind ?_
    rintro k - rfl
    have announces : Obeys Orderly
        (fun k _ => k = h ++ [⟨.inl .markReady, ()⟩] ++
          [⟨.inl (.publish (completion plan t d.size)), ()⟩])
        (h ++ [⟨.inl .markReady, ()⟩]) (publish (completion plan t d.size)) := by
      refine obeys_asked (S := requests) _ ⟨iff_of_true ?_ ?_, ?_⟩
      · rw [flagged_concat]
      · rw [completion]
        split <;> trivial
      · intro _ same
        cases same
    refine announces.bind ?_
    rintro k - rfl
    refine obeys_pure ⟨?_, main, extra, further, h, account, List.append_assoc h _ _, ?_⟩
    · rw [flagged_concat]
      intro same
      cases same
    · intro n ok
      cases ok
      exact ⟨whole, some_data, size⟩

private theorem obeys_slice (accounts : Accounts plan.feed t.name [] h) (ranks : Nat) :
    Obeys Orderly (fun k r => ¬ Flagged k ∧ Published plan t slice k r) h (do
      match ← fetchAll plan t.name slice with
      | .error e => return .error e
      | .ok fetched =>
        match ← withExtra plan t fetched with
        | .error e => return .error e
        | .ok data => conclude plan t ranks slice.length data) := by
  refine (obeys_fetchAll plan accounts slice).bind ?_
  rintro k r ⟨main, told, first, ends⟩
  rw [List.nil_append] at told
  cases r with
  | error e =>
    have account : Account plan t slice main [] [] k := {
      accounts := by
        rw [List.append_nil]
        exact told
      first := first
      second := List.prefix_rfl
      order := fun none => absurd rfl none
      source := .inl rfl }
    exact obeys_pure ⟨told.not_flagged, account.failed e⟩
  | ok fetched =>
    obtain ⟨whole, rfl⟩ := ends
    refine (obeys_withExtra told).bind ?_
    rintro k r ⟨extra, further, told, second, source, size⟩
    have account : Account plan t slice main extra further k :=
      ⟨told, first, second, fun _ => whole, source⟩
    cases r with
    | error e => exact obeys_pure ⟨told.not_flagged, account.failed e⟩
    | ok d => exact obeys_conclude ranks slice.length account whole (size d rfl)


private theorem obeys_body (plan : Plan) (t : Tier) :
    Obeys Orderly
      (fun k r => ¬ Flagged k ∧ ∀ limit ranked slice,
        k.head? = some ⟨.inl (.ids .ranked limit), some (.ok ranked)⟩ →
        t.slice? ranked = some slice → slice ≠ [] → Published plan t slice k r)
      [] (body plan t) := by
  have asks : Obeys Orderly
      (fun k r => k = [⟨.inl (.ids .ranked (if plan.tiered then t.idTo else 0)), r⟩]) []
      (ids .ranked (if plan.tiered then t.idTo else 0)) :=
    obeys_asked (S := requests) _ ⟨iff_of_false not_flagged_nil id, nofun⟩
  refine asks.bind ?_
  rintro k answer rfl
  have asked : Accounts plan.feed t.name []
      [⟨.inl (.ids .ranked (if plan.tiered then t.idTo else 0)), answer⟩] :=
    Accounts.nothing.silent (e := ⟨_, answer⟩) trivial
  cases answer with
  | none => exact obeys_pure ⟨asked.not_flagged, nofun⟩
  | some told =>
    cases told with
    | error e => exact obeys_pure ⟨asked.not_flagged, nofun⟩
    | ok ranked =>
      dsimp only
      cases cut : t.slice? ranked with
      | none => exact ⟨asked.orderly id nofun, nofun⟩
      | some slice =>
        refine obeys_ite (fun empty => ?_) fun _ => ?_
        · refine obeys_pure ⟨asked.not_flagged, fun limit ranked' slice' answered cut' filled => ?_⟩
          cases answered
          cases cut.symm.trans cut'
          exact absurd (List.isEmpty_iff.mp empty) filled
        · refine (obeys_slice asked ranked.length).extends.mono ?_
          rintro k r ⟨kept, quiet, published⟩
          refine ⟨quiet, fun limit ranked' slice' answered cut' filled => ?_⟩
          obtain ⟨rest, rfl⟩ := kept
          cases answered
          cases cut.symm.trans cut'
          exact published

/-- A refresh marks its feed as ready right before it announces its completion, and at no other time,
and it tells what it did. -/
theorem obeys_run (plan : Plan) (t : Tier) (started : Instant) :
    Obeys Orderly
      (fun k r => ¬ Flagged k ∧ ∀ limit ranked slice,
        k.head? = some ⟨.inl (.ids .ranked limit), some (.ok ranked)⟩ →
        t.slice? ranked = some slice → slice ≠ [] →
        ∃ told, k = told ++ [⟨.inl (.finish t.name started (succeeded r)), ()⟩] ∧
          Published plan t slice told r)
      [] (run plan t started) := by
  refine (obeys_body plan t).bind ?_
  rintro k r ⟨quiet, published⟩
  have records : Obeys Orderly
      (fun k' _ => k' = k ++ [⟨.inl (.finish t.name started (succeeded r)), ()⟩]) k
      (finish t.name started (succeeded r)) :=
    obeys_asked (S := requests) _ ⟨iff_of_false quiet id, nofun⟩
  refine records.bind ?_
  rintro k' - rfl
  refine obeys_pure ⟨?_, fun limit ranked slice answered cut filled => ?_⟩
  · rw [flagged_concat]
    exact nofun
  · have answered_before : k.head? = some ⟨.inl (.ids .ranked limit), some (.ok ranked)⟩ := by
      cases k with
      | nil => cases answered
      | cons e rest => exact answered
    obtain ⟨main, extra, further, before, account, whole, success⟩ :=
      published limit ranked slice answered_before cut filled
    cases r with
    | ok n => exact ⟨k, rfl, main, extra, further, before, account, whole, success⟩
    | error e => exact ⟨k, rfl, main, extra, further, before, account, whole, nofun⟩

end MarketFeed.Refresh
