import MarketFeed.Feed
import MarketFeed.Proofs.Program.Histories
import MarketFeed.Table.Lemmas
/-!
What a read returns. Its payload is one that the last answer of the cache held, or one that it fetched
for this identifier and has just stored.
-/

set_option autoImplicit false
set_option relaxedAutoImplicit false

namespace MarketFeed

open Program

namespace Cache

/-- An answer of the cache that holds a payload, or a payload that the cache took. -/
def Holds (e : Exchanged accesses) (id : String) (v : Bytes) : Prop :=
  (∃ ids lookup, e = ⟨.read ids, .ok lookup⟩ ∧ lookup.found.get? id = some v) ∨
    ∃ data, e = ⟨.write data, .ok ()⟩ ∧ data.get? id = some v

def LastAccess {T : Signature} (h : List (Exchanged (accesses.sum T))) (e : Exchanged accesses) :
    Prop :=
  h.getLast? = some ⟨.inl e.op, e.answer⟩

def WritesLoads (h : List (Exchanged requests)) (op : requests.Op) : Prop :=
  ∀ data, op = .inl (.write data) → ∃ id v,
    (⟨.inr (.one id), .ok v⟩ : Exchanged requests) ∈ h ∧ data = Table.empty.insert id v

def Gets {T : Signature} (id : String) (h : List (Exchanged (accesses.sum T)))
    (r : Except RefreshError (Bytes × Status)) : Prop :=
  ∀ v status, r = .ok (v, status) → ∃ e, LastAccess h e ∧ Holds e id v

variable {h : List (Exchanged requests)}

private theorem gets_found {id : String} {ids : List String} {lookup : Lookup} {v : Bytes}
    (found : lookup.found.get? id = some v) (status : Status) :
    Gets id (h ++ [⟨.inl (.read ids), .ok lookup⟩]) (.ok (v, status)) := by
  intro _ _ same
  cases same
  exact ⟨⟨.read ids, .ok lookup⟩, List.getLast?_concat, .inl ⟨ids, lookup, rfl, found⟩⟩

private theorem obeys_getOnly (id : String) : Obeys WritesLoads (Gets id) h (getOnly id) := by
  refine (obeys_asked (S := requests) (.inl (.read [id])) nofun).bind ?_
  rintro k r rfl
  cases r with
  | error e => exact obeys_pure nofun
  | ok lookup =>
    dsimp only
    split
    · rename_i found
      exact obeys_pure (gets_found found _)
    · exact obeys_pure nofun

private theorem obeys_getOrLoad (id : String) : Obeys WritesLoads (Gets id) h (getOrLoad id) := by
  refine (obeys_asked (S := requests) (.inl (.read [id])) nofun).bind ?_
  rintro k r rfl
  cases r with
  | error e => exact obeys_pure nofun
  | ok lookup =>
    dsimp only
    split
    · rename_i found
      exact obeys_pure (gets_found found _)
    · refine (obeys_asked (S := requests) (.inr (.one id)) nofun).bind ?_
      rintro k r rfl
      cases r with
      | error e => exact obeys_pure nofun
      | ok v =>
        have loaded : WritesLoads
            (h ++ [⟨.inl (.read [id]), .ok lookup⟩] ++ [⟨.inr (.one id), .ok v⟩])
            (.inl (.write (Table.empty.insert id v))) := by
          intro data same
          cases same
          exact ⟨id, v, List.mem_append_right _ List.mem_cons_self, rfl⟩
        refine (obeys_asked (S := requests) _ loaded).bind ?_
        rintro k r rfl
        cases r with
        | error e => exact obeys_pure nofun
        | ok u =>
          refine obeys_pure fun _ _ same => ?_
          cases same
          refine ⟨⟨.write (Table.empty.insert id v), .ok ()⟩, List.getLast?_concat, .inr ?_⟩
          exact ⟨_, rfl, (Table.get?_insert _ _ _ _).trans (if_pos rfl)⟩

end Cache

namespace Feed

def WritesFetches (h : List (Exchanged readings)) (op : readings.Op) : Prop :=
  ∀ data, op = .inl (.write data) → ∃ ids chunk,
    (⟨.inr (.chunk ids), .ok chunk⟩ : Exchanged readings) ∈ h ∧
      ∀ id v, data.get? id = some v → chunk.get? id = some v

private structure Follows (h : List (Exchanged Cache.requests)) (k : List (Exchanged readings)) :
    Prop where
  loads : ∀ id v, (⟨.inr (.one id), .ok v⟩ : Exchanged Cache.requests) ∈ h →
    ∃ ids chunk, (⟨.inr (.chunk ids), .ok chunk⟩ : Exchanged readings) ∈ k ∧
      chunk.get? id = some v
  last : ∀ e, Cache.LastAccess h e → Cache.LastAccess k e

private theorem obeys_loadOne (id : String) :
    Obeys (fun _ _ => True)
      (fun k r => ∀ v, r = .ok v → ∃ ids chunk,
        (⟨.chunk ids, .ok chunk⟩ : Exchanged Client.fetches) ∈ k ∧ chunk.get? id = some v)
      [] (loadOne (.one id)) := by
  refine (obeys_asked (S := Client.fetches) (.chunk [id]) trivial).bind ?_
  rintro k r rfl
  cases r with
  | error e => exact obeys_pure nofun
  | ok chunk =>
    dsimp only
    split
    · rename_i v payload
      refine obeys_pure fun _ same => ?_
      cases same
      exact ⟨[id], chunk, List.mem_cons_self, payload⟩
    · exact obeys_pure nofun

private theorem Follows.access {h : List (Exchanged Cache.requests)}
    {k : List (Exchanged readings)} (follows : Follows h k) (op : Cache.accesses.Op)
    (r : Cache.accesses.Answer op) :
    Follows (h ++ [⟨.inl op, r⟩]) (k ++ [⟨.inl op, r⟩]) := by
  constructor
  · intro id v member
    rcases List.mem_append.mp member with old | new
    · obtain ⟨ids, chunk, fetched, payload⟩ := follows.loads id v old
      exact ⟨ids, chunk, List.mem_append_left _ fetched, payload⟩
    · cases List.mem_singleton.mp new
  · intro e last
    have same := List.getLast?_concat.symm.trans last
    cases e
    cases same
    exact List.getLast?_concat

private theorem Follows.load {h : List (Exchanged Cache.requests)} {k : List (Exchanged readings)}
    (follows : Follows h k) (op : Cache.loads.Op) :
    Obeys WritesFetches (fun k' r => Follows (h ++ [⟨.inr op, r⟩]) k') k
      ((loadOne op).inSecond (S := Cache.accesses)) := by
  obtain ⟨id⟩ := op
  refine (obeys_loadOne id).inSecond (fun _ _ _ => nofun) fun more r loaded => ?_
  constructor
  · intro id' v member
    rcases List.mem_append.mp member with old | new
    · obtain ⟨ids, chunk, fetched, payload⟩ := follows.loads id' v old
      exact ⟨ids, chunk, List.mem_append_left _ fetched, payload⟩
    · cases List.mem_singleton.mp new
      obtain ⟨ids, chunk, fetched, payload⟩ := loaded v rfl
      exact ⟨ids, chunk, List.mem_append_right _ (List.mem_map_of_mem fetched), payload⟩
  · intro e last
    have same := List.getLast?_concat.symm.trans last
    cases e
    cases same

private theorem Follows.writes {h : List (Exchanged Cache.requests)} {k : List (Exchanged readings)}
    (follows : Follows h k) {op : Cache.accesses.Op} (allowed : Cache.WritesLoads h (.inl op)) :
    WritesFetches k (.inl op) := by
  intro data same
  cases same
  obtain ⟨id, v, loaded, rfl⟩ := allowed data rfl
  obtain ⟨ids, chunk, fetched, payload⟩ := follows.loads id v loaded
  refine ⟨ids, chunk, fetched, fun id' v' held => ?_⟩
  rw [Table.get?_insert] at held
  split at held
  · rename_i same
    cases held
    rw [same]
    exact payload
  · cases held

private theorem obeys_behind {α : Type} {p : Program Cache.requests α}
    {promise : List (Exchanged Cache.requests) → α → Prop}
    {promise' : List (Exchanged readings) → α → Prop}
    (obeys : Obeys Cache.WritesLoads promise [] p)
    (ended : ∀ h k a, Follows h k → promise h a → promise' k a) :
    Obeys WritesFetches promise' [] (p.interpretSecond loadOne) := by
  have start : Follows [] [] := ⟨fun _ _ member => (nomatch member), fun _ last => nomatch last⟩
  have first : ∀ h k op, Follows h k → Cache.WritesLoads h (.inl op) → WritesFetches k (.inl op) ∧
      ∀ r, Follows (h ++ [⟨.inl op, r⟩]) (k ++ [⟨.inl op, r⟩]) :=
    fun h k op follows allowed => ⟨follows.writes allowed, follows.access op⟩
  exact obeys.interpretSecond first (fun h k op follows _ => follows.load op) ended start

theorem obeys_get (readThrough : Bool) (id : String) :
    Obeys WritesFetches (Cache.Gets id) [] (get readThrough id) := by
  have obeys : Obeys Cache.WritesLoads (Cache.Gets id) []
      (if readThrough then Cache.getOrLoad id else Cache.getOnly id) :=
    obeys_ite (fun _ => Cache.obeys_getOrLoad id) fun _ => Cache.obeys_getOnly id
  refine obeys_behind obeys fun h k r follows gets v status same => ?_
  obtain ⟨e, last, holds⟩ := gets v status same
  exact ⟨e, follows.last e last, holds⟩

theorem obeys_getMultiple (ids : List String) :
    Obeys WritesFetches
      (fun k r => ∀ lookup, r = .ok lookup → Cache.LastAccess k ⟨.read ids, .ok lookup⟩)
      [] (getMultiple ids) := by
  have obeys : Obeys Cache.WritesLoads
      (fun k r => ∀ lookup, r = .ok lookup → Cache.LastAccess k ⟨.read ids, .ok lookup⟩) []
      (Cache.read ids) := by
    refine obeys_call (S := Cache.requests) nofun fun r lookup same => ?_
    cases same
    exact List.getLast?_concat
  exact obeys_behind obeys fun h k r follows found lookup same => follows.last _ (found lookup same)

end Feed

end MarketFeed
