import MarketFeed.ChunkPlan
/-!
Which lists of identifiers have an address: in batch mode all of them, in single mode those of one
identifier. The chunks that a list is cut into are such lists.
-/

set_option autoImplicit false
set_option relaxedAutoImplicit false

namespace MarketFeed

namespace Endpoint.Locator

variable {l : Locator}

theorem url_eq_render {ids : List String} (fits : l.mode = .single → ids.length = 1)
    (credential : Option Credential) :
    l.url ids credential = .ok (l.render (joinIds ids) credential) := by
  rw [url.eq_def]
  cases mode : l.mode with
  | batch =>
    show l.batchUrl ids credential = _
    rw [batchUrl, require, if_pos mode]
    rfl
  | single =>
    obtain ⟨id, rfl⟩ := List.length_eq_one_iff.mp (fits mode)
    show l.singleUrl id credential = _
    rw [singleUrl, require, if_pos mode]
    rfl

theorem url_singleton (l : Locator) (id : String) (credential : Option Credential) :
    l.url [id] credential = .ok (l.render (encodeText id) credential) :=
  url_eq_render (fun _ => rfl) credential

theorem url_of_fits {ids : List String} (fits : l.mode = .single → ids.length = 1)
    (credential : Option Credential) : ∃ url, l.url ids credential = .ok url :=
  ⟨_, url_eq_render fits credential⟩

end Endpoint.Locator

namespace ChunkPlan

theorem length_of_mem_plan {ids chunk : List String} {mode : Endpoint.Mode} {config : ChunkConfig}
    (member : chunk ∈ plan ids mode config) (single : mode = .single) : chunk.length = 1 := by
  subst single
  obtain ⟨id, -, rfl⟩ := List.mem_map.mp member
  rfl

end ChunkPlan

end MarketFeed
