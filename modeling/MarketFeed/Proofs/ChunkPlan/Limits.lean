import MarketFeed.ChunkPlan
import MarketFeed.Proofs.Text.Cutting
import MarketFeed.Proofs.Text.Percent
/-!
Plans within limits. The chunks of a plan make up the list again, and each of them keeps the limits on
its identifiers and on their text in an address. A chunk is closed only when the next identifier would
break a limit, so no other way of cutting the list within the limits has fewer chunks.
-/

set_option autoImplicit false
set_option relaxedAutoImplicit false

namespace MarketFeed.ChunkPlan

/-- The bytes that some identifiers take in an address. -/
def bytesOf (ids : List String) : Bytes := Text.Utf8.encode (Endpoint.joinIds ids)

/-- A chunk that can be asked for: of at most `size` identifiers, and of one identifier or of at most
`limit` bytes. -/
structure Fits (size limit : Nat) (chunk : List String) : Prop where
  filled : chunk ≠ []
  count : chunk.length ≤ size
  length : chunk.length = 1 ∨ (bytesOf chunk).length ≤ limit

/-- A list cut into consecutive chunks that can be asked for. -/
structure Cuts (size limit : Nat) (ids : List String) (chunks : List (List String)) : Prop where
  whole : chunks.flatten = ids
  fits : ∀ chunk ∈ chunks, Fits size limit chunk

/-! ### The text of a chunk -/

def weight : List String → Nat
  | [] => 0
  | id :: ids => idLength id + 1 + weight ids

theorem weight_append (ids more : List String) : weight (ids ++ more) = weight ids + weight more := by
  induction ids with
  | nil => rw [List.nil_append, weight, Nat.zero_add]
  | cons id ids ih =>
    rw [List.cons_append, weight, weight, ih]
    omega

theorem length_joinIds (id : String) (ids : List String) :
    (Endpoint.joinIds (id :: ids)).length + 1 = weight (id :: ids) := by
  induction ids generalizing id with
  | nil => simp [Endpoint.joinIds, Text.joinWith, weight, idLength]
  | cons next rest ih =>
    have tail := ih next
    have joined : Endpoint.joinIds (id :: next :: rest) =
        Endpoint.encodeText id ++ [','] ++ Endpoint.joinIds (next :: rest) := rfl
    have own : idLength id = (Endpoint.encodeText id).length := rfl
    rw [weight, joined]
    simp only [List.length_append, List.length_singleton]
    omega

theorem length_bytesOf (ids : List String) :
    (bytesOf ids).length = (Endpoint.joinIds ids).length := by
  apply Text.Utf8.length_encode
  intro c member
  have written : ∀ part ∈ ids.map Endpoint.encodeText, ∀ c ∈ part, c.toNat < 128 := by
    intro part among c member
    obtain ⟨id, -, rfl⟩ := List.mem_map.mp among
    exact Text.Percent.ascii_of_mem_encode member
  rcases Text.mem_of_mem_joinWith member with comma | ⟨part, among, inside⟩
  · rw [List.mem_singleton.mp comma]
    decide
  · exact written part among c inside

theorem length_bytesOf_eq {ids : List String} (filled : ids ≠ []) :
    (bytesOf ids).length + 1 = weight ids := by
  cases ids with
  | nil => exact absurd rfl filled
  | cons id ids =>
    rw [length_bytesOf]
    exact length_joinIds id ids

theorem length_bytesOf_singleton (id : String) : (bytesOf [id]).length = idLength id := by
  have own := length_bytesOf_eq (List.cons_ne_nil id [])
  simp only [weight] at own
  omega

theorem length_bytesOf_concat {chunk : List String} (filled : chunk ≠ []) (id : String) :
    (bytesOf (chunk ++ [id])).length = (bytesOf chunk).length + (idLength id + 1) := by
  have before := length_bytesOf_eq filled
  have after := length_bytesOf_eq (List.append_ne_nil_of_left_ne_nil filled [id])
  simp only [weight_append, weight] at after
  omega

section Limits

variable {size limit : Nat} {chunk ids : List String} {id : String}

theorem fits_singleton (positive : 0 < size) (id : String) : Fits size limit [id] :=
  ⟨by simp, positive, .inl rfl⟩

theorem fits_concat_iff (filled : chunk ≠ []) :
    Fits size limit (chunk ++ [id]) ↔
      chunk.length < size ∧ (bytesOf chunk).length + (idLength id + 1) ≤ limit := by
  have grown := length_bytesOf_concat filled id
  have several : 0 < chunk.length := List.length_pos_iff.mpr filled
  constructor
  · intro fits
    have count := fits.count
    have length := fits.length
    simp only [List.length_append, List.length_singleton] at count length
    omega
  · rintro ⟨count, length⟩
    refine ⟨by simp, ?_, .inr ?_⟩
    · simp only [List.length_append, List.length_singleton]
      omega
    · omega

theorem Fits.part {front part back : List String} (fits : Fits size limit (front ++ part ++ back))
    (filled : part ≠ []) : Fits size limit part := by
  have count := fits.count
  have length := fits.length
  have whole := length_bytesOf_eq fits.filled
  have own := length_bytesOf_eq filled
  have several : 0 < part.length := List.length_pos_iff.mpr filled
  simp only [weight_append] at whole
  simp only [List.length_append] at count length
  refine ⟨filled, by omega, ?_⟩
  rcases length with single | short
  · left
    omega
  · right
    omega

/-! ### Single steps -/

theorem batches_extend {rest : List String} (filled : chunk ≠ [])
    (fits : Fits size limit (chunk ++ [id])) :
    batches size limit chunk (bytesOf chunk).length (id :: rest) =
      batches size limit (chunk ++ [id]) (bytesOf (chunk ++ [id])).length rest := by
  have room := (fits_concat_iff filled).mp fits
  have isOpen : chunk.isEmpty = false := by simpa using filled
  have stays : ¬ (size ≤ chunk.length ∨ limit < (bytesOf chunk).length + (idLength id + 1)) := by omega
  rw [batches, length_bytesOf_concat filled]
  simp [isOpen, stays]

theorem batches_close {rest : List String} (filled : chunk ≠ [])
    (full : ¬ Fits size limit (chunk ++ [id])) :
    batches size limit chunk (bytesOf chunk).length (id :: rest) =
      chunk :: batches size limit [id] (bytesOf [id]).length rest := by
  rw [fits_concat_iff filled] at full
  have isOpen : chunk.isEmpty = false := by simpa using filled
  have closes : size ≤ chunk.length ∨ limit < (bytesOf chunk).length + (idLength id + 1) := by omega
  rw [batches, length_bytesOf_singleton]
  simp [isOpen, closes]

theorem batches_first (id : String) (rest : List String) :
    batches size limit [] 0 (id :: rest) = batches size limit [id] (bytesOf [id]).length rest := by
  rw [batches, length_bytesOf_singleton]
  simp

/-! ### Whole plans -/

theorem cuts_batches (positive : 0 < size) (fits : Fits size limit chunk) :
    Cuts size limit (chunk ++ ids) (batches size limit chunk (bytesOf chunk).length ids) := by
  induction ids generalizing chunk with
  | nil => exact ⟨by simp [batches], by simpa [batches] using fits⟩
  | cons id rest ih =>
    by_cases grows : Fits size limit (chunk ++ [id])
    · rw [batches_extend fits.filled grows, List.append_cons]
      exact ih grows
    · rw [batches_close fits.filled grows]
      have later := ih (fits_singleton positive id)
      refine ⟨?_, ?_⟩
      · rw [List.flatten_cons, later.whole, List.singleton_append]
      · intro part member
        rcases List.mem_cons.mp member with rfl | member
        · exact fits
        · exact later.fits part member

theorem Cuts.drop {chunks : List (List String)} {front back : List String}
    (cuts : Cuts size limit (front ++ back) chunks) :
    ∃ fewer, Cuts size limit back fewer ∧ fewer.length ≤ chunks.length := by
  induction chunks generalizing front with
  | nil =>
    have empty : front ++ back = [] := cuts.whole.symm
    refine ⟨[], ⟨?_, nofun⟩, Nat.le_refl _⟩
    simp [(List.append_eq_nil_iff.mp empty).2]
  | cons first rest ih =>
    have whole : first ++ rest.flatten = front ++ back := by simpa using cuts.whole
    have fits := List.forall_mem_cons.mp cuts.fits
    rcases List.append_eq_append_iff.mp whole with ⟨left, -, later⟩ | ⟨left, cut, later⟩
    · obtain ⟨fewer, cut, le⟩ := ih ⟨later, fits.2⟩
      exact ⟨fewer, cut, Nat.le_succ_of_le le⟩
    · by_cases empty : left = []
      · subst empty
        exact ⟨rest, ⟨by simpa using later.symm, fits.2⟩, Nat.le_succ _⟩
      · have part : Fits size limit left := by
          have first_fits := fits.1
          rw [cut, ← List.append_nil (front ++ left)] at first_fits
          exact first_fits.part empty
        refine ⟨left :: rest, ⟨?_, List.forall_mem_cons.mpr ⟨part, fits.2⟩⟩, Nat.le_refl _⟩
        simpa using later.symm

/-- No cut of an open chunk and the rest of a list has fewer chunks: where the open chunk is closed it
was full, so the first chunk of any other cut ends there or before. -/
theorem length_batches_le (positive : 0 < size) (fits : Fits size limit chunk)
    {chunks : List (List String)} (cuts : Cuts size limit (chunk ++ ids) chunks) :
    (batches size limit chunk (bytesOf chunk).length ids).length ≤ chunks.length := by
  induction ids generalizing chunk chunks with
  | nil =>
    have some_chunk : chunks ≠ [] := by
      rintro rfl
      have empty : [] = chunk ++ [] := cuts.whole
      exact fits.filled (by simpa using empty.symm)
    have several : 0 < chunks.length := List.length_pos_iff.mpr some_chunk
    rw [batches, List.length_singleton]
    omega
  | cons id rest ih =>
    by_cases grows : Fits size limit (chunk ++ [id])
    · rw [batches_extend fits.filled grows]
      apply ih grows
      rw [← List.append_cons]
      exact cuts
    · rw [batches_close fits.filled grows, List.length_cons]
      cases chunks with
      | nil =>
        have empty : [] = chunk ++ id :: rest := cuts.whole
        simp at empty
      | cons first others =>
        have whole : chunk ++ id :: rest = first ++ others.flatten := by simpa using cuts.whole.symm
        have fits_each := List.forall_mem_cons.mp cuts.fits
        have ends : ∃ left, chunk ++ id :: rest = first ++ (left ++ id :: rest) := by
          rcases List.append_eq_append_iff.mp whole with ⟨more, longer, later⟩ | ⟨left, shorter, -⟩
          · cases more with
            | nil => exact ⟨[], by simp [longer]⟩
            | cons head tail =>
              -- The other chunk would hold the open chunk and the identifier that breaks a limit.
              have same : id = head := by
                have heads := later
                simp only [List.cons_append, List.cons.injEq] at heads
                exact heads.1
              have fitting : Fits size limit ([] ++ (chunk ++ [id]) ++ tail) := by
                have first_fits := fits_each.1
                rw [longer, ← same] at first_fits
                simpa using first_fits
              exact absurd (fitting.part (by simp)) grows
          · exact ⟨left, by simp [shorter]⟩
        obtain ⟨left, apart⟩ := ends
        have others_cut : Cuts size limit (left ++ id :: rest) others := by
          refine ⟨?_, fits_each.2⟩
          rw [apart] at whole
          exact (List.append_cancel_left whole).symm
        obtain ⟨fewer, cut, le⟩ := others_cut.drop
        have later := ih (fits_singleton positive id) cut
        simp only [List.length_cons]
        omega

end Limits

theorem plan_single (ids : List String) (config : ChunkConfig) :
    (∀ chunk ∈ plan ids .single config, ∃ id, chunk = [id]) ∧
      (plan ids .single config).flatten = ids := by
  constructor
  · intro chunk member
    obtain ⟨id, -, same⟩ := List.mem_map.mp member
    exact ⟨id, same.symm⟩
  · rw [plan, ← List.flatMap_def]
    exact List.flatMap_singleton' ids

private theorem plan_batch (id : String) (rest : List String) (config : ChunkConfig) :
    plan (id :: rest) .batch config =
      batches (max config.chunkSize.toNat 1) config.maxIdsLen.toNat [id] (bytesOf [id]).length rest :=
  batches_first id rest

theorem cuts_plan (ids : List String) (config : ChunkConfig) :
    Cuts (max config.chunkSize.toNat 1) config.maxIdsLen.toNat ids (plan ids .batch config) := by
  cases ids with
  | nil => exact ⟨rfl, nofun⟩
  | cons id rest =>
    have positive : 0 < max config.chunkSize.toNat 1 := by omega
    rw [plan_batch]
    exact cuts_batches positive (fits_singleton positive id)

theorem flatten_plan (ids : List String) (mode : Endpoint.Mode) (config : ChunkConfig) :
    (plan ids mode config).flatten = ids := by
  cases mode with
  | single => exact (plan_single ids config).2
  | batch => exact (cuts_plan ids config).whole

/-- A plan in batch mode is a cut within the limits, with as few chunks as any; the limit on the length
is one on the text that is put into the address of the chunk. In single mode each identifier is a chunk. -/
theorem plan_fewest (ids : List String) (config : ChunkConfig) :
    let size := max config.chunkSize.toNat 1
    let limit := config.maxIdsLen.toNat
    Cuts size limit ids (plan ids .batch config) ∧
      (∀ chunks, Cuts size limit ids chunks → (plan ids .batch config).length ≤ chunks.length) ∧
      (∀ (l : Endpoint.Locator) (credential : Option Credential), l.mode = .batch →
        ∀ chunk ∈ plan ids .batch config, ∃ text, Text.Utf8.encode text = bytesOf chunk ∧
          l.batchUrl chunk credential = .ok (l.render text credential)) ∧
      (∀ chunk ∈ plan ids .single config, ∃ id, chunk = [id]) ∧
      (plan ids .single config).flatten = ids := by
  intro size limit
  have positive : 0 < size := by omega
  refine ⟨cuts_plan ids config, ?_, ?_, plan_single ids config⟩
  · intro chunks cuts
    cases ids with
    | nil => exact Nat.zero_le _
    | cons id rest =>
      rw [plan_batch]
      exact length_batches_le positive (fits_singleton positive id) cuts
  · intro l credential batch chunk member
    refine ⟨Endpoint.joinIds chunk, rfl, ?_⟩
    rw [Endpoint.Locator.batchUrl, Endpoint.Locator.require, if_pos batch]
    rfl

theorem plan_fewest_letters :
    Cuts 2 3 ["a", "b", "c"] [["a"], ["b", "c"]] ∧
      plan ["a", "b", "c"] .batch ⟨2, 3, 0⟩ = [["a", "b"], ["c"]] ∧
      (plan ["a", "b", "c"] .batch ⟨2, 3, 0⟩).length ≤ [["a"], ["b", "c"]].length := by
  have other : Cuts 2 3 ["a", "b", "c"] [["a"], ["b", "c"]] := by
    refine ⟨rfl, ?_⟩
    intro chunk member
    simp only [List.mem_cons, List.not_mem_nil, or_false] at member
    rcases member with rfl | rfl
    · exact fits_singleton (by decide) "a"
    · exact ⟨by decide, by decide, .inr (by decide)⟩
  exact ⟨other, by decide, (plan_fewest ["a", "b", "c"] ⟨2, 3, 0⟩).2.1 _ other⟩

end MarketFeed.ChunkPlan
