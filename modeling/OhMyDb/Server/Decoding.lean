import OhMyDb.Server.RoundTrip

/-!
The decode loops of `RaftService` on payloads of any length. They go on while there is a
byte left, not while there is a record left, so that what is behind the last whole record is
decoded with bytes from behind the payload.
-/

namespace OhMyDb
namespace Transport
open Records (Layout)
variable {T U : Type} (L : Layout T)

/-- The values of `i` at which a decode loop casts. -/
def castsAt (payload : List UInt8) : List ℕ :=
  L.offsets (fun i => i < payload.length) (payload.length + 1) 0

theorem decodeRequest_entries (L : Layout TransportEntry) (request : AppendEntriesRequest) :
    (decodeRequest L request).entries =
      (castsAt L request.entries).map fun i => (L.read request.entries i).unpack := by
  rw [decodeRequest, L.walk_eq_map, List.map_map]
  rfl

theorem decodeUpdate_eq (L : Layout PeerNetworkConfig) (request : NetworkUpdateRequest) :
    decodeUpdate L request = (castsAt L request.data).map (L.read request.data) :=
  L.walk_eq_map _ _ _ _

/-- A record is begun at every multiple of its size that is inside the payload. -/
theorem castsAt_eq (payload : List UInt8) : castsAt L payload =
    (List.range ((payload.length + L.size - 1) / L.size)).map fun k => k * L.size := by
  have pos := L.size_pos
  have whole := Nat.div_add_mod (payload.length + L.size - 1) L.size
  have part := Nat.mod_lt (payload.length + L.size - 1) pos
  refine (L.offsets_eq (n := (payload.length + L.size - 1) / L.size) (fun k hk => ?_) ?_ ?_).trans
    (by simp)
  · have begun := (Nat.le_div_iff_mul_le pos).mp (Nat.succ_le_of_lt hk)
    rw [Nat.succ_mul] at begun
    simp only [Nat.zero_add, decide_eq_true_eq]
    omega
  · rw [Nat.mul_comm] at whole
    simp only [Nat.zero_add, decide_eq_false_iff_not]
    omega
  · have atLeast := Nat.le_mul_of_pos_right payload.length pos
    rw [Nat.div_lt_iff_lt_mul pos, Nat.succ_mul]
    omega

/-- The records that are begun are the whole ones just when nothing is behind them. -/
theorem begun_eq_whole_iff (n : ℕ) {size : ℕ} (pos : 0 < size) :
    (n + size - 1) / size = n / size ↔ size ∣ n := by
  have split := Nat.div_add_mod n size
  have part := Nat.mod_lt n pos
  rw [Nat.dvd_iff_mod_eq_zero]
  constructor
  · intro same
    have upper := Nat.lt_mul_div_succ (n + size - 1) pos
    rw [same, Nat.mul_succ] at upper
    omega
  · intro none
    refine Nat.div_eq_of_lt_le ?_ ?_
    · rw [Nat.mul_comm]
      omega
    · rw [Nat.succ_mul, Nat.mul_comm]
      omega

/-- The loop reads inside the payload only, and yields a value for each whole record. -/
structure WithinPayload (payload : List UInt8) (decoded : List U) : Prop where
  inside : ∀ i ∈ castsAt L payload, i + L.size ≤ payload.length
  count : decoded.length = payload.length / L.size

theorem withinPayload_iff {payload : List UInt8} {decoded : List U}
    (each : decoded.length = (castsAt L payload).length) :
    WithinPayload L payload decoded ↔ L.size ∣ payload.length := by
  have counted := begun_eq_whole_iff payload.length L.size_pos
  have casts := castsAt_eq L payload
  rw [casts, List.length_map, List.length_range] at each
  constructor
  · intro within
    exact counted.mp (each.symm.trans within.count)
  · intro whole
    have same := counted.mpr whole
    refine ⟨fun i hi => ?_, each.trans same⟩
    rw [casts, same] at hi
    obtain ⟨k, hk, rfl⟩ := List.mem_map.mp hi
    rw [← Nat.succ_mul]
    exact (Nat.mul_le_mul_right _ (List.mem_range.mp hk)).trans (Nat.div_mul_le_self _ _)

/-- What a client sends is whole. -/
theorem buildRequest_whole (L : Layout TransportEntry) {uninitialised : ℕ → ServerInfo}
    {args : AppendEntriesParams} {request : AppendEntriesRequest}
    (built : buildRequest L uninitialised args = some request) :
    L.size ∣ request.entries.length := by
  obtain ⟨shipped, _, rfl⟩ := Option.map_eq_some_iff.mp built
  exact ⟨shipped.length, (L.encodeAll_length shipped).trans (Nat.mul_comm _ _)⟩

theorem buildUpdate_whole (L : Layout PeerNetworkConfig) (pVec : List PeerNetworkConfig) :
    L.size ∣ (buildUpdate L pVec).data.length :=
  ⟨pVec.length, (L.encodeAll_length pVec).trans (Nat.mul_comm _ _)⟩

/-- Both loops keep inside the payload, and decode its whole records, just when it is made
of whole records. -/
theorem decodesWithin_iff (L : Layout TransportEntry) (M : Layout PeerNetworkConfig)
    (request : AppendEntriesRequest) (update : NetworkUpdateRequest) :
    (WithinPayload L request.entries (decodeRequest L request).entries ↔
      L.size ∣ request.entries.length) ∧
    (WithinPayload M update.data (decodeUpdate M update) ↔ M.size ∣ update.data.length) := by
  constructor
  · refine withinPayload_iff L ?_
    rw [decodeRequest_entries, List.length_map]
  · refine withinPayload_iff M ?_
    rw [decodeUpdate_eq, List.length_map]

/-- One byte of a record that has been cut off is decoded as an entry. -/
theorem not_decodesWithin : ¬ ∀ (request : AppendEntriesRequest) (update : NetworkUpdateRequest),
    WithinPayload packed request.entries (decodeRequest packed request).entries ∧
      WithinPayload packedConfig update.data (decodeUpdate packedConfig update) := by
  intro always
  have count := (always ⟨1, 1, -1, -1, [0], -1⟩ (buildUpdate packedConfig [])).1.count
  revert count
  decide

end Transport
end OhMyDb
