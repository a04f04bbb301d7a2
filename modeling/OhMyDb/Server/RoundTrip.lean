import OhMyDb.Model.Transport
import Mathlib.Algebra.Order.Group.Nat

/-!
What `RaftService::AppendEntries` decodes is what `RaftClient::AppendEntries` was given,
but for the promises, which stay behind.
-/

namespace OhMyDb
namespace Transport
open Records (Layout)

def AppendLogEntry.withoutPromise (entry : AppendLogEntry) : AppendLogEntry :=
  { entry with op := { entry.op with promiseHandle := none } }

def AppendEntriesParams.withoutPromises (args : AppendEntriesParams) : AppendEntriesParams :=
  { args with entries := args.entries.map AppendLogEntry.withoutPromise }

/-- Each operation has the alternative of `args` that its `kind` requires. -/
def AppendEntriesParams.WellTyped (args : AppendEntriesParams) : Prop :=
  ∀ entry ∈ args.entries, entry.op.command.isSome = true

instance (args : AppendEntriesParams) : Decidable args.WellTyped :=
  inferInstanceAs (Decidable (∀ entry ∈ args.entries, _ = true))

/-- One entry: what is shipped is unpacked again, whatever the unused fields hold. -/
theorem AppendLogEntry.unpack_ship {entry : AppendLogEntry}
    (typed : entry.op.command.isSome = true) (serverInfo : ServerInfo) :
    ∃ shipped, entry.ship serverInfo = some shipped ∧ shipped.unpack = entry.withoutPromise := by
  obtain ⟨term, index, kind, args, promiseHandle⟩ := entry
  cases kind <;> cases args <;> first | exact ⟨_, rfl, rfl⟩ | cases typed

/-- The whole list, in order. -/
theorem unpack_shipAll {entries : List AppendLogEntry}
    (typed : ∀ entry ∈ entries, entry.op.command.isSome = true) (uninitialised : ℕ → ServerInfo)
    (i : ℕ) : ∃ shipped,
      ((entries.zipIdx i).mapM fun (entry, i) => entry.ship (uninitialised i)) = some shipped ∧
        shipped.map TransportEntry.unpack = entries.map AppendLogEntry.withoutPromise := by
  induction entries generalizing i with
  | nil => exact ⟨[], rfl, rfl⟩
  | cons entry entries ih =>
      obtain ⟨here, rest⟩ := List.forall_mem_cons.mp typed
      obtain ⟨first, shipped, same⟩ := entry.unpack_ship here (uninitialised i)
      obtain ⟨others, all, sames⟩ := ih rest (i + 1)
      refine ⟨first :: others, ?_, by rw [List.map_cons, List.map_cons, same, sames]⟩
      rw [List.zipIdx_cons, List.mapM_cons]
      simp [shipped, all]

/-- The bytes are read back record by record. -/
theorem walk_encodeAll (L : Layout TransportEntry) (xs : List TransportEntry) :
    L.walk (fun i => i < (L.encodeAll xs).length) (L.encodeAll xs)
      ((L.encodeAll xs).length + 1) 0 = xs := by
  rw [← List.append_nil (L.encodeAll xs)]
  refine L.walk_eq xs [] (fun k hk => ?_) ?_ ?_
  · simpa using Nat.mul_lt_mul_of_pos_right hk L.size_pos
  · simp
  · rw [List.append_nil, L.encodeAll_length]
    exact Nat.lt_succ_of_le (Nat.le_mul_of_pos_right _ L.size_pos)

/-- What is decoded from the request is what the request was built from, without the
promises. -/
theorem roundTrip (L : Layout TransportEntry) (uninitialised : ℕ → ServerInfo)
    (args : AppendEntriesParams) (typed : args.WellTyped) :
    ∃ request, buildRequest L uninitialised args = some request ∧
      decodeRequest L request = args.withoutPromises := by
  obtain ⟨shipped, all, same⟩ := unpack_shipAll typed uninitialised 0
  refine ⟨_, by rw [buildRequest, all]; rfl, ?_⟩
  simp only [decodeRequest, walk_encodeAll, same]
  rfl

/-- One entry of each kind. -/
def oneOfEach : AppendEntriesParams where
  term := 3
  leaderId := 1
  prevLogIndex := -1
  prevLogTerm := -1
  entries := [
    ⟨1, 0, .get, .getarg 5, some 0⟩,
    ⟨2, 1, .put, .putarg (5, -7), some 1⟩,
    ⟨3, 2, .addServer, .addserverarg ⟨4, .replicate 20 49, 5000, 6000, .replicate 25 0⟩, none⟩,
    ⟨3, 3, .removeServer, .getarg 2, none⟩]
  leaderCommit := 1

theorem roundTrip_oneOfEach : ∃ request,
    buildRequest packed (fun _ => ⟨-1, .replicate 20 255, 7, 8, .replicate 25 1⟩) oneOfEach =
      some request ∧ decodeRequest packed request = oneOfEach.withoutPromises :=
  roundTrip packed _ oneOfEach (by decide)

theorem AppendLogEntry.value_withoutPromise {entry : AppendLogEntry} {e : OhMyDb.AppendLogEntry}
    (means : entry.value = some e) : entry.op.command.isSome = true ∧
      entry.withoutPromise.value = some { e with op := e.op.withoutPromise } := by
  obtain ⟨command, read, rfl⟩ := Option.map_eq_some_iff.mp means
  refine ⟨by simp [read], ?_⟩
  rw [AppendLogEntry.value, show entry.withoutPromise.op.command = entry.op.command from rfl, read]
  rfl

theorem mapM_value_withoutPromise {entries : List AppendLogEntry} {es : List OhMyDb.AppendLogEntry}
    (means : entries.mapM AppendLogEntry.value = some es) :
    (∀ entry ∈ entries, entry.op.command.isSome = true) ∧
      (entries.map AppendLogEntry.withoutPromise).mapM AppendLogEntry.value =
        some (es.map fun e => { e with op := e.op.withoutPromise }) := by
  induction entries generalizing es with
  | nil =>
      cases means
      exact ⟨by simp, rfl⟩
  | cons entry entries ih =>
      rw [List.mapM_cons] at means
      obtain ⟨e, first, means⟩ := Option.bind_eq_some_iff.mp means
      obtain ⟨es, rest, means⟩ := Option.bind_eq_some_iff.mp means
      cases means
      obtain ⟨typed, stripped⟩ := AppendLogEntry.value_withoutPromise first
      obtain ⟨allTyped, allStripped⟩ := ih rest
      refine ⟨List.forall_mem_cons.mpr ⟨typed, allTyped⟩, ?_⟩
      rw [List.map_cons, List.mapM_cons, stripped, allStripped]
      rfl

/-- To the replicas the message arrives as it was, without its promises. -/
theorem value_decodeRequest (L : Layout TransportEntry) (uninitialised : ℕ → ServerInfo)
    {args : AppendEntriesParams} {sent : OhMyDb.AppendEntriesParams}
    (means : args.value = some sent) : ∃ request, buildRequest L uninitialised args = some request ∧
      (decodeRequest L request).value = some { sent with
        entries := sent.entries.map fun e => { e with op := e.op.withoutPromise } } := by
  obtain ⟨entries, all, rfl⟩ := Option.map_eq_some_iff.mp means
  obtain ⟨typed, stripped⟩ := mapM_value_withoutPromise all
  obtain ⟨request, built, decoded⟩ := roundTrip L uninitialised args typed
  refine ⟨request, built, ?_⟩
  rw [decoded, AppendEntriesParams.value, AppendEntriesParams.withoutPromises, stripped]
  rfl

end Transport
end OhMyDb
