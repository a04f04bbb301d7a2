import OhMyDb.Raft.Handlers

/-!
What suspended calls are still to do. As long as at most one of them has entries left and
no two are to update the same peer, it makes no difference in which order they go on, and a
handler comes to the same whether it runs before they do or after, if it decides alike.
-/

namespace OhMyDb

/-- A call that has let go of the mutex in its append loop: the update it is to make at the
peers, if it has not, and the entries it is to push. -/
structure Suspension where
  update : Option PeerUpdate
  rest : List LogEntry

namespace Suspension

/-- The updates still to be made. -/
def due (id : Int) (w : Suspension) : List PeerUpdate := w.update.toList ++ peerUpdates id w.rest

/-- The calls do not get in each other's way. -/
def Apart (id : Int) (v w : Suspension) : Prop :=
  (v.rest = [] ∨ w.rest = []) ∧ ∀ u ∈ v.due id, ∀ u' ∈ w.due id, u.peer ≠ u'.peer

theorem Apart.symm {id : Int} {v w : Suspension} (h : v.Apart id w) : w.Apart id v :=
  ⟨h.1.symm, fun u hu u' hu' => (h.2 u' hu' u hu).symm⟩

theorem Apart.less {id : Int} {v v' w : Suspension} (h : v.Apart id w)
    (rest : v.rest = [] → v'.rest = []) (due : v'.due id ⊆ v.due id) : v'.Apart id w :=
  ⟨h.1.imp_left rest, fun u hu => h.2 u (due hu)⟩

end Suspension

open Suspension (Apart)

theorem apply_comm {u v : PeerUpdate} (ne : u.peer ≠ v.peer) (s : Finset Int) :
    v.apply (u.apply s) = u.apply (v.apply s) := by
  cases u <;> cases v <;> simp only [PeerUpdate.peer] at ne <;>
    simp only [PeerUpdate.apply]
  · exact Finset.insert_comm _ _ _
  · exact (Finset.erase_insert_of_ne ne)
  · exact (Finset.erase_insert_of_ne ne.symm).symm
  · exact Finset.erase_right_comm

theorem foldl_apply {u : PeerUpdate} {vs : List PeerUpdate} (ne : ∀ v ∈ vs, u.peer ≠ v.peer)
    (s : Finset Int) : vs.foldl PeerUpdate.apply (u.apply s) =
      u.apply (vs.foldl PeerUpdate.apply s) := by
  induction vs generalizing s with
  | nil => rfl
  | cons v vs ih =>
      rw [List.foldl_cons, apply_comm (ne v List.mem_cons_self),
        ih fun w hw => ne w (List.mem_cons_of_mem _ hw)]
      rfl

theorem foldl_apply_comm {us vs : List PeerUpdate} (ne : ∀ u ∈ us, ∀ v ∈ vs, u.peer ≠ v.peer)
    (s : Finset Int) : vs.foldl PeerUpdate.apply (us.foldl PeerUpdate.apply s) =
      us.foldl PeerUpdate.apply (vs.foldl PeerUpdate.apply s) := by
  induction us generalizing s with
  | nil => rfl
  | cons u us ih =>
      rw [List.foldl_cons, List.foldl_cons, ih fun w hw => ne w (List.mem_cons_of_mem _ hw),
        foldl_apply (ne u List.mem_cons_self)]

namespace Core
variable {c d : Core} {v w : Suspension} {vs ws ws' : List Suspension} {es : List LogEntry}
  {stop : Option (PeerUpdate × List LogEntry)}

/-- Everything suspended calls are still to do has been done. -/
def complete (c : Core) (ws : List Suspension) : Core :=
  (c.push (ws.flatMap (·.rest))).connect (ws.flatMap (·.due c.id))

theorem complete_append (c : Core) (vs ws : List Suspension) :
    c.complete (vs ++ ws) = (c.complete vs).complete ws := by
  simp only [complete, List.flatMap_append, push_append, connect_append]
  rfl

theorem complete_cons (c : Core) (w : Suspension) (ws : List Suspension) :
    c.complete (w :: ws) = (c.complete [w]).complete ws :=
  c.complete_append [w] ws

@[simp] theorem complete_nil (c : Core) : c.complete [] = c := by
  rw [complete, List.flatMap_nil, push_nil]
  rfl

theorem complete_swap (c : Core) (apart : v.Apart c.id w) :
    c.complete [v, w] = c.complete [w, v] := by
  have rest : [v, w].flatMap (·.rest) = [w, v].flatMap (·.rest) := by
    rcases apart.1 with nil | nil <;> simp [nil]
  have due (s : Finset Int) : ([v, w].flatMap (·.due c.id)).foldl PeerUpdate.apply s =
      ([w, v].flatMap (·.due c.id)).foldl PeerUpdate.apply s := by
    simp only [List.flatMap_cons, List.flatMap_nil, List.append_nil, List.foldl_append]
    exact foldl_apply_comm apart.2 s
  rw [complete, complete, connect, connect, due, rest]

/-- The order in which suspended calls go on does not matter. -/
theorem complete_perm (p : ws.Perm vs) (apart : ws.Pairwise (Apart c.id)) :
    c.complete ws = c.complete vs := by
  induction p generalizing c with
  | nil => rfl
  | cons w _ ih =>
      rw [complete_cons, ih (c := c.complete [w]) (List.pairwise_cons.mp apart).2,
        ← complete_cons]
  | swap v w l =>
      have two : w.Apart c.id v := List.rel_of_pairwise_cons apart List.mem_cons_self
      calc c.complete (w :: v :: l)
        _ = (c.complete [w, v]).complete l := c.complete_append [w, v] l
        _ = (c.complete [v, w]).complete l := by rw [complete_swap c two]
        _ = c.complete (v :: w :: l) := (c.complete_append [v, w] l).symm
  | trans p _ ih ih' => rw [ih apart, ih' (p.pairwise apart Apart.symm)]

/-- A suspended call goes some way. -/
theorem complete_replace (new : Option Suspension) (apart : ws.Pairwise (Apart c.id))
    (p : ws.Perm (w :: vs)) (p' : ws'.Perm (new.toList ++ vs)) (id : d.id = c.id)
    (same : d.complete new.toList = c.complete [w])
    (less : ∀ v ∈ new, (w.rest = [] → v.rest = []) ∧ v.due c.id ⊆ w.due c.id) :
    ws'.Pairwise (Apart d.id) ∧ d.complete ws' = c.complete ws := by
  have apart' : (w :: vs).Pairwise (Apart c.id) := p.pairwise apart Apart.symm
  have kept : (new.toList ++ vs).Pairwise (Apart d.id) := by
    rw [id]
    cases new with
    | none => exact (List.pairwise_cons.mp apart').2
    | some v =>
        refine List.pairwise_cons.mpr ⟨fun x hx => ?_, (List.pairwise_cons.mp apart').2⟩
        exact ((List.pairwise_cons.mp apart').1 x hx).less (less v rfl).1 (less v rfl).2
  refine ⟨p'.symm.pairwise kept Apart.symm, ?_⟩
  calc d.complete ws'
    _ = d.complete (new.toList ++ vs) := complete_perm p' (p'.symm.pairwise kept Apart.symm)
    _ = (c.complete [w]).complete vs := by rw [complete_append, same]
    _ = c.complete ws := by rw [← complete_cons, complete_perm p apart]

/-- Where an append loop has stopped. -/
def suspended (stop : Option (PeerUpdate × List LogEntry)) : Option Suspension :=
  stop.map fun p => { update := some p.1, rest := p.2 }

theorem goOn_eq (c : Core) (stop : Option (PeerUpdate × List LogEntry)) :
    c.goOn stop = c.complete (suspended stop).toList := by
  cases stop with
  | none => exact c.complete_nil.symm
  | some p =>
      simp only [goOn, suspended, Option.map_some, Option.toList_some, complete, Suspension.due,
        List.flatMap_cons, List.flatMap_nil, List.append_nil, connect_append]
      rfl

/-- What is left of the loop is part of it. -/
theorem Stops.less (h : c.Stops es d stop) : ∀ v ∈ suspended stop,
    (es = [] → v.rest = []) ∧ v.due c.id = peerUpdates c.id es := by
  intro v hv
  cases stop with
  | none => cases hv
  | some p =>
      cases hv
      obtain ⟨pushed, rfl, due, _⟩ := h
      refine ⟨fun nil => (List.append_eq_nil_iff.mp nil).2, ?_⟩
      rw [peerUpdates, List.filterMap_append]
      exact congrArg (· ++ _) due.symm

theorem Stops.id (h : c.Stops es d stop) : d.id = c.id := by
  cases stop with
  | none =>
      obtain ⟨_, rfl⟩ := h
      rfl
  | some p =>
      obtain ⟨_, _, _, rfl⟩ := h
      rfl

/-- A suspended call has pushed more of its entries. -/
theorem Stops.resume (h : c.Stops w.rest d stop) (none : w.update = none)
    (apart : ws.Pairwise (Apart c.id)) (p : ws.Perm (w :: vs))
    (p' : ws'.Perm ((suspended stop).toList ++ vs)) :
    ws'.Pairwise (Apart d.id) ∧ d.complete ws' = c.complete ws := by
  have due : w.due c.id = peerUpdates c.id w.rest := by rw [Suspension.due, none]; rfl
  refine complete_replace (suspended stop) apart p p' h.id ?_ fun v hv => ⟨(h.less v hv).1, ?_⟩
  · rw [← goOn_eq, h.goOn, complete, List.flatMap_cons, List.flatMap_nil, List.append_nil,
      List.flatMap_cons, List.flatMap_nil, List.append_nil, due]
    rfl
  · rw [(h.less v hv).2, due]
    exact List.Subset.refl _

theorem Stops.connect (h : c.Stops es d stop) (us : List PeerUpdate) :
    (c.connect us).Stops es (d.connect us) stop := by
  cases stop with
  | none =>
      obtain ⟨still, rfl⟩ := h
      exact ⟨still, rfl⟩
  | some p =>
      obtain ⟨pushed, split, due, rfl⟩ := h
      exact ⟨pushed, split, due, rfl⟩

/-- With no entries left only updates of the peers are. -/
theorem complete_done (done : ∀ w ∈ ws, w.rest = []) :
    c.complete ws = c.connect (ws.flatMap (·.due c.id)) := by
  have nil : ws.flatMap (·.rest) = [] := List.flatMap_eq_nil_iff.mpr done
  rw [complete, nil, push_nil]

/-- A call comes to where it is suspended, with no entries of others left. -/
theorem Stops.enter (h : c.Stops es d stop) (done : ∀ w ∈ ws, w.rest = [])
    (apart : ws.Pairwise (Apart c.id))
    (other : ∀ w ∈ ws, ∀ u ∈ w.due c.id, ∀ v ∈ peerUpdates c.id es, u.peer ≠ v.peer)
    (p' : ws'.Perm (ws ++ (suspended stop).toList)) :
    ws'.Pairwise (Apart d.id) ∧ d.complete ws' = (c.complete ws).append es := by
  have joined : (ws ++ (suspended stop).toList).Pairwise (Apart d.id) := by
    rw [h.id]
    refine List.pairwise_append.mpr ⟨apart, ?_, fun w hw v hv => ⟨Or.inl (done w hw), ?_⟩⟩
    · cases suspended stop <;> simp
    · rw [(h.less v (Option.mem_toList.mp hv)).2]
      exact other w hw
  refine ⟨p'.symm.pairwise joined Apart.symm, ?_⟩
  calc d.complete ws'
    _ = d.complete (ws ++ (suspended stop).toList) :=
        complete_perm p' (p'.symm.pairwise joined Apart.symm)
    _ = (d.connect (ws.flatMap (·.due c.id))).goOn stop := by
        rw [complete_append, complete_done done, goOn_eq, h.id]
    _ = (c.connect (ws.flatMap (·.due c.id))).append es := (h.connect _).goOn
    _ = (c.complete ws).append es := by rw [complete_done done]

end Core
end OhMyDb
