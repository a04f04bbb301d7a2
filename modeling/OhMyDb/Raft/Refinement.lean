import OhMyDb.Raft.Committing

/-!
The cluster refines leader-based replication: each step is answered by abstract
steps, so a run that keeps to the conditions of a level ends in a cluster that
stands for a reachable abstract state. Next to it the run itself is searched for
the moments at which what has been acknowledged was held.
-/

namespace OhMyDb
open Execution
open LeaderLog (Held Ack)

/-- What the steps of a run have to keep to. -/
structure Level.Allows (ℓ : Level) (c : Cluster) (a : Action) : Prop where
  noStepBack : c.NoStepBack a
  thisTerm : c.VotesOfThisTerm a
  single : c.SingleVote a
  ops : c.LeaderAppendsOps a
  appends : ℓ ≠ .matching → c.LeaderAppends a
  replies : ℓ ≠ .matching → c.RepliesOfThisTerm a
  sends : ℓ = .executing → c.LeaderSends a

variable {ℓ : Level} {config : IntMap ServerInfo} {b b' : AbstractState} {c c' : Cluster}
  {a : Action} {h : List (Cluster × Action)}

theorem Follows.same (sim : Simulates ℓ c b) : Follows ℓ config b c :=
  ⟨b, .refl, fun _ => Or.inl, sim⟩

theorem Simulates.step (sim : Simulates ℓ c b) (reached : ℓ.Reached config b)
    (static : c.Static config) (servers : c.servers = config.keys) (tally : c.Tally)
    (ballots : c.Ballots) (server : a.replica ∈ c.servers) (tr : Cluster.Transition c a c')
    (fixed : a.isMembership = false) (ok : ℓ.Allows c a) : Follows ℓ config b c' := by
  have apart (r : Int) : r ∉ (c.node r).peers := by
    have self := (tally.apart r).peers
    rwa [tally.id r] at self
  cases tr with
  | electionTick r now timeout =>
      exact sim.follows reached ((sim r).electionTick reached (tally.id r) now timeout)
  | voteSend r k t ht _ _ _ =>
      exact sim.follows reached ((sim r).voteSend reached (tally.counts r) ht)
  | voteDeliver r k now t args ht ha _ => exact sim.voteDeliver reached tally ht ha ok.single
  | voteReturn r k reply now t ht waiting mem =>
      exact sim.voteReturn reached static servers tally ballots ht waiting mem ok.thisTerm
        ok.noStepBack
  | voteFail r k t _ _ =>
      exact .same (sim.setSame { sim r with requested := (sim r).requested.modify fun _ => rfl })
  | raftImpl r =>
      exact sim.follows reached ((sim r).raftImpl reached (static r) ok.ops ok.appends)
  | appendSend r k junk t ht fresh _ _ =>
      exact sim.follows reached ((sim r).appendSend reached ht fresh (fun hl => ok.sends hl t ht)
        junk)
  | appendDeliver r k now t args ht ha _ => exact sim.appendDeliver reached static ht ha
  | appendUpdate p j h peer hj _ =>
      rw [(static p).handlers] at hj
      exact nomatch hj
  | appendResume p j h hj _ =>
      rw [(static p).handlers] at hj
      exact nomatch hj
  | appendReturn r k reply now t args ht ha _ mem =>
      obtain ⟨m, sender, carries⟩ := (sim r).sends.message t (List.mem_of_getElem? ht) args ha
      exact sim.follows reached (((sim r).appendReply reached (static r) (apart r) (tally.id r)
        (servers ▸ server) carries sender mem (ok.noStepBack t ht)
        fun hl => ok.replies hl t ht).finish k)
  | appendFail r k t _ _ =>
      exact .same (sim.setSame { sim r with sends := (sim r).sends.finish })
  | executer r status =>
      obtain ⟨_, _, _, _, _, notes, eq⟩ := (c.node r).executer_eq status
      rw [eq]
      exact .same (sim.setSame { sim r with
        voted := (sim r).voted.notes notes, recalls := (sim r).recalls.notes notes })
  | clientGet r key => exact .same (sim.setSame { sim r with })
  | clientPut r key value => exact .same (sim.setSame { sim r with })
  | addServer r args => cases fixed
  | removeServer r serverId => cases fixed
  | callStep r j now call p hc hp =>
      obtain ⟨_, _, _, _, notes, eq⟩ := Replica.advance_eq
        ((static r).calls call (List.mem_of_getElem? hc)) hp
      rw [eq]
      exact .same (sim.setSame { sim r with
        mirrors := { (sim r).mirrors with }
        leads := (sim r).leads.congr rfl rfl le_rfl rfl rfl
        voted := (sim r).voted.notes notes, recalls := (sim r).recalls.notes notes })

/-- A replica has held in the term what it has acknowledged. -/
def Witnessed (b : AbstractState) (h : List (Cluster × Action)) (c : Cluster) : Prop :=
  ∀ a ∈ b.acks, ∃ c₀ ∈ c :: h.map (·.1), c₀.currentTerm a.node = a.term ∧
    (b.led a.term).take a.count <+: abstractLog (c₀.node a.node).state.logs.items

/-- An acknowledgement that is true of the abstract state is witnessed by the
present state of the cluster. -/
theorem Simulates.held (sim : Simulates ℓ c b) {a : Ack Int} (held : Held b a) :
    c.currentTerm a.node = a.term ∧
      (b.led a.term).take a.count <+: abstractLog (c.node a.node).state.logs.items :=
  ⟨(sim a.node).mirrors.term.symm.trans held.1, (sim a.node).mirrors.log ▸ held.2⟩

theorem Witnessed.step (w : Witnessed b h c) (reached : ℓ.Reached config b)
    (hl : ℓ ≠ .matching) (e : LeaderLog.Evolves b b')
    (held : ∀ a ∈ b'.acks, a ∈ b.acks ∨ Held b' a) (sim : Simulates ℓ c' b') :
    Witnessed b' ((c, a) :: h) c' := by
  intro k hk
  rcases held k hk with old | new
  · obtain ⟨c₀, mem, term, log⟩ := w k old
    refine ⟨c₀, List.mem_cons_of_mem _ mem, term, ?_⟩
    -- the leader's log has only grown past what is acknowledged
    have sound := (reached.sound hl).retained
    obtain ⟨n, leader⟩ := sound.ack_leader k old
    obtain ⟨rest, grown⟩ := e.led _ n leader
    rwa [← grown, List.take_append_of_le_length (sound.ack_count k old)]
  · obtain ⟨term, log⟩ := sim.held new
    exact ⟨c', List.mem_cons_self, term, log⟩

/-- A run that keeps to a level, with the abstract state it leads to. -/
structure Simulated (ℓ : Level) (config : IntMap ServerInfo) (h : List (Cluster × Action))
    (c : Cluster) (b : AbstractState) : Prop where
  run : Cluster.FixedRun config h c
  allowed : Meets ℓ.Allows h
  simulates : Simulates ℓ c b
  witnessed : ℓ ≠ .matching → Witnessed b h c

theorem Simulated.init (ℓ : Level) (config : IntMap ServerInfo) :
    Simulated ℓ config [] (Cluster.fixed config) .init where
  run := ⟨.start, fun _ hp => absurd hp List.not_mem_nil⟩
  allowed _ hp := absurd hp List.not_mem_nil
  simulates := .fixed ℓ config
  witnessed _ _ hk := absurd hk (Set.notMem_empty _)

theorem Simulated.step (s : Simulated ℓ config h c b) (reached : ℓ.Reached config b)
    (fixed : a.isMembership = false) (ok : ℓ.Allows c a) (hs : c.step a = some c') :
    ∃ b', LeaderLog.Steps (quorums config) ℓ.discipline b b' ∧
      Simulated ℓ config ((c, a) :: h) c' b' := by
  have noStepBack : Meets Cluster.NoStepBack h := fun p hp => (s.allowed p hp).noStepBack
  have thisTerm : Meets Cluster.VotesOfThisTerm h := fun p hp => (s.allowed p hp).thisTerm
  have single : Meets Cluster.SingleVote h := fun p hp => (s.allowed p hp).single
  obtain ⟨server, tr⟩ := Cluster.Transition.of_step hs
  obtain ⟨b', steps, held, sim⟩ := s.simulates.step reached s.run.static s.run.servers
    (.run s.run.run thisTerm noStepBack) (.run s.run.run noStepBack single) server tr fixed ok
  exact ⟨b', steps, ⟨.next s.run.run hs, Meets.cons.mpr ⟨fixed, s.run.membership⟩⟩,
    Meets.cons.mpr ⟨ok, s.allowed⟩, sim, fun hl =>
    (s.witnessed hl).step reached hl (reached.evolves steps) held sim⟩

/-- A run ends in a cluster that stands for a reachable abstract state. -/
theorem simulated (f : Cluster.FixedRun config h c) (allowed : Meets ℓ.Allows h) :
    ∃ b, ℓ.Reached config b ∧ Simulated ℓ config h c b := by
  have keeps : Meets (fun c a => a.isMembership = false ∧ ℓ.Allows c a) h :=
    fun p hp => ⟨f.membership p hp, allowed p hp⟩
  exact f.run.simulates (R := Simulated ℓ config) keeps (.init ℓ config)
    fun _ _ _ _ _ reached s ok hs => s.step reached ok.1 ok.2 hs

end OhMyDb
