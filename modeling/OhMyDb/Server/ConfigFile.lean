import OhMyDb.Model.Config

/-!
What `ParseConfig` reads back from the file `WriteConfig` has written. The writer does not
guard the fields against the separators, and only the parser keeps to the length of a name
that `ServerInfo` is documented with.
-/

namespace OhMyDb
namespace Config

/-- A field that neither ends a token nor a line. -/
def Unseparated (s : Text) : Prop := ',' ∉ s ∧ '\n' ∉ s

/-- The strings of a server are such as a line of the file can hold. -/
structure ServerInfo.Plain (info : ServerInfo) : Prop where
  short : info.name.chars.length ≤ 20
  name : Unseparated info.name.chars
  ip : Unseparated info.ip.chars

theorem cStr_of_noNul {s : Text} (noNul : '\x00' ∉ s) : cStr s = s :=
  List.takeWhile_eq_self_iff.mpr fun _ mem => decide_eq_true fun nul => noNul (nul ▸ mem)

theorem strcpy_chars {n : Nat} (a : CharArray n) : strcpy n a.chars = .ok a := by
  have whole := cStr_of_noNul a.noNul
  cases a with
  | mk chars fits noNul =>
      simp only [strcpy, whole, dif_pos fits]

theorem strcpy_eq_ok {n : Nat} {s : Text} {a : CharArray n} (h : strcpy n s = .ok a) :
    a.chars = cStr s := by
  unfold strcpy at h
  split at h
  · cases h
    rfl
  · cases h

/-! Writing. -/

theorem decimal_unseparated (n : Int32) : Unseparated (decimal n) := by
  have apart {c : Char} (sign : c ≠ '-') (other : c.isDigit = false) : c ∉ decimal n :=
    fun mem => Bool.false_ne_true (other.symm.trans (isDigit_of_mem_toString mem sign))
  exact ⟨apart (by decide) (by decide), apart (by decide) (by decide)⟩

theorem decimal_ne_nil (n : Int32) : decimal n ≠ [] := by
  intro nil
  have empty := toString_isEmpty n.toInt
  rw [String.isEmpty_iff.mpr (String.toList_eq_nil_iff.mp nil)] at empty
  cases empty

theorem stoiToken_decimal (n : Int32) : stoiToken (decimal n) = .ok n := by
  rw [stoiToken, decimal, String.ofList_toList, stoiInt_toString]
  rfl

theorem getlines_row {info : ServerInfo} (plain : info.Plain) : getlines ',' (row info) =
    [decimal info.id, info.name.chars, info.ip.chars, decimal info.raftPort,
      decimal info.dbPort] := by
  rw [getlines, row, Delimited.fields_append_cons (decimal_unseparated _).1,
    Delimited.fields_append_cons plain.name.1, Delimited.fields_append_cons plain.ip.1,
    Delimited.fields_append_cons (decimal_unseparated _).1,
    Delimited.fields_of_notMem (decimal_unseparated _).1 (decimal_ne_nil _)]

theorem row_oneLine {info : ServerInfo} (plain : info.Plain) : '\n' ∉ row info := by
  simp only [row, List.mem_append, List.mem_cons, not_or]
  refine ⟨(decimal_unseparated _).2, by decide, plain.name.2, by decide, plain.ip.2, by decide,
    (decimal_unseparated _).2, by decide, (decimal_unseparated _).2⟩

theorem getlines_writeConfig {servers : Servers} (plain : ∀ info ∈ servers.entries, info.Plain) :
    getlines '\n' (writeConfig servers) = header :: servers.entries.map row := by
  apply Delimited.fields_flatMap
  intro line mem
  rcases List.mem_cons.mp mem with rfl | mem
  · decide +kernel
  · obtain ⟨info, held, rfl⟩ := List.mem_map.mp mem
    exact row_oneLine (plain info held)

/-! Reading. -/

theorem token_eq {h : AList fun _ : Text => Nat} {column : String} {i : Nat}
    (known : h.lookup column.toList = some i) {tokens : List Text} {t : Text}
    (at_ : tokens[i]? = some t) : token h tokens column = .ok t := by
  simp only [token, known, Option.getD_some, at_]

theorem parseServer_row {info : ServerInfo} (plain : info.Plain) (cntr : Nat) :
    parseServer (parseHeader header) cntr (row info) = .ok (info, cntr) := by
  have named : "id".toList ∈ parseHeader header := by decide +kernel
  have id : (parseHeader header).lookup "id".toList = some 0 := by decide +kernel
  have name : (parseHeader header).lookup "name".toList = some 1 := by decide +kernel
  have ip : (parseHeader header).lookup "intf_ip".toList = some 2 := by decide +kernel
  have raftPort : (parseHeader header).lookup "raft_port".toList = some 3 := by decide +kernel
  have dbPort : (parseHeader header).lookup "db_port".toList = some 4 := by decide +kernel
  rw [parseServer, parseId, if_neg (not_not.mpr named), getlines_row plain, token_eq id rfl,
    token_eq name rfl, token_eq ip rfl, token_eq raftPort rfl, token_eq dbPort rfl]
  simp only [bind, Except.bind, pure, Except.pure, stoiToken_decimal, strcpy_chars,
    List.take_of_length_le plain.short]

theorem parseServers_rows {infos : List ServerInfo} (plain : ∀ info ∈ infos, info.Plain)
    (cntr : Nat) (servers : Servers) :
    parseServers (parseHeader header) cntr (infos.map row) servers =
      .ok (infos.foldl Servers.assign servers) := by
  induction infos generalizing servers with
  | nil => rfl
  | cons info infos ih =>
      have some : (row info).isEmpty = false := by
        rw [List.isEmpty_eq_false_iff, row]
        exact List.append_ne_nil_of_left_ne_nil (decimal_ne_nil _) _
      rw [List.map_cons, parseServers, some, if_neg Bool.false_ne_true,
        parseServer_row (plain info List.mem_cons_self)]
      exact ih (fun x mem => plain x (List.mem_cons_of_mem info mem)) _

theorem foldl_assign_entries (infos : List ServerInfo) (servers : Servers) :
    (infos.foldl Servers.assign servers).entries = infos.foldl
      (fun entries info => Keyed.assign (fun info => info.id.toInt) info entries)
      servers.entries := by
  induction infos generalizing servers with
  | nil => rfl
  | cons info infos ih => exact ih (servers.assign info)

theorem parseConfig_writeConfig {servers : Servers}
    (plain : ∀ info ∈ servers.entries, info.Plain) :
    parseConfig (writeConfig servers) = .ok servers := by
  have rebuilt : servers.entries.foldl Servers.assign {} = servers := by
    apply Servers.ext
    rw [foldl_assign_entries]
    exact Keyed.foldl_assign servers.sorted
  simp only [parseConfig, getlines_writeConfig plain, List.headD_cons, List.tail_cons,
    parseServers_rows plain, rebuilt]

/-- A field of a line of the file, cut off at its first NUL. -/
theorem unseparated_cStr {line t s : Text} (oneLine : '\n' ∉ line) (field : t ∈ getlines ',' line)
    (part : s ⊆ t) : Unseparated (cStr s) := by
  have inside : cStr s ⊆ t := fun _ mem => part (List.takeWhile_subset _ mem)
  exact ⟨fun mem => Delimited.notMem_of_mem_fields field (inside mem),
    fun mem => oneLine (Delimited.subset_of_mem_fields field (inside mem))⟩

theorem token_mem {h : AList fun _ : Text => Nat} {tokens : List Text} {column : String} {t : Text}
    (ok : token h tokens column = .ok t) : t ∈ tokens := by
  unfold token at ok
  split at ok
  · next found =>
    cases ok
    exact List.mem_of_getElem? found
  · cases ok

theorem bind_eq_ok {ε α β : Type} {x : Except ε α} {f : α → Except ε β} {b : β}
    (h : (x >>= f) = .ok b) : ∃ a, x = .ok a ∧ f a = .ok b := by
  cases x with
  | error e => cases h
  | ok a => exact ⟨a, rfl, h⟩

theorem parseServer_plain {h : AList fun _ : Text => Nat} {cntr cntr' : Nat} {line : Text}
    {info : ServerInfo} (oneLine : '\n' ∉ line)
    (ok : parseServer h cntr line = .ok (info, cntr')) : info.Plain := by
  unfold parseServer at ok
  obtain ⟨⟨id, _⟩, _, ok⟩ := bind_eq_ok ok
  obtain ⟨ipToken, ipMem, ok⟩ := bind_eq_ok ok
  obtain ⟨ip, ipCopied, ok⟩ := bind_eq_ok ok
  obtain ⟨nameToken, nameMem, ok⟩ := bind_eq_ok ok
  obtain ⟨name, nameCopied, ok⟩ := bind_eq_ok ok
  obtain ⟨_, _, ok⟩ := bind_eq_ok ok
  obtain ⟨_, _, ok⟩ := bind_eq_ok ok
  obtain ⟨_, _, ok⟩ := bind_eq_ok ok
  obtain ⟨_, _, ok⟩ := bind_eq_ok ok
  cases ok
  constructor
  case short =>
    rw [strcpy_eq_ok nameCopied]
    exact (List.takeWhile_sublist _).length_le.trans (List.length_take_le 20 nameToken)
  case name =>
    rw [strcpy_eq_ok nameCopied]
    exact unseparated_cStr oneLine (token_mem nameMem) (List.take_subset _ _)
  case ip =>
    rw [strcpy_eq_ok ipCopied]
    exact unseparated_cStr oneLine (token_mem ipMem) fun _ mem => mem

theorem parseServers_plain {h : AList fun _ : Text => Nat} {cntr : Nat} {lines : List Text}
    {servers servers' : Servers} (oneLine : ∀ line ∈ lines, '\n' ∉ line)
    (plain : ∀ info ∈ servers.entries, info.Plain)
    (ok : parseServers h cntr lines servers = .ok servers') :
    ∀ info ∈ servers'.entries, info.Plain := by
  induction lines generalizing cntr servers with
  | nil =>
      cases ok
      exact plain
  | cons line lines ih =>
      rw [parseServers] at ok
      split at ok
      · cases ok
        exact plain
      · obtain ⟨⟨server, cntr⟩, parsed, ok⟩ := bind_eq_ok ok
        have first := parseServer_plain (oneLine line List.mem_cons_self) parsed
        refine ih (fun x mem => oneLine x (List.mem_cons_of_mem line mem)) ?_ ok
        intro info held
        rcases Keyed.mem_assign held with rfl | held
        · exact first
        · exact plain info held

theorem parseConfig_plain {file : Text} {servers : Servers} (ok : parseConfig file = .ok servers) :
    ∀ info ∈ servers.entries, info.Plain := by
  apply parseServers_plain _ _ ok
  · exact fun line mem => Delimited.notMem_of_mem_fields (List.mem_of_mem_tail mem)
  · exact fun info held => absurd held List.not_mem_nil

/-- The administration tool writes a file that reads back as the servers it was written from just
where their strings hold no separator and their names are no longer than the parser allows. -/
theorem roundTrips_iff (servers : Servers) :
    parseConfig (writeConfig servers) = .ok servers ↔ ∀ info ∈ servers.entries, info.Plain :=
  ⟨parseConfig_plain, parseConfig_writeConfig⟩

/-- Any server whose name fits `AddServerParams` can be given to `--op add`. -/
theorem add_info (servers : Servers) (info : ServerInfo) (fits : info.name.chars.length < 20) :
    add servers info.id info.raftPort info.dbPort info.ip.chars info.name.chars =
      .ok (servers.assign info) := by
  have sent := strcpy_chars (n := 20) ⟨info.name.chars, fits, info.name.noNul⟩
  simp only at sent
  rw [add, addServerParams, strcpy_chars, sent, strcpy_chars]
  rfl

/-- `AddServerParams` keeps the name short enough for the parser. -/
theorem add_plain {servers servers' : Servers} {id raftPort dbPort : Int32} {ip name : Text}
    (plain : ∀ info ∈ servers.entries, info.Plain) (apart : Unseparated (cStr ip))
    (named : Unseparated (cStr name))
    (ok : add servers id raftPort dbPort ip name = .ok servers') :
    ∀ info ∈ servers'.entries, info.Plain := by
  unfold add addServerParams at ok
  obtain ⟨_, sent, ok⟩ := bind_eq_ok ok
  obtain ⟨_, _, sent⟩ := bind_eq_ok sent
  obtain ⟨short, shortCopied, _⟩ := bind_eq_ok sent
  obtain ⟨_, ipCopied, ok⟩ := bind_eq_ok ok
  obtain ⟨_, nameCopied, ok⟩ := bind_eq_ok ok
  cases ok
  intro info held
  rcases Keyed.mem_assign held with rfl | held
  · have same := strcpy_eq_ok nameCopied
    constructor
    case short =>
      rw [same, ← strcpy_eq_ok shortCopied]
      exact short.fits.le
    case name => exact same ▸ named
    case ip => exact strcpy_eq_ok ipCopied ▸ apart
  · exact plain info held

def node0 : ServerInfo where
  id := 0
  ip := ⟨"10.10.1.1".toList, by decide +kernel, by decide +kernel⟩
  raftPort := 8080
  dbPort := 12345
  name := ⟨"node0".toList, by decide +kernel, by decide +kernel⟩

/-- A node with a comma in its name. -/
def commaNamed : ServerInfo where
  id := 1
  ip := ⟨"10.10.1.2".toList, by decide +kernel, by decide +kernel⟩
  raftPort := 8080
  dbPort := 12345
  name := ⟨"a,b".toList, by decide +kernel, by decide +kernel⟩

theorem node0_plain : node0.Plain where
  short := by decide +kernel
  name := ⟨by decide +kernel, by decide +kernel⟩
  ip := ⟨by decide +kernel, by decide +kernel⟩

/-- A node is added to a cluster of one, under a name that the parser takes for two fields. -/
theorem not_roundTrips : ¬ ∀ (file ip name : Text) (id raftPort dbPort : Int32)
    (servers servers' : Servers), parseConfig file = .ok servers →
    add servers id raftPort dbPort ip name = .ok servers' →
    parseConfig (writeConfig servers') = .ok servers' := by
  intro all
  let cluster : Servers := ⟨[node0], List.pairwise_singleton _ node0⟩
  have started : parseConfig (writeConfig cluster) = .ok cluster :=
    parseConfig_writeConfig fun info held => List.mem_singleton.mp held ▸ node0_plain
  have again := all _ _ _ _ _ _ _ _ started (add_info cluster commaNamed (by decide +kernel))
  have plain := parseConfig_plain again commaNamed (Keyed.mem_assign_self _ _)
  exact absurd plain.name.1 (by decide +kernel)

end Config
end OhMyDb
