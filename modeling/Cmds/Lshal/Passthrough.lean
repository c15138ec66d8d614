import Cmds.Lshal.Fetch
import Mathlib.Data.List.Sort

/-!
# The passthrough tables and the whole fetch

`fetchPassthrough` and `fetchAllLibraries` turn one `debugDump` reply into entries of the
passthrough-client and library tables, and `fetch` runs the three fetches against the managers
there are. A library entry's arch is the OR of the bitness of every record of its name.
-/

namespace Cmds.Lshal

/-- The name both passthrough fetches give a record: `interfaceName + "/" + instanceName`. -/
def InstanceDebugInfo.fqInstanceName (info : InstanceDebugInfo) : String :=
  info.interfaceName ++ "/" ++ info.instanceName

/-- The entry `fetchPassthrough` puts for a record with clients; a single client is taken as
the server. -/
def passthroughEntry (h : Host) (info : InstanceDebugInfo) : Option TableEntry :=
  if info.clientPids.length ≤ 0 then none else
  some { h.emptyEntry with
    interfaceName := info.fqInstanceName
    transport := .passthrough
    serverPid := match info.clientPids with
      | [pid] => pid
      | _ => h.NO_PID
    clientPids := info.clientPids
    arch := fromBaseArchitecture info.arch }

/-- `fetchPassthrough`, with the `debugDump` reply of the binderized manager. -/
def fetchPassthrough (h : Host) (manager : Manager) (c : ListCommand) : Status × ListCommand :=
  if !c.shouldReportHalType .passthroughClients then (∅, c) else
  match manager.debugDump with
  | .error d =>
    ({.dumpPassthroughError}, { c with
      err := c.err ++ "Error: Failed to call debugDump on defaultServiceManager(): " ++ d ++ "\n" })
  | .ok infos =>
    (∅, { c with mPassthroughRefTable := c.mPassthroughRefTable ++ infos.filterMap (passthroughEntry h) })

/-- One record in the `entries` map of `fetchAllLibraries`: `emplace` keeps the entry already
stored under the name, and the record's bitness is ORed into the arch of the stored entry. -/
def libraryRecord (h : Host) (entries : List (String × TableEntry)) (info : InstanceDebugInfo) :
    List (String × TableEntry) :=
  let e := (entries.lookup info.fqInstanceName).getD { h.emptyEntry with
    interfaceName := info.fqInstanceName
    transport := .passthrough
    clientPids := info.clientPids }
  mapSet info.fqInstanceName { e with arch := e.arch ||| fromBaseArchitecture info.arch } entries

/-- `fetchAllLibraries`, with the `debugDump` reply of the passthrough manager. -/
def fetchAllLibraries (h : Host) (manager : Manager) (c : ListCommand) : Status × ListCommand :=
  if !c.shouldReportHalType .passthroughLibraries then (∅, c) else
  match manager.debugDump with
  | .error d =>
    ({.dumpAllLibsError}, { c with
      err := c.err ++ "Error: Failed to call list on getPassthroughServiceManager(): " ++ d ++ "\n" })
  | .ok infos =>
    (∅, { c with
      mImplementationsTable := c.mImplementationsTable ++ inKeyOrder (infos.foldl (libraryRecord h) []) })

/-- `ListCommand::fetch`: `none` stands for a manager that cannot be reached. -/
def fetch (h : Host) (bManager pManager : Option Manager) (c : ListCommand) :
    Status × ListCommand :=
  let (status, c) := match bManager with
    | none => ({StatusFlag.noBinderizedManager},
      { c with err := c.err ++ "Failed to get defaultServiceManager()!\n" })
    | some manager =>
      let (s₁, c) := fetchBinderized h manager c
      let (s₂, c) := fetchPassthrough h manager c
      (s₁ ∪ s₂, c)
  match pManager with
  | none =>
    (status ∪ {StatusFlag.noPassthroughManager},
      { c with err := c.err ++ "Failed to get getPassthroughServiceManager()!\n" })
  | some manager =>
    let (s, c) := fetchAllLibraries h manager c
    (status ∪ s, c)

/-- `c'` is `c` with entries appended to listed tables only, none with a client cmdline, and
the list types and cmdline memo untouched. -/
def ListCommand.Adds (c c' : ListCommand) : Prop :=
  c'.mListTypes = c.mListTypes ∧ c'.mCmdlines = c.mCmdlines ∧
    ∀ type, ∃ added, c'.table type = c.table type ++ added ∧
      (type ∉ c.mListTypes → added = []) ∧ ∀ e ∈ added, e.clientCmdlines = []

theorem ListCommand.Adds.refl (c : ListCommand) : c.Adds c :=
  ⟨rfl, rfl, fun _ => ⟨[], by simp, fun _ => rfl, by simp⟩⟩

theorem ListCommand.Adds.trans {c c' c'' : ListCommand} (h₁ : c.Adds c') (h₂ : c'.Adds c'') :
    c.Adds c'' := by
  obtain ⟨ht₁, hm₁, hc₁⟩ := h₁
  obtain ⟨ht₂, hm₂, hc₂⟩ := h₂
  refine ⟨ht₂.trans ht₁, hm₂.trans hm₁, fun type => ?_⟩
  obtain ⟨a₁, he₁, hu₁, hn₁⟩ := hc₁ type
  obtain ⟨a₂, he₂, hu₂, hn₂⟩ := hc₂ type
  refine ⟨a₁ ++ a₂, by rw [he₂, he₁, List.append_assoc], fun hu => ?_, fun e he => ?_⟩
  · rw [hu₁ hu, hu₂ (ht₁ ▸ hu), List.append_nil]
  · rcases List.mem_append.mp he with he | he
    exacts [hn₁ e he, hn₂ e he]

/-- Appending to the table of a listed type, entries without client cmdlines, and leaving
the other tables, the list types and the memo alone, is an `Adds`. -/
theorem ListCommand.adds_of_append {c c' : ListCommand} (type : HalType) (added : List TableEntry)
    (hl : c'.mListTypes = c.mListTypes) (hm : c'.mCmdlines = c.mCmdlines)
    (ht : c'.table type = c.table type ++ added)
    (ho : ∀ type', type' ≠ type → c'.table type' = c.table type')
    (hadded : type ∉ c.mListTypes → added = []) (hn : ∀ e ∈ added, e.clientCmdlines = []) :
    c.Adds c' := by
  refine ⟨hl, hm, fun type' => ?_⟩
  by_cases hne : type' = type
  · subst hne
    exact ⟨added, ht, hadded, hn⟩
  · exact ⟨[], by simp [ho _ hne], fun _ => rfl, by simp⟩

/-- A change of `err` alone is an `Adds`. -/
theorem ListCommand.adds_err (c : ListCommand) (err : String) : c.Adds { c with err := err } :=
  ListCommand.Adds.refl c

theorem shouldReportHalType_eq_false {c : ListCommand} {type : HalType}
    (hu : type ∉ c.mListTypes) : c.shouldReportHalType type = false := by
  simpa [ListCommand.shouldReportHalType] using hu

theorem fetchBinderized_adds (h : Host) (manager : Manager) (c : ListCommand) :
    c.Adds (fetchBinderized h manager c).2 := by
  unfold fetchBinderized
  split
  · exact .refl c
  · next hr =>
    simp only [Bool.not_eq_true', Bool.not_eq_false] at hr
    split
    · exact c.adds_err _
    · next names _ =>
      have hwf := foldl_fetchRound_wellFormed h manager names (r := ⟨0, ∅, [], c⟩)
        ⟨List.nodup_nil, by simp⟩
      obtain ⟨cache, err, he⟩ := foldl_fetchRound_cmd h manager names ⟨0, ∅, [], c⟩
      dsimp only
      rw [he]
      refine ListCommand.adds_of_append .binderizedServices _ rfl rfl rfl
        (fun t hne => by cases t <;> first | rfl | exact absurd rfl hne)
        (fun hu => absurd hr (by simp [shouldReportHalType_eq_false hu])) fun e he => ?_
      obtain ⟨name, hp⟩ := mem_inKeyOrder he
      exact (hwf.2 _ hp).2.2

theorem fetchPassthrough_adds (h : Host) (manager : Manager) (c : ListCommand) :
    c.Adds (fetchPassthrough h manager c).2 := by
  unfold fetchPassthrough
  split
  · exact .refl c
  · next hr =>
    split
    · exact c.adds_err _
    · refine ListCommand.adds_of_append .passthroughClients _ rfl rfl rfl
        (fun t hne => by cases t <;> first | rfl | exact absurd rfl hne)
        (fun hu => absurd hr (by simp [shouldReportHalType_eq_false hu])) fun e he => ?_
      obtain ⟨info, -, hinfo⟩ := List.mem_filterMap.mp he
      unfold passthroughEntry at hinfo
      split_ifs at hinfo
      cases hinfo
      rfl

/-- Every entry of the `entries` map of `fetchAllLibraries` is still without client cmdlines. -/
theorem foldl_libraryRecord_clientCmdlines (h : Host) (infos : List InstanceDebugInfo)
    {entries : List (String × TableEntry)} (hn : ∀ p ∈ entries, p.2.clientCmdlines = []) :
    ∀ p ∈ infos.foldl (libraryRecord h) entries, p.2.clientCmdlines = [] := by
  induction infos generalizing entries with
  | nil => exact hn
  | cons info rest ih =>
    refine ih fun p hp => ?_
    rcases mem_mapSet hp with rfl | hp
    · cases hl : entries.lookup info.fqInstanceName with
      | none => rfl
      | some e => exact hn (info.fqInstanceName, e) (mem_of_lookup_eq_some hl)
    · exact hn p hp

theorem fetchAllLibraries_adds (h : Host) (manager : Manager) (c : ListCommand) :
    c.Adds (fetchAllLibraries h manager c).2 := by
  unfold fetchAllLibraries
  split
  · exact .refl c
  · next hr =>
    split
    · exact c.adds_err _
    · refine ListCommand.adds_of_append .passthroughLibraries _ rfl rfl rfl
        (fun t hne => by cases t <;> first | rfl | exact absurd rfl hne)
        (fun hu => absurd hr (by simp [shouldReportHalType_eq_false hu])) fun e he => ?_
      obtain ⟨name, hp⟩ := mem_inKeyOrder he
      exact foldl_libraryRecord_clientCmdlines h _ (by simp) _ hp

/-- The fetch phase appends to listed tables only, entries without client cmdlines, and
leaves the list types and the cmdline memo as they were. -/
theorem fetch_adds (h : Host) (bManager pManager : Option Manager) (c : ListCommand) :
    c.Adds (fetch h bManager pManager c).2 := by
  unfold fetch
  cases bManager <;> cases pManager <;> dsimp only
  · exact (c.adds_err _).trans (ListCommand.adds_err _ _)
  · exact (c.adds_err _).trans (fetchAllLibraries_adds h _ _)
  · exact ((fetchBinderized_adds h _ c).trans (fetchPassthrough_adds h _ _)).trans
      (ListCommand.adds_err _ _)
  · exact ((fetchBinderized_adds h _ c).trans (fetchPassthrough_adds h _ _)).trans
      (fetchAllLibraries_adds h _ _)

theorem fetchPassthrough_servicesTable (h : Host) (manager : Manager) (c : ListCommand) :
    (fetchPassthrough h manager c).2.mServicesTable = c.mServicesTable := by
  unfold fetchPassthrough
  split <;> (try split) <;> rfl

theorem fetchAllLibraries_servicesTable (h : Host) (manager : Manager) (c : ListCommand) :
    (fetchAllLibraries h manager c).2.mServicesTable = c.mServicesTable := by
  unfold fetchAllLibraries
  split <;> (try split) <;> rfl

/-- Of the fetch phase, only `fetchBinderized` writes the services table. -/
theorem fetch_servicesTable (h : Host) (bManager pManager : Option Manager) (c : ListCommand) :
    (fetch h bManager pManager c).2.mServicesTable = match bManager with
      | none => c.mServicesTable
      | some manager => (fetchBinderized h manager c).2.mServicesTable := by
  unfold fetch
  cases bManager <;> cases pManager <;>
    simp only [fetchAllLibraries_servicesTable, fetchPassthrough_servicesTable]

/-- The bitwise OR of `fromBaseArchitecture(info.arch)` over the records named `name`. -/
def recordsArch (infos : List InstanceDebugInfo) (name : String) : Arch :=
  ((infos.filter fun info => info.fqInstanceName == name).map
    fun info => fromBaseArchitecture info.arch).foldl (· ||| ·) .archEmpty

theorem recordsArch_append_singleton (infos : List InstanceDebugInfo) (info : InstanceDebugInfo)
    (name : String) :
    recordsArch (infos ++ [info]) name =
      if info.fqInstanceName = name then recordsArch infos name ||| fromBaseArchitecture info.arch
      else recordsArch infos name := by
  unfold recordsArch
  by_cases hn : info.fqInstanceName = name <;> simp [List.filter_append, hn]

theorem recordsArch_of_not_mem {infos : List InstanceDebugInfo} {name : String}
    (hn : ∀ info ∈ infos, info.fqInstanceName ≠ name) : recordsArch infos name = .archEmpty := by
  rw [recordsArch, List.filter_eq_nil_iff.mpr fun info hi => by simpa using hn info hi]
  rfl

/-- Record lists with the same members give every name the same arch, whatever their order
and however often each record occurs. -/
theorem recordsArch_congr {infos infos' : List InstanceDebugInfo}
    (h : ∀ info, info ∈ infos ↔ info ∈ infos') (name : String) :
    recordsArch infos name = recordsArch infos' name :=
  Arch.foldl_or_congr (fun _ => by simp only [List.mem_map, List.mem_filter, h]) _

theorem mem_mapSet_of_nodup {κ ν : Type} [DecidableEq κ] {key : κ} {value : ν}
    {m : List (κ × ν)} (hn : (m.map Prod.fst).Nodup) {p : κ × ν} (hp : p ∈ mapSet key value m) :
    p = (key, value) ∨ p ∈ m ∧ p.1 ≠ key := by
  induction m with
  | nil => simpa [mapSet] using hp
  | cons q rest ih =>
    obtain ⟨k, v⟩ := q
    simp only [List.map_cons, List.nodup_cons] at hn
    unfold mapSet at hp
    split at hp
    · next hk =>
      subst hk
      rcases List.mem_cons.mp hp with rfl | hp
      · exact .inl rfl
      · exact .inr ⟨List.mem_cons_of_mem _ hp,
          fun he => hn.1 (he ▸ List.mem_map_of_mem Prod.fst hp)⟩
    · next hk =>
      rcases List.mem_cons.mp hp with rfl | hp
      · exact .inr ⟨List.mem_cons_self _ _, hk⟩
      · exact (ih hn.2 hp).imp_right fun ⟨hm, hne⟩ => ⟨List.mem_cons_of_mem _ hm, hne⟩

theorem mem_keys_mapSet {κ ν : Type} [DecidableEq κ] (key : κ) (value : ν) (m : List (κ × ν))
    (k : κ) : k ∈ (mapSet key value m).map Prod.fst ↔ k ∈ m.map Prod.fst ∨ k = key := by
  rw [mapSet_keys]
  split_ifs with hk
  · exact ⟨.inl, fun hk' => hk'.elim id fun he => he ▸ hk⟩
  · simp

/-- The `entries` map of `fetchAllLibraries` after the records `infos`: one pair for each name
a record gives, each entry holding its name and the OR of the bitness of that name's records. -/
structure LibraryMap (infos : List InstanceDebugInfo) (entries : List (String × TableEntry)) :
    Prop where
  nodup : (entries.map Prod.fst).Nodup
  keys : ∀ name, name ∈ entries.map Prod.fst ↔ ∃ info ∈ infos, info.fqInstanceName = name
  name_eq : ∀ p ∈ entries, p.2.interfaceName = p.1
  arch_eq : ∀ p ∈ entries, p.2.arch = recordsArch infos p.1

theorem LibraryMap.nil : LibraryMap [] [] :=
  ⟨List.nodup_nil, by simp, by simp, by simp⟩

/-- One record keeps the invariant. -/
theorem libraryRecord_map (h : Host) {done : List InstanceDebugInfo}
    {entries : List (String × TableEntry)} (hm : LibraryMap done entries) (info : InstanceDebugInfo) :
    LibraryMap (done ++ [info]) (libraryRecord h entries info) := by
  set e := (entries.lookup info.fqInstanceName).getD { h.emptyEntry with
    interfaceName := info.fqInstanceName, transport := .passthrough, clientPids := info.clientPids }
  have hrec : libraryRecord h entries info = mapSet info.fqInstanceName
      { e with arch := e.arch ||| fromBaseArchitecture info.arch } entries := rfl
  have he : e.interfaceName = info.fqInstanceName ∧ e.arch = recordsArch done info.fqInstanceName := by
    cases hl : entries.lookup info.fqInstanceName with
    | none =>
      have hout : ∀ i ∈ done, i.fqInstanceName ≠ info.fqInstanceName := by
        intro i hi hn
        obtain ⟨p, hp, hk⟩ := List.mem_map.mp ((hm.keys _).mpr ⟨i, hi, hn⟩)
        simpa [hk] using List.lookup_eq_none_iff.mp hl p hp
      simp [e, hl, recordsArch_of_not_mem hout, Host.emptyEntry]
    | some e₀ =>
      have hmem := mem_of_lookup_eq_some hl
      simpa [e, hl] using And.intro (hm.name_eq _ hmem) (hm.arch_eq _ hmem)
  have hkeys := mapSet_keys info.fqInstanceName
    { e with arch := e.arch ||| fromBaseArchitecture info.arch } entries
  rw [hrec]
  refine ⟨?_, fun name => ?_, fun p hp => ?_, fun p hp => ?_⟩
  · rw [hkeys]
    split_ifs with hk
    · exact hm.nodup
    · exact hm.nodup.append (List.nodup_singleton _) (List.disjoint_singleton.mpr hk)
  · rw [mem_keys_mapSet, hm.keys]
    simp only [List.mem_append, List.mem_singleton, or_and_right, exists_or, exists_eq_left]
    exact or_congr_right eq_comm
  · rcases mem_mapSet_of_nodup hm.nodup hp with rfl | ⟨hp, -⟩
    · exact he.1
    · exact hm.name_eq p hp
  · rw [recordsArch_append_singleton]
    rcases mem_mapSet_of_nodup hm.nodup hp with rfl | ⟨hp, hne⟩
    · simp [he.2]
    · rw [if_neg (Ne.symm hne)]
      exact hm.arch_eq p hp

/-- The loop over the records keeps the invariant. -/
theorem foldl_libraryRecord_map (h : Host) (infos : List InstanceDebugInfo)
    {done : List InstanceDebugInfo} {entries : List (String × TableEntry)}
    (hm : LibraryMap done entries) :
    LibraryMap (done ++ infos) (infos.foldl (libraryRecord h) entries) := by
  induction infos generalizing done entries with
  | nil => simpa using hm
  | cons info rest ih => simpa using ih (libraryRecord_map h hm info)

theorem fetchAllLibraries_of_ok (h : Host) {manager : Manager} (c : ListCommand)
    {infos : List InstanceDebugInfo} (hdump : manager.debugDump = .ok infos) :
    (fetchAllLibraries h manager c).2.mImplementationsTable =
      if c.shouldReportHalType .passthroughLibraries then
        c.mImplementationsTable ++ inKeyOrder (infos.foldl (libraryRecord h) [])
      else c.mImplementationsTable := by
  unfold fetchAllLibraries
  cases c.shouldReportHalType .passthroughLibraries <;> simp [hdump]

/-- From an empty library table, `fetchAllLibraries` lists each instance name at most once,
whatever the manager answers: the records of one name share one entry of the map. -/
theorem fetchAllLibraries_names_nodup (h : Host) (manager : Manager) {c : ListCommand}
    (hc : c.mImplementationsTable = []) :
    ((fetchAllLibraries h manager c).2.mImplementationsTable.map TableEntry.interfaceName).Nodup := by
  unfold fetchAllLibraries
  split
  · simp [hc]
  · split
    · simp [hc]
    · next infos _ =>
      have hm := foldl_libraryRecord_map h infos LibraryMap.nil
      simp only [hc, List.nil_append]
      exact (inKeyOrder_names_perm hm.name_eq).nodup_iff.mpr hm.nodup

theorem fetchBinderized_implementationsTable (h : Host) (manager : Manager) (c : ListCommand) :
    (fetchBinderized h manager c).2.mImplementationsTable = c.mImplementationsTable := by
  unfold fetchBinderized
  split
  · rfl
  · split
    · rfl
    · next names _ =>
      obtain ⟨cache, err, he⟩ := foldl_fetchRound_cmd h manager names ⟨0, ∅, [], c⟩
      dsimp only
      rw [he]

theorem fetchPassthrough_implementationsTable (h : Host) (manager : Manager) (c : ListCommand) :
    (fetchPassthrough h manager c).2.mImplementationsTable = c.mImplementationsTable := by
  unfold fetchPassthrough
  split <;> (try split) <;> rfl

/-- From empty tables, the fetch phase lists each services and each library instance name at
most once. -/
theorem fetch_names_nodup (h : Host) (bManager pManager : Option Manager) {c : ListCommand}
    (hs : c.mServicesTable = []) (hi : c.mImplementationsTable = []) :
    ((fetch h bManager pManager c).2.mServicesTable.map TableEntry.interfaceName).Nodup ∧
      ((fetch h bManager pManager c).2.mImplementationsTable.map TableEntry.interfaceName).Nodup := by
  refine ⟨?_, ?_⟩
  · rw [fetch_servicesTable]
    cases bManager with
    | none => simp [hs]
    | some manager => exact fetchBinderized_names_nodup h manager hs
  · unfold fetch
    cases bManager <;> cases pManager <;> dsimp only
    · simp [hi]
    · exact fetchAllLibraries_names_nodup h _ hi
    · simp [fetchPassthrough_implementationsTable, fetchBinderized_implementationsTable, hi]
    · exact fetchAllLibraries_names_nodup h _
        (by rw [fetchPassthrough_implementationsTable, fetchBinderized_implementationsTable, hi])

/-- Two maps with one pair per key and the same keys: `inKeyOrder` lists the keys alike, in
ascending order. -/
theorem inKeyOrder_keys_eq {m m' : List (String × TableEntry)} (hn : (m.map Prod.fst).Nodup)
    (hn' : (m'.map Prod.fst).Nodup) (hk : ∀ k, k ∈ m.map Prod.fst ↔ k ∈ m'.map Prod.fst) :
    (m.mergeSort fun a b => decide (a.1 ≤ b.1)).map Prod.fst =
      (m'.mergeSort fun a b => decide (a.1 ≤ b.1)).map Prod.fst := by
  have hsorted : ∀ l : List (String × TableEntry),
      ((l.mergeSort fun a b => decide (a.1 ≤ b.1)).map Prod.fst).Sorted (· ≤ ·) := fun l =>
    List.pairwise_map.mpr ((List.sorted_mergeSort
      (fun _ _ _ hab hbc => by simp only [decide_eq_true_eq] at *; exact le_trans hab hbc)
      (fun a b => by simpa using le_total a.1 b.1) l).imp fun hab => by simpa using hab)
  have hperm : ∀ l : List (String × TableEntry),
      ((l.mergeSort fun a b => decide (a.1 ≤ b.1)).map Prod.fst).Perm (l.map Prod.fst) :=
    fun l => (List.mergeSort_perm _ _).map _
  exact List.eq_of_perm_of_sorted
    (((hperm m).trans ((List.perm_ext_iff_of_nodup hn hn').mpr hk)).trans (hperm m').symm)
    (hsorted m) (hsorted m')

theorem inKeyOrder_interfaceName_arch {infos : List InstanceDebugInfo}
    {entries : List (String × TableEntry)} (hm : LibraryMap infos entries) :
    (inKeyOrder entries).map (fun e => (e.interfaceName, e.arch)) =
      ((entries.mergeSort fun a b => decide (a.1 ≤ b.1)).map Prod.fst).map
        fun name => (name, recordsArch infos name) := by
  simp only [inKeyOrder, List.map_map]
  refine List.map_congr_left fun p hp => ?_
  have hp' := (List.mergeSort_perm _ _).mem_iff.mp hp
  simp [hm.name_eq p hp', hm.arch_eq p hp']

/-- For every answer `infos` of `debugDump`, each entry `fetchAllLibraries` adds to the library
table, named `interfaceName + "/" + instanceName`, has as arch the OR of
`fromBaseArchitecture(info.arch)` over the records of that name; so record lists with the same
members, in any order and with any record repeated, leave the same names and archs there. -/
theorem fetchAllLibraries_arch (h : Host) (manager : Manager) (c : ListCommand)
    (infos : List InstanceDebugInfo) (hdump : manager.debugDump = .ok infos) :
    (∃ added, (fetchAllLibraries h manager c).2.mImplementationsTable =
        c.mImplementationsTable ++ added ∧ (∀ e ∈ added, e.arch = recordsArch infos e.interfaceName) ∧
        (c.shouldReportHalType .passthroughLibraries = true → ∀ name,
          name ∈ added.map TableEntry.interfaceName ↔ ∃ info ∈ infos, info.fqInstanceName = name)) ∧
      ∀ (manager' : Manager) (infos' : List InstanceDebugInfo), manager'.debugDump = .ok infos' →
        (∀ info, info ∈ infos' ↔ info ∈ infos) →
        (fetchAllLibraries h manager' c).2.mImplementationsTable.map
            (fun e => (e.interfaceName, e.arch)) =
          (fetchAllLibraries h manager c).2.mImplementationsTable.map
            fun e => (e.interfaceName, e.arch) := by
  have hm := foldl_libraryRecord_map h infos LibraryMap.nil
  rw [List.nil_append] at hm
  refine ⟨?_, fun manager' infos' hdump' hsame => ?_⟩
  · rw [fetchAllLibraries_of_ok h c hdump]
    split_ifs with hreport
    · refine ⟨_, rfl, fun e he => ?_, fun _ name => ?_⟩
      · obtain ⟨name, hp⟩ := mem_inKeyOrder he
        rw [hm.name_eq _ hp, hm.arch_eq _ hp]
      · rw [(inKeyOrder_names_perm hm.name_eq).mem_iff, hm.keys]
    · exact ⟨[], by simp, by simp, fun h => absurd h hreport⟩
  · have hm' := foldl_libraryRecord_map h infos' LibraryMap.nil
    rw [List.nil_append] at hm'
    rw [fetchAllLibraries_of_ok h c hdump, fetchAllLibraries_of_ok h c hdump']
    split_ifs
    · have hkeys : ∀ k, k ∈ (infos'.foldl (libraryRecord h) []).map Prod.fst ↔
          k ∈ (infos.foldl (libraryRecord h) []).map Prod.fst := fun k => by
        rw [hm'.keys, hm.keys]
        simp only [hsame]
      rw [List.map_append, List.map_append, inKeyOrder_interfaceName_arch hm',
        inKeyOrder_interfaceName_arch hm, inKeyOrder_keys_eq hm'.nodup hm.nodup hkeys]
      simp only [recordsArch_congr hsame]
    · rfl

/-- Two records of `a.b@1.0::IFoo/default`, the first 32-bit and the second 64-bit. -/
def twoBitnessRecords : List InstanceDebugInfo :=
  [⟨"a.b@1.0::IFoo", "default", [], .is32Bit⟩, ⟨"a.b@1.0::IFoo", "default", [], .is64Bit⟩]

/-- A passthrough manager whose `debugDump` answers with `twoBitnessRecords`. -/
def twoBitnessManager : Manager := ⟨.ok [], fun _ _ _ => .ok none, .ok twoBitnessRecords⟩

/-- The command of `lshal list --types=l`. -/
def librariesOnly : ListCommand := { ListCommand.init with mListTypes := [.passthroughLibraries] }

theorem fetchAllLibraries_arch_twoBitness :
    twoBitnessManager.debugDump = .ok twoBitnessRecords ∧
      ((∃ added, (fetchAllLibraries Host.bare twoBitnessManager librariesOnly).2.mImplementationsTable =
          librariesOnly.mImplementationsTable ++ added ∧
          (∀ e ∈ added, e.arch = recordsArch twoBitnessRecords e.interfaceName) ∧
          (librariesOnly.shouldReportHalType .passthroughLibraries = true → ∀ name,
            name ∈ added.map TableEntry.interfaceName ↔
              ∃ info ∈ twoBitnessRecords, info.fqInstanceName = name)) ∧
        ∀ (manager' : Manager) (infos' : List InstanceDebugInfo), manager'.debugDump = .ok infos' →
          (∀ info, info ∈ infos' ↔ info ∈ twoBitnessRecords) →
          (fetchAllLibraries Host.bare manager' librariesOnly).2.mImplementationsTable.map
              (fun e => (e.interfaceName, e.arch)) =
            (fetchAllLibraries Host.bare twoBitnessManager librariesOnly).2.mImplementationsTable.map
              fun e => (e.interfaceName, e.arch)) :=
  ⟨rfl, fetchAllLibraries_arch Host.bare twoBitnessManager librariesOnly twoBitnessRecords rfl⟩

end Cmds.Lshal
