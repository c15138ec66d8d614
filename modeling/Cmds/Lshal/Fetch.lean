import Cmds.Lshal.BinderDebug

/-!
# Fetching the binderized services

`fetchBinderized` lists hwservicemanager's instances and calls `fetchBinderizedEntry` on each,
which asks for debug info, looks the server pid up in the `PidInfo` cache and checks the hash.
Every remote call is an input: a `Manager` answers `list` and each `get`, a `Service` the three
calls made on it, `.error d` standing for a failed transaction or a timeout.
-/

namespace Cmds.Lshal

/-- `DebugInfo` as `IBase::getDebugInfo` returns it. -/
structure DebugInfo where
  pid : Int
  ptr : UInt64
  arch : Architecture
  deriving DecidableEq, Repr

/-- The replies of one `IBase` proxy to the calls `fetchBinderizedEntry` makes on it. -/
structure Service where
  getDebugInfo : Except String DebugInfo
  interfaceChain : Except String (List String)
  getHashChain : Except String (List (List UInt8))

/-- `IServiceManager::InstanceDebugInfo`, one record of `debugDump`. -/
structure InstanceDebugInfo where
  interfaceName : String
  instanceName : String
  clientPids : List Int
  arch : Architecture
  deriving DecidableEq, Repr

/-- An `IServiceManager` as lshal sees it: the reply to `list`, the reply to the `k`-th `get`
for a service and instance name, and the reply to `debugDump`. -/
structure Manager where
  list : Except String (List String)
  get : Nat → String → String → Except String (Option Service)
  debugDump : Except String (List InstanceDebugInfo)

/-- A hex digit of `Hash::hexString`. -/
def hexDigit (n : Nat) : Char :=
  if n < 10 then Char.ofNat (48 + n) else Char.ofNat (87 + n)

/-- `Hash::hexString`: two lowercase hex digits per byte. -/
def hexString (bytes : List UInt8) : String :=
  String.mk (bytes.flatMap fun b => [hexDigit (b.toNat / 16), hexDigit (b.toNat % 16)])

/-- `getPidInfoCached`: a pid not yet in the cache is inserted as `PidInfo{}` and then read;
a failed read returns `nullptr` (`none`) but leaves `PidInfo{}` in the cache. -/
def getPidInfoCached (h : Host) (c : ListCommand) (serverPid : Int) :
    Option PidInfo × ListCommand :=
  match c.mCachedPidInfos.lookup serverPid with
  | some info => (some info, c)
  | none =>
    match getPidInfo h serverPid (PidInfo.empty, c.err) with
    | none => (none, { c with mCachedPidInfos := c.mCachedPidInfos ++ [(serverPid, PidInfo.empty)] })
    | some (info, err) =>
      (some info, { c with mCachedPidInfos := c.mCachedPidInfos ++ [(serverPid, info)], err := err })

/-- What `fetchBinderizedEntry` works on: its `status`, the entry it fills and the command. -/
structure EntryFetch where
  status : Status
  entry : TableEntry
  cmd : ListCommand

/-- The `handleError` lambda: warn on `err()` and raise `DUMP_BINDERIZED_ERROR` with the
step's own bit. -/
def EntryFetch.handleError (f : EntryFetch) (additionalError : StatusFlag) (msg : String) :
    EntryFetch :=
  { f with
    status := f.status ∪ {.dumpBinderizedError, additionalError}
    cmd := { f.cmd with
      err := f.cmd.err ++ "Warning: Skipping \"" ++ f.entry.interfaceName ++ "\": " ++ msg ++ "\n" } }

/-- The client pids and thread counters `fetchBinderizedEntry` copies from a `PidInfo`. -/
def copyPidInfo (h : Host) (ptr : UInt64) (pidInfo : PidInfo) (e : TableEntry) : TableEntry :=
  let e := if ptr ≠ h.NO_PTR then
      match pidInfo.refPids.lookup ptr with
      | some pids => { e with clientPids := pids }
      | none => e
    else e
  { e with threadUsage := pidInfo.threadUsage, threadCount := pidInfo.threadCount }

/-- The three fields `fetchBinderizedEntry` copies from a `DebugInfo`. -/
def TableEntry.withDebugInfo (e : TableEntry) (d : DebugInfo) : TableEntry :=
  { e with serverPid := d.pid, serverObjectAddress := d.ptr, arch := fromBaseArchitecture d.arch }

@[simp] theorem TableEntry.withDebugInfo_interfaceName (e : TableEntry) (d : DebugInfo) :
    (e.withDebugInfo d).interfaceName = e.interfaceName := rfl

@[simp] theorem TableEntry.withDebugInfo_transport (e : TableEntry) (d : DebugInfo) :
    (e.withDebugInfo d).transport = e.transport := rfl

@[simp] theorem TableEntry.withDebugInfo_serverPid (e : TableEntry) (d : DebugInfo) :
    (e.withDebugInfo d).serverPid = d.pid := rfl

@[simp] theorem TableEntry.withDebugInfo_threadUsage (e : TableEntry) (d : DebugInfo) :
    (e.withDebugInfo d).threadUsage = e.threadUsage := rfl

@[simp] theorem TableEntry.withDebugInfo_threadCount (e : TableEntry) (d : DebugInfo) :
    (e.withDebugInfo d).threadCount = e.threadCount := rfl

@[simp] theorem TableEntry.withDebugInfo_clientCmdlines (e : TableEntry) (d : DebugInfo) :
    (e.withDebugInfo d).clientCmdlines = e.clientCmdlines := rfl

/-- The `getDebugInfo` block of `fetchBinderizedEntry`. -/
def debugInfoBlock (h : Host) (service : Service) (f : EntryFetch) : EntryFetch :=
  match service.getDebugInfo with
  | .error d => f.handleError .transactionError ("debugging information cannot be retrieved: " ++ d)
  | .ok debugInfo =>
    let f := { f with entry := f.entry.withDebugInfo debugInfo }
    if debugInfo.pid ≠ h.NO_PID then
      match getPidInfoCached h f.cmd debugInfo.pid with
      | (none, cmd) =>
        { f with cmd := cmd }.handleError .ioError
          ("no information for PID " ++ toString debugInfo.pid ++ ", are you root?")
      | (some pidInfo, cmd) =>
        { f with cmd := cmd, entry := copyPidInfo h debugInfo.ptr pidInfo f.entry }
    else f

/-- Where the `interfaceChain` callback finds the service name: its first position. -/
def hashIndexOf (serviceName : String) (chain : List String) : Option Nat :=
  chain.findIdx? (· == serviceName)

/-- The hash block of `fetchBinderizedEntry`. -/
def hashBlock (service : Service) (serviceName : String) (f : EntryFetch) : EntryFetch :=
  match service.interfaceChain with
  | .error d => f.handleError .transactionError ("interfaceChain fails: " ++ d)
  | .ok chain =>
    match hashIndexOf serviceName chain with
    | none => f.handleError .badImpl "Interface name does not exist in interfaceChain."
    | some hashIndex =>
      match service.getHashChain with
      | .error d => f.handleError .transactionError ("getHashChain failed: " ++ d)
      | .ok hashChain =>
        match hashChain[hashIndex]? with
        | none => f.handleError .badImpl ("interfaceChain indicates position " ++
            toString hashIndex ++ " but getHashChain returns " ++ toString hashChain.length ++
            " hashes")
        | some hash => { f with entry := { f.entry with hash := hexString hash } }

/-- `fetchBinderizedEntry`, given the reply to its `get`. -/
def fetchBinderizedEntry (h : Host) (getRet : Except String (Option Service))
    (cmd : ListCommand) (entry : TableEntry) : EntryFetch :=
  let f : EntryFetch := ⟨∅, entry, cmd⟩
  match getRet with
  | .error d => f.handleError .transactionError ("cannot be fetched from service manager:" ++ d)
  | .ok none => f.handleError .noInterface "cannot be fetched from service manager (null)"
  | .ok (some service) =>
    hashBlock service (splitFirst entry.interfaceName '/').1 (debugInfoBlock h service f)

/-- `map[key] = value` on a `std::map` kept as an association list. -/
def mapSet {κ ν : Type} [DecidableEq κ] (key : κ) (value : ν) : List (κ × ν) → List (κ × ν)
  | [] => [(key, value)]
  | (k, v) :: rest => if k = key then (key, value) :: rest else (k, v) :: mapSet key value rest

/-- The state of the loop in `fetchBinderized`: how many `get`s were made, the status so far,
`allTableEntries`, and the command. -/
structure Round where
  k : Nat
  status : Status
  entries : List (String × TableEntry)
  cmd : ListCommand

/-- The `get` the loop makes for a listed name. -/
def Manager.getFor (mgr : Manager) (k : Nat) (fqInstanceName : String) :
    Except String (Option Service) :=
  mgr.get k (splitFirst fqInstanceName '/').1 (splitFirst fqInstanceName '/').2

/-- One round: `allTableEntries[name]`, default-constructed on first sight, gets its name
and transport and is handed to `fetchBinderizedEntry`; its status is ORed in. -/
def fetchRound (h : Host) (mgr : Manager) (r : Round) (fqInstanceName : String) : Round :=
  let entry := { (r.entries.lookup fqInstanceName).getD h.emptyEntry with
    interfaceName := fqInstanceName, transport := .hwbinder }
  let f := fetchBinderizedEntry h (mgr.getFor r.k fqInstanceName) r.cmd entry
  ⟨r.k + 1, r.status ∪ f.status, mapSet fqInstanceName f.entry r.entries, f.cmd⟩

/-- The entries of a `std::map<std::string, TableEntry>` in its key order. -/
def inKeyOrder (entries : List (String × TableEntry)) : List TableEntry :=
  (entries.mergeSort fun a b => decide (a.1 ≤ b.1)).map Prod.snd

/-- `fetchBinderized`. -/
def fetchBinderized (h : Host) (mgr : Manager) (cmd : ListCommand) : Status × ListCommand :=
  if !cmd.shouldReportHalType .binderizedServices then (∅, cmd) else
  match mgr.list with
  | .error d =>
    ({.dumpBinderizedError},
      { cmd with err := cmd.err ++ "Error: Failed to list services for hwbinder: " ++ d ++ "\n" })
  | .ok fqInstanceNames =>
    let r := fqInstanceNames.foldl (fetchRound h mgr) ⟨0, ∅, [], cmd⟩
    (r.status, { r.cmd with mServicesTable := r.cmd.mServicesTable ++ inKeyOrder r.entries })

theorem lookup_append_singleton {κ ν : Type} [DecidableEq κ] (c : List (κ × ν)) (k k' : κ)
    (v : ν) : (c ++ [(k, v)]).lookup k' = (c.lookup k').or (if k' = k then some v else none) := by
  by_cases hk : k' = k <;> simp [List.lookup_append, List.lookup_cons, hk, beq_false_of_ne]

theorem mem_of_lookup_eq_some {κ ν : Type} [DecidableEq κ] {c : List (κ × ν)} {k : κ}
    {v : ν} (h : c.lookup k = some v) : (k, v) ∈ c := by
  obtain ⟨l₁, l₂, rfl, -⟩ := List.lookup_eq_some_iff.mp h
  simp

@[simp] theorem EntryFetch.handleError_status (f : EntryFetch) (a : StatusFlag) (m : String) :
    (f.handleError a m).status = f.status ∪ {.dumpBinderizedError, a} := rfl

@[simp] theorem EntryFetch.handleError_entry (f : EntryFetch) (a : StatusFlag) (m : String) :
    (f.handleError a m).entry = f.entry := rfl

@[simp] theorem EntryFetch.handleError_cache (f : EntryFetch) (a : StatusFlag) (m : String) :
    (f.handleError a m).cmd.mCachedPidInfos = f.cmd.mCachedPidInfos := rfl

@[simp] theorem EntryFetch.handleError_tables (f : EntryFetch) (a : StatusFlag) (m : String) :
    (f.handleError a m).cmd.mServicesTable = f.cmd.mServicesTable := rfl

/-- A lookup of a pid already cached answers from the cache and changes nothing. -/
theorem getPidInfoCached_of_lookup {h : Host} {c : ListCommand} {pid : Int} {info : PidInfo}
    (hc : c.mCachedPidInfos.lookup pid = some info) : getPidInfoCached h c pid = (some info, c) := by
  simp [getPidInfoCached, hc]

/-- The first lookup of a pid reads its file once and caches the result, `PidInfo{}` when
the file cannot be opened. -/
theorem getPidInfoCached_of_lookup_none {h : Host} {c : ListCommand} {pid : Int}
    (hc : c.mCachedPidInfos.lookup pid = none) :
    (getPidInfoCached h c pid).2.mCachedPidInfos = c.mCachedPidInfos ++
      [(pid, ((getPidInfo h pid (PidInfo.empty, c.err)).map Prod.fst).getD PidInfo.empty)] ∧
    (getPidInfoCached h c pid).1 = (getPidInfo h pid (PidInfo.empty, c.err)).map Prod.fst := by
  simp only [getPidInfoCached, hc]
  split <;> simp_all

@[simp] theorem getPidInfoCached_tables (h : Host) (c : ListCommand) (pid : Int) :
    (getPidInfoCached h c pid).2.mServicesTable = c.mServicesTable := by
  unfold getPidInfoCached
  split
  · rfl
  · split <;> rfl

/-- A lookup changes the command only in its cache and in `err`. -/
theorem getPidInfoCached_cmd (h : Host) (c : ListCommand) (pid : Int) :
    ∃ cache err, (getPidInfoCached h c pid).2 = { c with mCachedPidInfos := cache, err := err } := by
  unfold getPidInfoCached
  split
  · exact ⟨_, _, rfl⟩
  · split
    · exact ⟨_, c.err, rfl⟩
    · exact ⟨_, _, rfl⟩

/-- A lookup returns `nullptr` only when the pid was not cached and its file cannot be
opened. -/
theorem binderProc_eq_none_of_getPidInfoCached {h : Host} {c : ListCommand} {pid : Int}
    (hn : (getPidInfoCached h c pid).1 = none) : h.binderProc pid = none := by
  cases hc : c.mCachedPidInfos.lookup pid with
  | some info => simp [getPidInfoCached_of_lookup hc] at hn
  | none =>
    rw [(getPidInfoCached_of_lookup_none hc).2] at hn
    simpa [getPidInfo, scanBinderContext] using hn

/-- The failing steps of the `getDebugInfo` block: the call itself, or the `PidInfo` lookup
of a pid other than `NO_PID`. -/
def debugSteps (h : Host) (service : Service) (lookupOk : Int → Bool) : List StatusFlag :=
  match service.getDebugInfo with
  | .error _ => [.transactionError]
  | .ok d => if d.pid ≠ h.NO_PID ∧ lookupOk d.pid = false then [.ioError] else []

/-- The failing steps of the hash block: `interfaceChain` failing or lacking the service name,
`getHashChain` failing or shorter than the name's first position. -/
def hashSteps (service : Service) (serviceName : String) : List StatusFlag :=
  match service.interfaceChain with
  | .error _ => [.transactionError]
  | .ok chain =>
    match hashIndexOf serviceName chain with
    | none => [.badImpl]
    | some i =>
      match service.getHashChain with
      | .error _ => [.transactionError]
      | .ok hashChain => if i < hashChain.length then [] else [.badImpl]

/-- The failing steps of one instance, each with its own bit. -/
def failedSteps (h : Host) (serviceName : String) (getRet : Except String (Option Service))
    (lookupOk : Int → Bool) : List StatusFlag :=
  match getRet with
  | .error _ => [.transactionError]
  | .ok none => [.noInterface]
  | .ok (some service) => debugSteps h service lookupOk ++ hashSteps service serviceName

/-- The status of an instance whose failing steps are `fs`: `OK` when there are none,
otherwise `DUMP_BINDERIZED_ERROR` together with the bit of each. -/
def stepsStatus (fs : List StatusFlag) : Status :=
  if fs = [] then ∅ else insert .dumpBinderizedError fs.toFinset

/-- No step of an instance fails exactly when `get` returns a service whose `getDebugInfo`
succeeds with `NO_PID` or a pid that is looked up, whose `interfaceChain` succeeds and names
the service, and whose `getHashChain` succeeds with a hash at the name's first position. -/
theorem failedSteps_eq_nil_iff (h : Host) (serviceName : String)
    (getRet : Except String (Option Service)) (lookupOk : Int → Bool) :
    failedSteps h serviceName getRet lookupOk = [] ↔ ∃ service, getRet = .ok (some service) ∧
      (∃ d, service.getDebugInfo = .ok d ∧ (d.pid = h.NO_PID ∨ lookupOk d.pid = true)) ∧
      ∃ chain i hashChain, service.interfaceChain = .ok chain ∧
        hashIndexOf serviceName chain = some i ∧ service.getHashChain = .ok hashChain ∧
        i < hashChain.length := by
  unfold failedSteps debugSteps hashSteps
  match getRet with
  | .error _ => simp
  | .ok none => simp
  | .ok (some service) =>
    simp only [List.append_eq_nil, Except.ok.injEq, Option.some.injEq, exists_eq_left']
    apply and_congr
    · cases service.getDebugInfo with
      | error e => simp
      | ok d => by_cases hp : d.pid = h.NO_PID <;> simp [hp]
    · rcases service.interfaceChain with e | chain
      · simp
      · rcases hi : hashIndexOf serviceName chain with _ | i
        · simp [hi]
        · rcases service.getHashChain with e | hashChain
          · simp [hi]
          · by_cases hlt : i < hashChain.length <;> simp [hi, hlt]

theorem stepsStatus_eq_empty_iff (fs : List StatusFlag) : stepsStatus fs = ∅ ↔ fs = [] := by
  unfold stepsStatus
  split <;> simp_all

theorem stepsStatus_append (a b : List StatusFlag) :
    stepsStatus (a ++ b) = stepsStatus a ∪ stepsStatus b := by
  unfold stepsStatus
  by_cases ha : a = [] <;> by_cases hb : b = [] <;> simp [ha, hb, Finset.insert_union,
    Finset.union_insert, List.toFinset_append]

theorem stepsStatus_single (a : StatusFlag) : stepsStatus [a] = {.dumpBinderizedError, a} := by
  simp [stepsStatus]

theorem debugInfoBlock_status (h : Host) (service : Service) (f : EntryFetch) :
    (debugInfoBlock h service f).status =
      f.status ∪ stepsStatus (debugSteps h service fun p => (getPidInfoCached h f.cmd p).1.isSome) := by
  unfold debugInfoBlock debugSteps
  cases service.getDebugInfo with
  | error d => simp [stepsStatus_single]
  | ok d =>
    by_cases hp : d.pid = h.NO_PID
    · simp [hp, stepsStatus]
    · simp only [ne_eq, hp, not_false_eq_true, ↓reduceIte, true_and]
      cases hg : getPidInfoCached h f.cmd d.pid with
      | mk r cmd => cases r <;> simp [hg, stepsStatus_single, stepsStatus]

theorem hashBlock_status (service : Service) (serviceName : String) (f : EntryFetch) :
    (hashBlock service serviceName f).status = f.status ∪ stepsStatus (hashSteps service serviceName) := by
  unfold hashBlock hashSteps
  cases service.interfaceChain with
  | error d => simp [stepsStatus_single]
  | ok chain =>
    dsimp only
    cases hashIndexOf serviceName chain with
    | none => simp [stepsStatus_single]
    | some i =>
      dsimp only
      cases service.getHashChain with
      | error d => simp [stepsStatus_single]
      | ok hashChain =>
        by_cases hi : i < hashChain.length
        · simp [hi, stepsStatus]
        · simp [hi, stepsStatus_single, List.getElem?_eq_none (Nat.le_of_not_lt hi)]

/-- One instance's status is `OK` exactly when no step fails, and otherwise holds
`DUMP_BINDERIZED_ERROR` with the bit of each failing step; the lookups are those of the
cache the instance starts from. -/
theorem fetchBinderizedEntry_status (h : Host) (getRet : Except String (Option Service))
    (cmd : ListCommand) (entry : TableEntry) :
    (fetchBinderizedEntry h getRet cmd entry).status =
      stepsStatus (failedSteps h (splitFirst entry.interfaceName '/').1 getRet
        fun p => (getPidInfoCached h cmd p).1.isSome) := by
  unfold fetchBinderizedEntry failedSteps
  match getRet with
  | .error d => simp [stepsStatus_single]
  | .ok none => simp [stepsStatus_single]
  | .ok (some service) =>
    simp only [hashBlock_status, debugInfoBlock_status, stepsStatus_append, Finset.empty_union]

@[simp] theorem copyPidInfo_interfaceName (h : Host) (ptr : UInt64) (info : PidInfo)
    (e : TableEntry) : (copyPidInfo h ptr info e).interfaceName = e.interfaceName := by
  unfold copyPidInfo; split <;> (try split) <;> rfl

@[simp] theorem copyPidInfo_threadUsage (h : Host) (ptr : UInt64) (info : PidInfo)
    (e : TableEntry) : (copyPidInfo h ptr info e).threadUsage = info.threadUsage := rfl

@[simp] theorem copyPidInfo_threadCount (h : Host) (ptr : UInt64) (info : PidInfo)
    (e : TableEntry) : (copyPidInfo h ptr info e).threadCount = info.threadCount := rfl

@[simp] theorem copyPidInfo_serverPid (h : Host) (ptr : UInt64) (info : PidInfo)
    (e : TableEntry) : (copyPidInfo h ptr info e).serverPid = e.serverPid := by
  unfold copyPidInfo; split <;> (try split) <;> rfl

@[simp] theorem copyPidInfo_transport (h : Host) (ptr : UInt64) (info : PidInfo)
    (e : TableEntry) : (copyPidInfo h ptr info e).transport = e.transport := by
  unfold copyPidInfo; split <;> (try split) <;> rfl

@[simp] theorem copyPidInfo_clientCmdlines (h : Host) (ptr : UInt64) (info : PidInfo)
    (e : TableEntry) : (copyPidInfo h ptr info e).clientCmdlines = e.clientCmdlines := by
  unfold copyPidInfo; split <;> (try split) <;> rfl

/-- The debug-info block fills other fields than the entry's name, transport and client
cmdlines. -/
theorem debugInfoBlock_entry_id (h : Host) (service : Service) (f : EntryFetch) :
    (debugInfoBlock h service f).entry.interfaceName = f.entry.interfaceName ∧
      (debugInfoBlock h service f).entry.transport = f.entry.transport ∧
      (debugInfoBlock h service f).entry.clientCmdlines = f.entry.clientCmdlines := by
  unfold debugInfoBlock
  split
  · simp
  · dsimp only
    split
    · split <;> simp
    · simp

/-- The hash block changes at most the entry's hash. -/
theorem hashBlock_entry (service : Service) (serviceName : String) (f : EntryFetch) :
    ∃ hash, (hashBlock service serviceName f).entry = { f.entry with hash := hash } := by
  unfold hashBlock
  repeat' split
  all_goals first | exact ⟨f.entry.hash, rfl⟩ | exact ⟨_, rfl⟩

/-- `fetchBinderizedEntry` keeps the name, transport and client cmdlines of the entry it
fills. -/
theorem fetchBinderizedEntry_entry_id (h : Host) (getRet : Except String (Option Service))
    (cmd : ListCommand) (entry : TableEntry) :
    (fetchBinderizedEntry h getRet cmd entry).entry.interfaceName = entry.interfaceName ∧
      (fetchBinderizedEntry h getRet cmd entry).entry.transport = entry.transport ∧
      (fetchBinderizedEntry h getRet cmd entry).entry.clientCmdlines = entry.clientCmdlines := by
  unfold fetchBinderizedEntry
  split
  · exact ⟨rfl, rfl, rfl⟩
  · exact ⟨rfl, rfl, rfl⟩
  · obtain ⟨hash, he⟩ := hashBlock_entry _ _ _
    rw [he]
    exact debugInfoBlock_entry_id _ _ _

theorem mem_mapSet {κ ν : Type} [DecidableEq κ] {key : κ} {value : ν} {m : List (κ × ν)}
    {p : κ × ν} (hp : p ∈ mapSet key value m) : p = (key, value) ∨ p ∈ m := by
  induction m with
  | nil => simpa [mapSet] using hp
  | cons q rest ih =>
    obtain ⟨k, v⟩ := q
    unfold mapSet at hp
    split at hp
    · rcases List.mem_cons.mp hp with rfl | hp
      · exact .inl rfl
      · exact .inr (List.mem_cons_of_mem _ hp)
    · rcases List.mem_cons.mp hp with rfl | hp
      · exact .inr (List.mem_cons_self _ _)
      · exact (ih hp).imp id (List.mem_cons_of_mem _)

theorem mapSet_keys {κ ν : Type} [DecidableEq κ] (key : κ) (value : ν) (m : List (κ × ν)) :
    (mapSet key value m).map Prod.fst =
      if key ∈ m.map Prod.fst then m.map Prod.fst else m.map Prod.fst ++ [key] := by
  induction m with
  | nil => simp [mapSet]
  | cons q rest ih =>
    obtain ⟨k, v⟩ := q
    by_cases hk : k = key
    · subst hk; simp [mapSet]
    · by_cases hr : key ∈ rest.map Prod.fst <;> simp_all [mapSet, Ne.symm hk]

/-- `allTableEntries` as the loop keeps it: one entry per name, holding that name and the
hwbinder transport, and no client cmdline yet. -/
def Round.WellFormed (r : Round) : Prop :=
  (r.entries.map Prod.fst).Nodup ∧ ∀ p ∈ r.entries,
    p.2.interfaceName = p.1 ∧ p.2.transport = .hwbinder ∧ p.2.clientCmdlines = []

theorem fetchRound_wellFormed (h : Host) (mgr : Manager) {r : Round} (hr : r.WellFormed)
    (name : String) : (fetchRound h mgr r name).WellFormed := by
  obtain ⟨hn, he⟩ := hr
  refine ⟨?_, fun p hp => ?_⟩
  · simp only [fetchRound, mapSet_keys]
    split
    · exact hn
    · next hk => exact hn.append (List.nodup_singleton _) (by simpa using hk)
  · rcases mem_mapSet hp with rfl | hp
    · have hc : ((r.entries.lookup name).getD h.emptyEntry).clientCmdlines = [] := by
        cases hl : r.entries.lookup name with
        | none => rfl
        | some e => exact (he _ (mem_of_lookup_eq_some hl)).2.2
      obtain ⟨h₁, h₂, h₃⟩ := fetchBinderizedEntry_entry_id h (mgr.getFor r.k name) r.cmd
        { (r.entries.lookup name).getD h.emptyEntry with interfaceName := name, transport := .hwbinder }
      exact ⟨h₁, h₂, h₃.trans hc⟩
    · exact he p hp

theorem foldl_fetchRound_wellFormed (h : Host) (mgr : Manager) (names : List String) {r : Round}
    (hr : r.WellFormed) : (names.foldl (fetchRound h mgr) r).WellFormed := by
  induction names generalizing r with
  | nil => exact hr
  | cons name rest ih => exact ih (fetchRound_wellFormed h mgr hr name)

theorem mem_keys_foldl_fetchRound (h : Host) (mgr : Manager) (names : List String) (r : Round)
    (n : String) : n ∈ (names.foldl (fetchRound h mgr) r).entries.map Prod.fst ↔
      n ∈ r.entries.map Prod.fst ∨ n ∈ names := by
  induction names generalizing r with
  | nil => simp
  | cons name rest ih =>
    have hk : n ∈ (fetchRound h mgr r name).entries.map Prod.fst ↔
        n ∈ r.entries.map Prod.fst ∨ n = name := by
      simp only [fetchRound, mapSet_keys]
      split
      · next hm => exact ⟨.inl, by rintro (hn | rfl) <;> assumption⟩
      · simp
    rw [List.foldl_cons, ih, hk, List.mem_cons, or_assoc]

theorem foldl_fetchRound_k (h : Host) (mgr : Manager) (names : List String) (r : Round) :
    (names.foldl (fetchRound h mgr) r).k = r.k + names.length := by
  induction names generalizing r with
  | nil => rfl
  | cons name rest ih => simp [ih, fetchRound]; omega

/-- The status an instance adds when the loop reaches it in round `r`: that of its failing
steps, the `PidInfo` lookups being those of the cache of the round. -/
def Round.instanceStatus (h : Host) (mgr : Manager) (r : Round) (fqInstanceName : String) :
    Status :=
  stepsStatus (failedSteps h (splitFirst fqInstanceName '/').1 (mgr.getFor r.k fqInstanceName)
    fun p => (getPidInfoCached h r.cmd p).1.isSome)

theorem fetchRound_status (h : Host) (mgr : Manager) (r : Round) (name : String) :
    (fetchRound h mgr r name).status = r.status ∪ r.instanceStatus h mgr name := by
  simp only [fetchRound, fetchBinderizedEntry_status, Round.instanceStatus]

/-- The loop ORs in the status of every listed instance, each in the round it runs in. -/
theorem foldl_fetchRound_status (h : Host) (mgr : Manager) (names : List String) (r : Round) :
    (names.foldl (fetchRound h mgr) r).status = r.status ∪
      ((List.range names.length).map fun i =>
        ((names.take i).foldl (fetchRound h mgr) r).instanceStatus h mgr (names.getD i "")).foldr
          (· ∪ ·) ∅ := by
  induction names generalizing r with
  | nil => simp
  | cons name rest ih =>
    rw [List.foldl_cons, ih, fetchRound_status, List.length_cons, List.range_succ_eq_map]
    simp [Finset.union_assoc, Function.comp_def]

/-- The hash block changes the command only in `err`. -/
theorem hashBlock_cmd (service : Service) (serviceName : String) (f : EntryFetch) :
    ∃ err, (hashBlock service serviceName f).cmd = { f.cmd with err := err } := by
  unfold hashBlock
  repeat' split
  all_goals exact ⟨_, rfl⟩

/-- The debug-info block changes the command only in its cache and `err`. -/
theorem debugInfoBlock_cmd (h : Host) (service : Service) (f : EntryFetch) : ∃ cache err,
    (debugInfoBlock h service f).cmd = { f.cmd with mCachedPidInfos := cache, err := err } := by
  unfold debugInfoBlock
  split
  · exact ⟨_, _, rfl⟩
  · dsimp only
    split
    · split <;> next hg =>
        obtain ⟨cache, err, he⟩ := getPidInfoCached_cmd h f.cmd _
        rw [hg] at he
        subst he
        exact ⟨cache, _, rfl⟩
    · exact ⟨_, _, rfl⟩

/-- The blocks of `fetchBinderizedEntry` change the command only in its cache and `err`. -/
theorem fetchBinderizedEntry_cmd (h : Host) (getRet : Except String (Option Service))
    (cmd : ListCommand) (entry : TableEntry) : ∃ cache err,
      (fetchBinderizedEntry h getRet cmd entry).cmd = { cmd with mCachedPidInfos := cache, err := err } := by
  unfold fetchBinderizedEntry
  split
  · exact ⟨_, _, rfl⟩
  · exact ⟨_, _, rfl⟩
  · obtain ⟨err, he⟩ := hashBlock_cmd _ _ (debugInfoBlock h _ ⟨∅, entry, cmd⟩)
    obtain ⟨cache, err', he'⟩ := debugInfoBlock_cmd h _ ⟨∅, entry, cmd⟩
    rw [he, he']
    exact ⟨cache, err, rfl⟩

/-- The loop changes the command only in its cache and `err`. -/
theorem foldl_fetchRound_cmd (h : Host) (mgr : Manager) (names : List String) (r : Round) :
    ∃ cache err, (names.foldl (fetchRound h mgr) r).cmd =
      { r.cmd with mCachedPidInfos := cache, err := err } := by
  induction names generalizing r with
  | nil => exact ⟨_, _, rfl⟩
  | cons name rest ih =>
    obtain ⟨cache, err, he⟩ := ih (fetchRound h mgr r name)
    obtain ⟨cache', err', he'⟩ := fetchBinderizedEntry_cmd h (mgr.getFor r.k name) r.cmd
      { (r.entries.lookup name).getD h.emptyEntry with interfaceName := name, transport := .hwbinder }
    rw [List.foldl_cons, he]
    simp only [fetchRound, he']
    exact ⟨cache, err, rfl⟩

theorem foldl_fetchRound_tables (h : Host) (mgr : Manager) (names : List String) (r : Round) :
    (names.foldl (fetchRound h mgr) r).cmd.mServicesTable = r.cmd.mServicesTable := by
  obtain ⟨cache, err, he⟩ := foldl_fetchRound_cmd h mgr names r
  rw [he]

/-- The entries of a map whose entries hold their keys as names, in key order, carry exactly its
keys. -/
theorem inKeyOrder_names_perm {entries : List (String × TableEntry)}
    (hname : ∀ p ∈ entries, p.2.interfaceName = p.1) :
    ((inKeyOrder entries).map TableEntry.interfaceName).Perm (entries.map Prod.fst) := by
  have hperm := List.mergeSort_perm entries fun a b => decide (a.1 ≤ b.1)
  have hmap : (inKeyOrder entries).map TableEntry.interfaceName =
      (entries.mergeSort fun a b => decide (a.1 ≤ b.1)).map Prod.fst := by
    simp only [inKeyOrder, List.map_map]
    exact List.map_congr_left fun p hp => hname p (hperm.mem_iff.mp hp)
  rw [hmap]
  exact hperm.map _

/-- The table entries of a well-formed map in key order carry exactly its keys, once each. -/
theorem inKeyOrder_names {r : Round} (hr : r.WellFormed) :
    ((inKeyOrder r.entries).map TableEntry.interfaceName).Perm (r.entries.map Prod.fst) :=
  inKeyOrder_names_perm fun p hp => (hr.2 p hp).1

theorem mem_inKeyOrder {entries : List (String × TableEntry)} {e : TableEntry}
    (he : e ∈ inKeyOrder entries) : ∃ name, (name, e) ∈ entries := by
  obtain ⟨p, hp, rfl⟩ := List.mem_map.mp he
  exact ⟨p.1, (List.mergeSort_perm _ _).mem_iff.mp hp⟩

/-- From an empty services table, `fetchBinderized` lists each instance name at most once,
whatever the manager answers. -/
theorem fetchBinderized_names_nodup (h : Host) (mgr : Manager) {cmd : ListCommand}
    (hc : cmd.mServicesTable = []) :
    ((fetchBinderized h mgr cmd).2.mServicesTable.map TableEntry.interfaceName).Nodup := by
  unfold fetchBinderized
  split
  · simp [hc]
  · split
    · simp [hc]
    · next names _ =>
      have hwf := foldl_fetchRound_wellFormed h mgr names (r := ⟨0, ∅, [], cmd⟩)
        ⟨List.nodup_nil, by simp⟩
      simp only [foldl_fetchRound_tables, hc, List.nil_append]
      exact (inKeyOrder_names hwf).nodup_iff.mpr hwf.1

/-- `fetchBinderized`, once `list` succeeds, tries every listed instance whatever happened to
the earlier ones: its status is the OR of the statuses of all of them, the `i`-th being the
one its failing steps give with the `PidInfo` cache it meets. It adds one hwbinder entry per
distinct listed name. -/
theorem fetchBinderized_status_and_entries (h : Host) (mgr : Manager) (cmd : ListCommand)
    (names : List String) (hreport : cmd.shouldReportHalType .binderizedServices = true)
    (hlist : mgr.list = .ok names) :
    (fetchBinderized h mgr cmd).1 =
        ((List.range names.length).map fun i =>
          stepsStatus (failedSteps h (splitFirst (names.getD i "") '/').1
            (mgr.getFor i (names.getD i "")) fun p =>
              (getPidInfoCached h ((names.take i).foldl (fetchRound h mgr) ⟨0, ∅, [], cmd⟩).cmd
                p).1.isSome)).foldr (· ∪ ·) ∅ ∧
      ∃ added, (fetchBinderized h mgr cmd).2.mServicesTable = cmd.mServicesTable ++ added ∧
        (added.map TableEntry.interfaceName).Nodup ∧
        (∀ n, n ∈ added.map TableEntry.interfaceName ↔ n ∈ names) ∧
        ∀ e ∈ added, e.transport = .hwbinder := by
  have hwf := foldl_fetchRound_wellFormed h mgr names (r := ⟨0, ∅, [], cmd⟩) ⟨List.nodup_nil, by simp⟩
  simp only [fetchBinderized, hreport, hlist, Bool.not_true, Bool.false_eq_true, ↓reduceIte]
  refine ⟨?_, inKeyOrder (names.foldl (fetchRound h mgr) ⟨0, ∅, [], cmd⟩).entries,
    by rw [foldl_fetchRound_tables], ?_, fun n => ?_, fun e he => ?_⟩
  · rw [foldl_fetchRound_status, Finset.empty_union]
    congr 1
    refine List.map_congr_left fun i hi => ?_
    have hi' : i ≤ names.length := (List.mem_range.mp hi).le
    simp [Round.instanceStatus, foldl_fetchRound_k, hi']
  · exact (inKeyOrder_names hwf).nodup_iff.mpr hwf.1
  · rw [(inKeyOrder_names hwf).mem_iff, mem_keys_foldl_fetchRound]
    simp
  · obtain ⟨name, hp⟩ := mem_inKeyOrder he
    exact (hwf.2 _ hp).2.1

/-- A host on which pid 7's debug file is readable: a binder context, then a hwbinder context
with two hwbinder threads, one of them in use, and one thread that has called into binder. -/
def hwbinderHost : Host :=
  { Host.bare with
    binderProc := fun pid => if pid = 7 then some ["context binder", "  thread 1: l 02",
      "context hwbinder", "  thread 5: l 12 need_return 0", "  thread 6: l 02", "  thread 7: l 10"]
      else none }

/-- A service served by `pid` whose interface chain is `name` then `IBase`, and whose hash chain
has `hashes` hashes. -/
def chainService (pid : Int) (name : String) (hashes : Nat) : Service :=
  ⟨.ok ⟨pid, 0, .unknown⟩, .ok [name, "android.hidl.base@1.0::IBase"],
    .ok (List.replicate hashes [0xab, 0x01])⟩

/-- The names `list` gives: `a@1.0::IA/default` twice and `b@1.0::IB/default` once. -/
def sevenNames : List String := ["a@1.0::IA/default", "b@1.0::IB/default", "a@1.0::IA/default"]

/-- A manager whose instances are all served by pid 7: `a`'s service hashes both interfaces of
its chain, `b`'s returns no hash. -/
def sevenManager : Manager where
  list := .ok sevenNames
  get := fun _ fqName _ => .ok (some (chainService 7 fqName (if fqName = "a@1.0::IA" then 2 else 0)))
  debugDump := .ok []

/-- `lshal list --types=b`. -/
def servicesOnly : ListCommand := { ListCommand.init with mListTypes := [.binderizedServices] }

theorem fetchBinderized_status_and_entries_single :
    (servicesOnly.shouldReportHalType .binderizedServices = true ∧
      sevenManager.list = .ok sevenNames) ∧
    ((fetchBinderized hwbinderHost sevenManager servicesOnly).1 =
        ((List.range sevenNames.length).map fun i =>
          stepsStatus (failedSteps hwbinderHost (splitFirst (sevenNames.getD i "") '/').1
            (sevenManager.getFor i (sevenNames.getD i "")) fun p =>
              (getPidInfoCached hwbinderHost ((sevenNames.take i).foldl
                (fetchRound hwbinderHost sevenManager) ⟨0, ∅, [], servicesOnly⟩).cmd p).1.isSome)).foldr
          (· ∪ ·) ∅ ∧
      ∃ added, (fetchBinderized hwbinderHost sevenManager servicesOnly).2.mServicesTable =
          servicesOnly.mServicesTable ++ added ∧
        (added.map TableEntry.interfaceName).Nodup ∧
        (∀ n, n ∈ added.map TableEntry.interfaceName ↔ n ∈ sevenNames) ∧
        ∀ e ∈ added, e.transport = .hwbinder) :=
  ⟨⟨rfl, rfl⟩, fetchBinderized_status_and_entries _ _ _ _ rfl rfl⟩

end Cmds.Lshal
