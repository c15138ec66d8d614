import Cmds.Lshal.Fetch

/-!
# The `PidInfo` cache and the thread counters

Within one cycle `getPidInfoCached` reads each server's binder file at most once. Every lookup
keeps the cache invariant `CacheFaithful`, and from it every services entry keeps its thread
counters faithful; the `PidInfo{}` left by a failed read makes a second lookup succeed.
-/

namespace Cmds.Lshal

/-- What a cached `PidInfo` of `pid` holds: `PidInfo{}` when the file cannot be opened,
otherwise counters equal to the file's counted hwbinder threads. -/
def InfoFaithful (h : Host) (pid : Int) (info : PidInfo) : Prop :=
  (h.binderProc pid = none → info = PidInfo.empty) ∧
    ∀ text, h.binderProc pid = some text →
      info.threadCount = (hwbinderThreads text).length ∧
        info.threadUsage = (busyThreads (hwbinderThreads text)).length

/-- Every entry of the cache holds what reading its pid's file gave. -/
def CacheFaithful (h : Host) (cache : List (Int × PidInfo)) : Prop :=
  ∀ pid info, cache.lookup pid = some info → InfoFaithful h pid info

theorem InfoFaithful.usage_le {h : Host} {pid : Int} {info : PidInfo} (hi : InfoFaithful h pid info) :
    info.threadUsage ≤ info.threadCount := by
  cases hp : h.binderProc pid with
  | none => simp [hi.1 hp, PidInfo.empty]
  | some text =>
    obtain ⟨hc, hu⟩ := hi.2 text hp
    rw [hc, hu]
    exact busyThreads_length_le _

section Bounded

variable {h : Host} (hbound : ∀ pid text, h.binderProc pid = some text → text.length < 2 ^ 32)
include hbound

/-- What a first read puts in the cache is faithful. -/
theorem infoFaithful_read (pid : Int) (err : String) :
    InfoFaithful h pid (((getPidInfo h pid (PidInfo.empty, err)).map Prod.fst).getD PidInfo.empty) := by
  refine ⟨fun hp => by simp [getPidInfo, scanBinderContext, hp], fun text hp => ?_⟩
  obtain ⟨out, hout, hc, hu⟩ := getPidInfo_threads h err hp (hbound pid text hp)
  simp [hout, hc, hu]

/-- A lookup keeps the cache faithful and returns a faithful `PidInfo`. -/
theorem getPidInfoCached_faithful {c : ListCommand} (hc : CacheFaithful h c.mCachedPidInfos)
    (pid : Int) : CacheFaithful h (getPidInfoCached h c pid).2.mCachedPidInfos ∧
      ∀ info, (getPidInfoCached h c pid).1 = some info → InfoFaithful h pid info := by
  cases hl : c.mCachedPidInfos.lookup pid with
  | some info =>
    rw [getPidInfoCached_of_lookup hl]
    exact ⟨hc, fun i hi => (Option.some.inj hi) ▸ hc pid info hl⟩
  | none =>
    obtain ⟨hcache, hret⟩ := getPidInfoCached_of_lookup_none (h := h) hl
    refine ⟨fun p info hp => ?_, fun info hi => ?_⟩
    · rw [hcache, lookup_append_singleton] at hp
      cases hp' : c.mCachedPidInfos.lookup p with
      | some i => rw [hp', Option.or_some] at hp; exact (Option.some.inj hp) ▸ hc p i hp'
      | none =>
        by_cases hpp : p = pid
        · subst hpp
          simp only [hp', Option.none_or, if_true, Option.some.injEq] at hp
          exact hp ▸ infoFaithful_read hbound p c.err
        · simp [hp', hpp] at hp
    · have hinfo := infoFaithful_read hbound pid c.err
      rw [hret] at hi
      rwa [hi, Option.getD_some] at hinfo

end Bounded

/-- The `getDebugInfo` block leaves entry and cache alone when the call fails; otherwise it
copies the debug info and, for a real pid, looks it up and copies what the lookup found. -/
theorem debugInfoBlock_cases (h : Host) (service : Service) (f : EntryFetch) :
    ((debugInfoBlock h service f).entry = f.entry ∧
      (debugInfoBlock h service f).cmd.mCachedPidInfos = f.cmd.mCachedPidInfos) ∨
    ∃ d, service.getDebugInfo = .ok d ∧
      ((d.pid = h.NO_PID ∧ (debugInfoBlock h service f).entry = f.entry.withDebugInfo d ∧
          (debugInfoBlock h service f).cmd.mCachedPidInfos = f.cmd.mCachedPidInfos) ∨
        (d.pid ≠ h.NO_PID ∧ (debugInfoBlock h service f).cmd.mCachedPidInfos =
            (getPidInfoCached h f.cmd d.pid).2.mCachedPidInfos ∧
          (((getPidInfoCached h f.cmd d.pid).1 = none ∧
              (debugInfoBlock h service f).entry = f.entry.withDebugInfo d) ∨
            ∃ info, (getPidInfoCached h f.cmd d.pid).1 = some info ∧
              (debugInfoBlock h service f).entry = copyPidInfo h d.ptr info (f.entry.withDebugInfo d)))) := by
  unfold debugInfoBlock
  cases hd : service.getDebugInfo with
  | error e => exact .inl ⟨rfl, rfl⟩
  | ok d =>
    refine .inr ⟨d, rfl, ?_⟩
    by_cases hp : d.pid = h.NO_PID
    · simp [hp]
    · right
      simp only [ne_eq, hp, not_false_eq_true, ↓reduceIte, true_and]
      obtain ⟨o, cmd⟩ := getPidInfoCached h f.cmd d.pid
      cases o <;> simp

/-- An entry's counters are ordered, and are its server's counted hwbinder threads whenever
the server is a real pid whose file is readable. -/
def ThreadsFaithful (h : Host) (e : TableEntry) : Prop :=
  e.threadUsage ≤ e.threadCount ∧
    (e.serverPid ≠ h.NO_PID → ∀ text, h.binderProc e.serverPid = some text →
      e.threadCount = (hwbinderThreads text).length ∧
        e.threadUsage = (busyThreads (hwbinderThreads text)).length)

theorem threadsFaithful_emptyEntry (h : Host) : ThreadsFaithful h h.emptyEntry :=
  ⟨Nat.le_refl 0, fun hp => absurd rfl hp⟩

theorem threadsFaithful_withDebugInfo_of_unreadable {h : Host} {e : TableEntry} {d : DebugInfo}
    (he : ThreadsFaithful h e) (hd : h.binderProc d.pid = none) :
    ThreadsFaithful h (e.withDebugInfo d) :=
  ⟨he.1, fun _ text ht => by simp [hd] at ht⟩

theorem threadsFaithful_copyPidInfo {h : Host} {d : DebugInfo} {info : PidInfo} (e : TableEntry)
    (hi : InfoFaithful h d.pid info) : ThreadsFaithful h (copyPidInfo h d.ptr info (e.withDebugInfo d)) :=
  ⟨by simpa using hi.usage_le, fun _ text ht => by simpa using hi.2 text (by simpa using ht)⟩

/-- The entry a round starts from is faithful when the map's entries are. -/
theorem threadsFaithful_roundEntry {h : Host} {entries : List (String × TableEntry)}
    (he : ∀ p ∈ entries, ThreadsFaithful h p.2) (name : String) :
    ThreadsFaithful h { (entries.lookup name).getD h.emptyEntry with
      interfaceName := name, transport := .hwbinder } := by
  cases hl : entries.lookup name with
  | none => exact threadsFaithful_emptyEntry h
  | some e => exact he _ (mem_of_lookup_eq_some hl)

section Bounded

variable {h : Host} (hbound : ∀ pid text, h.binderProc pid = some text → text.length < 2 ^ 32)
include hbound

/-- The debug-info block keeps the cache faithful and the entry's counters faithful. -/
theorem debugInfoBlock_faithful (service : Service) {f : EntryFetch}
    (hc : CacheFaithful h f.cmd.mCachedPidInfos) (he : ThreadsFaithful h f.entry) :
    CacheFaithful h (debugInfoBlock h service f).cmd.mCachedPidInfos ∧
      ThreadsFaithful h (debugInfoBlock h service f).entry := by
  rcases debugInfoBlock_cases h service f with ⟨he', hc'⟩ | ⟨d, -, ⟨hp, he', hc'⟩ | ⟨hp, hc', hl⟩⟩
  · rw [he', hc']; exact ⟨hc, he⟩
  · rw [he', hc']; exact ⟨hc, he.1, fun hne => absurd (by simpa using hp) hne⟩
  · obtain ⟨hcache, hinfo⟩ := getPidInfoCached_faithful hbound hc d.pid
    rw [hc']
    refine ⟨hcache, ?_⟩
    rcases hl with ⟨hn, he'⟩ | ⟨info, hi, he'⟩
    · rw [he']
      exact threadsFaithful_withDebugInfo_of_unreadable he (binderProc_eq_none_of_getPidInfoCached hn)
    · rw [he']
      exact threadsFaithful_copyPidInfo _ (hinfo info hi)

/-- `fetchBinderizedEntry` keeps the cache faithful and the entry's counters faithful. -/
theorem fetchBinderizedEntry_faithful (getRet : Except String (Option Service)) {cmd : ListCommand}
    {entry : TableEntry} (hc : CacheFaithful h cmd.mCachedPidInfos) (he : ThreadsFaithful h entry) :
    CacheFaithful h (fetchBinderizedEntry h getRet cmd entry).cmd.mCachedPidInfos ∧
      ThreadsFaithful h (fetchBinderizedEntry h getRet cmd entry).entry := by
  unfold fetchBinderizedEntry
  split
  · exact ⟨hc, he⟩
  · exact ⟨hc, he⟩
  · next service =>
    obtain ⟨hc', he'⟩ := debugInfoBlock_faithful hbound service (f := ⟨∅, entry, cmd⟩) hc he
    obtain ⟨hash, hh⟩ := hashBlock_entry service (splitFirst entry.interfaceName '/').1
      (debugInfoBlock h service ⟨∅, entry, cmd⟩)
    obtain ⟨err, hcmd⟩ := hashBlock_cmd service (splitFirst entry.interfaceName '/').1
      (debugInfoBlock h service ⟨∅, entry, cmd⟩)
    rw [hh, hcmd]
    exact ⟨hc', he'⟩

/-- The loop keeps the cache faithful and every entry of `allTableEntries` faithful. -/
theorem foldl_fetchRound_faithful (mgr : Manager) (names : List String) {r : Round}
    (hc : CacheFaithful h r.cmd.mCachedPidInfos) (he : ∀ p ∈ r.entries, ThreadsFaithful h p.2) :
    CacheFaithful h (names.foldl (fetchRound h mgr) r).cmd.mCachedPidInfos ∧
      ∀ p ∈ (names.foldl (fetchRound h mgr) r).entries, ThreadsFaithful h p.2 := by
  induction names generalizing r with
  | nil => exact ⟨hc, he⟩
  | cons name rest ih =>
    have hf := fetchBinderizedEntry_faithful hbound (mgr.getFor r.k name) hc
      (threadsFaithful_roundEntry he name)
    apply ih hf.1
    intro p hp
    rcases mem_mapSet hp with rfl | hp
    · exact hf.2
    · exact he p hp

/-- `fetchBinderized` keeps every services-table entry faithful. -/
theorem fetchBinderized_threadsFaithful (mgr : Manager) {cmd : ListCommand}
    (hc : CacheFaithful h cmd.mCachedPidInfos) (he : ∀ e ∈ cmd.mServicesTable, ThreadsFaithful h e) :
    ∀ e ∈ (fetchBinderized h mgr cmd).2.mServicesTable, ThreadsFaithful h e := by
  intro e hmem
  unfold fetchBinderized at hmem
  split at hmem
  · exact he e hmem
  · split at hmem
    · exact he e hmem
    · next names _ =>
      have hrun := foldl_fetchRound_faithful hbound mgr names (r := ⟨0, ∅, [], cmd⟩) hc (by simp)
      dsimp only at hmem
      rw [foldl_fetchRound_tables] at hmem
      rcases List.mem_append.mp hmem with hmem | hmem
      · exact he e hmem
      · obtain ⟨name, hp⟩ := mem_inKeyOrder hmem
        exact hrun.2 _ hp

end Bounded

/-- A service whose server is pid 7 and which fails the hash calls. -/
def servedBy7 : Service := ⟨.ok ⟨7, 0, .unknown⟩, .error "", .error ""⟩

theorem mem_stepsStatus {a : StatusFlag} {fs : List StatusFlag} :
    a ∈ stepsStatus fs ↔ fs ≠ [] ∧ (a = .dumpBinderizedError ∨ a ∈ fs) := by
  unfold stepsStatus
  split <;> simp_all

theorem ioError_not_mem_hashSteps (service : Service) (serviceName : String) :
    .ioError ∉ hashSteps service serviceName := by
  unfold hashSteps
  repeat' split
  all_goals simp

/-- Two instances served by one pid whose debug file cannot be opened: the first lookup fails
and the first instance gets `IO_ERROR`; the `PidInfo{}` it leaves in the cache makes the
second lookup succeed, so the second instance gets no `IO_ERROR` and zero thread counters. -/
theorem fetchBinderizedEntry_second_lookup_of_unreadable_pid (h : Host) {s₁ s₂ : Service}
    {d₁ d₂ : DebugInfo} (cmd : ListCommand) (e₁ e₂ : TableEntry)
    (hd₁ : s₁.getDebugInfo = .ok d₁) (hd₂ : s₂.getDebugInfo = .ok d₂) (hpid : d₂.pid = d₁.pid)
    (hno : d₁.pid ≠ h.NO_PID) (hnew : cmd.mCachedPidInfos.lookup d₁.pid = none)
    (hfail : h.binderProc d₁.pid = none) :
    .ioError ∈ (fetchBinderizedEntry h (.ok (some s₁)) cmd e₁).status ∧
      .ioError ∉ (fetchBinderizedEntry h (.ok (some s₂))
        (fetchBinderizedEntry h (.ok (some s₁)) cmd e₁).cmd e₂).status ∧
      (fetchBinderizedEntry h (.ok (some s₂))
        (fetchBinderizedEntry h (.ok (some s₁)) cmd e₁).cmd e₂).entry.threadCount = 0 := by
  have hread : getPidInfo h d₁.pid (PidInfo.empty, cmd.err) = none := by
    simp [getPidInfo, scanBinderContext, hfail]
  have hget₁ : getPidInfoCached h cmd d₁.pid =
      (none, { cmd with mCachedPidInfos := cmd.mCachedPidInfos ++ [(d₁.pid, PidInfo.empty)] }) := by
    simp [getPidInfoCached, hnew, hread]
  set c₁ := (fetchBinderizedEntry h (.ok (some s₁)) cmd e₁).cmd
  have hcache : c₁.mCachedPidInfos = cmd.mCachedPidInfos ++ [(d₁.pid, PidInfo.empty)] := by
    obtain ⟨err, he⟩ := hashBlock_cmd s₁ (splitFirst e₁.interfaceName '/').1
      (debugInfoBlock h s₁ ⟨∅, e₁, cmd⟩)
    simp only [c₁, fetchBinderizedEntry, he]
    simp [debugInfoBlock, hd₁, hno, hget₁]
  have hget₂ : getPidInfoCached h c₁ d₂.pid = (some PidInfo.empty, c₁) := by
    apply getPidInfoCached_of_lookup
    rw [hcache, lookup_append_singleton, hpid, hnew]
    simp
  refine ⟨?_, ?_, ?_⟩
  · rw [fetchBinderizedEntry_status, mem_stepsStatus]
    simp [failedSteps, debugSteps, hd₁, hno, hget₁]
  · rw [fetchBinderizedEntry_status, mem_stepsStatus]
    simp [failedSteps, debugSteps, hd₂, hget₂, ioError_not_mem_hashSteps]
  · obtain ⟨hash, hh⟩ := hashBlock_entry s₂ (splitFirst e₂.interfaceName '/').1
      (debugInfoBlock h s₂ ⟨∅, e₂, c₁⟩)
    simp only [fetchBinderizedEntry, hh]
    have hno₂ : d₂.pid ≠ h.NO_PID := hpid ▸ hno
    simp [debugInfoBlock, hd₂, hno₂, hget₂, PidInfo.empty]

theorem fetchBinderizedEntry_second_lookup_of_unreadable_pid_seven :
    (servedBy7.getDebugInfo = .ok ⟨7, 0, .unknown⟩ ∧ servedBy7.getDebugInfo = .ok ⟨7, 0, .unknown⟩ ∧
      (⟨7, 0, .unknown⟩ : DebugInfo).pid = (⟨7, 0, .unknown⟩ : DebugInfo).pid ∧
      (⟨7, 0, .unknown⟩ : DebugInfo).pid ≠ Host.bare.NO_PID ∧
      ListCommand.init.mCachedPidInfos.lookup (⟨7, 0, .unknown⟩ : DebugInfo).pid = none ∧
      Host.bare.binderProc (⟨7, 0, .unknown⟩ : DebugInfo).pid = none) ∧
    .ioError ∈ (fetchBinderizedEntry Host.bare (.ok (some servedBy7)) ListCommand.init
        Host.bare.emptyEntry).status ∧
      .ioError ∉ (fetchBinderizedEntry Host.bare (.ok (some servedBy7))
        (fetchBinderizedEntry Host.bare (.ok (some servedBy7)) ListCommand.init
          Host.bare.emptyEntry).cmd Host.bare.emptyEntry).status ∧
      (fetchBinderizedEntry Host.bare (.ok (some servedBy7))
        (fetchBinderizedEntry Host.bare (.ok (some servedBy7)) ListCommand.init
          Host.bare.emptyEntry).cmd Host.bare.emptyEntry).entry.threadCount = 0 :=
  ⟨⟨rfl, rfl, rfl, by decide, rfl, rfl⟩,
    fetchBinderizedEntry_second_lookup_of_unreadable_pid Host.bare ListCommand.init _ _
      rfl rfl rfl (by decide) rfl rfl⟩

end Cmds.Lshal
