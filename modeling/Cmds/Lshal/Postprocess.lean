import Cmds.Lshal.Passthrough
import Cmds.Lshal.Options
import Mathlib.Data.List.Forall2

/-!
# `postprocess`: cmdlines, partitions and the cross-table arch

`postprocess` sorts each listed table, memoises the cmdline and partition of every pid it meets,
drops the client pids that are lshal's own or have no cmdline, and copies a library's arch to the
passthrough clients of its `package@version`. The memo holds the host's answers in call order
(`cmdlineAnswers`), and each entry ends as its own fetched entry postprocessed, then reordered.
-/

namespace Cmds.Lshal

/-- The memoised cmdline of a pid; `""` for one never looked up. -/
def memoOf (memo : List (Int × String)) (pid : Int) : String := (memo.lookup pid).getD ""

/-- `ListCommand::getCmdline`. Every `parseCmdline` call appends one pair to the memo, so the
`k`-th call is the one that finds `k` pairs there. -/
def getCmdline (h : Host) (c : ListCommand) (pid : Int) : String × ListCommand :=
  match c.mCmdlines.lookup pid with
  | some cmdline => (cmdline, c)
  | none =>
    let cmdline := h.cmdline c.mCmdlines.length pid
    (cmdline, { c with mCmdlines := c.mCmdlines ++ [(pid, cmdline)] })

/-- `ListCommand::getPartition`, memoised the same way. -/
def getPartition (h : Host) (c : ListCommand) (pid : Int) : Partition × ListCommand :=
  match c.mPartitions.lookup pid with
  | some partition => (partition, c)
  | none =>
    let partition := h.partitionOf c.mPartitions.length pid
    (partition, { c with mPartitions := c.mPartitions ++ [(pid, partition)] })

/-- `removeDeadProcesses`: `remove_if` tests the pids in order, and `||` skips the lookup of
lshal's own pid. -/
def removeDeadProcesses (h : Host) (c : ListCommand) : List Int → List Int × ListCommand
  | [] => ([], c)
  | pid :: pids =>
    if pid = h.getpid then removeDeadProcesses h c pids else
    let (cmdline, c) := getCmdline h c pid
    let (kept, c) := removeDeadProcesses h c pids
    (if cmdline = "" then kept else pid :: kept, c)

/-- The loop pushing `getCmdline(pid)` for each remaining client. -/
def pushClientCmdlines (h : Host) (c : ListCommand) : List Int → List String × ListCommand
  | [] => ([], c)
  | pid :: pids =>
    let (cmdline, c) := getCmdline h c pid
    let (cmdlines, c) := pushClientCmdlines h c pids
    (cmdline :: cmdlines, c)

/-- The body of the first loop of `postprocess` over a table. -/
def postprocessEntry (h : Host) (c : ListCommand) (entry : TableEntry) : TableEntry × ListCommand :=
  let (serverCmdline, c) := getCmdline h c entry.serverPid
  let (clientPids, c) := removeDeadProcesses h c entry.clientPids
  let (cmdlines, c) := pushClientCmdlines h c clientPids
  ({ entry with
    serverCmdline := serverCmdline
    clientPids := clientPids
    clientCmdlines := entry.clientCmdlines ++ cmdlines }, c)

/-- The body of the second loop of `postprocess` over a table. -/
def partitionEntry (h : Host) (c : ListCommand) (entry : TableEntry) : TableEntry × ListCommand :=
  let (partition, c) := getPartition h c entry.serverPid
  ({ entry with partition := partition }, c)

/-- A `for (TableEntry &entry : table)` loop whose body updates the entry and the command. -/
def forEntries (body : ListCommand → TableEntry → TableEntry × ListCommand) (c : ListCommand) :
    List TableEntry → List TableEntry × ListCommand
  | [] => ([], c)
  | entry :: rest =>
    let (entry, c) := body c entry
    let (rest, c) := forEntries body c rest
    (entry :: rest, c)

/-- `std::sort` by the `--sort` column, when one was given. -/
def sortTable (c : ListCommand) (table : List TableEntry) : List TableEntry :=
  match c.mSortColumn with
  | some column => table.mergeSort column.compare
  | none => table

/-- The lambda `postprocess` hands to `forEachTable`. -/
def postprocessTable (h : Host) (c : ListCommand) (table : List TableEntry) :
    List TableEntry × ListCommand :=
  let (table, c) := forEntries (postprocessEntry h) c (sortTable c table)
  forEntries (partitionEntry h) c table

/-- One round of `forEachTable`: `f` on the table of one type. -/
def forTable (f : ListCommand → List TableEntry → List TableEntry × ListCommand)
    (c : ListCommand) (type : HalType) : ListCommand :=
  let (table, c') := f c (c.table type)
  c'.setTable type table

/-- `forEachTable`: `f` on the table of each listed type, in the order of `mListTypes`. -/
def forEachTable (f : ListCommand → List TableEntry → List TableEntry × ListCommand)
    (c : ListCommand) : ListCommand :=
  c.mListTypes.foldl (forTable f) c

/-- `s.substr(0, s.find("::"))`. -/
def beforeColons : List Char → List Char
  | ':' :: ':' :: _ => []
  | ch :: rest => ch :: beforeColons rest
  | [] => []

/-- The `package@version` a library entry's name starts with, when it parses. -/
def packageOf (h : Host) (packageEntry : TableEntry) : Option FQName :=
  h.parseFQName (String.mk (beforeColons packageEntry.interfaceName.toList))

/-- The body of the inner loop, for a library entry whose package parsed as `fqPackageName`. -/
def crossEntry (h : Host) (fqPackageName : FQName) (arch : Arch) (interfaceEntry : TableEntry) :
    TableEntry :=
  if interfaceEntry.arch ≠ .archEmpty then interfaceEntry else
  match h.parseFQName (splitFirst interfaceEntry.interfaceName '/').1 with
  | none => interfaceEntry
  | some interfaceName =>
    if interfaceName.getPackageAndVersion = fqPackageName then { interfaceEntry with arch := arch }
    else interfaceEntry

/-- The double loop of `postprocess` over the library and the passthrough-client tables. -/
def crossTable (h : Host) (implementations refs : List TableEntry) : List TableEntry :=
  implementations.foldl (fun refs packageEntry =>
    match packageOf h packageEntry with
    | none => refs
    | some fqPackageName => refs.map (crossEntry h fqPackageName packageEntry.arch)) refs

/-- `ListCommand::postprocess`; the table descriptions it sets are not modelled. -/
def postprocess (h : Host) (c : ListCommand) : ListCommand :=
  let c := forEachTable (postprocessTable h) c
  { c with mPassthroughRefTable := crossTable h c.mImplementationsTable c.mPassthroughRefTable }

theorem lookup_eq_none_iff {κ ν : Type} [DecidableEq κ] {m : List (κ × ν)} {k : κ} :
    m.lookup k = none ↔ k ∉ m.map Prod.fst := by
  simp only [List.lookup_eq_none_iff, List.mem_map, not_exists, not_and, bne_iff_ne, ne_eq]
  exact ⟨fun h p hp hk => h p hp hk.symm, fun h p hp hk => h p hp hk.symm⟩

theorem mem_keys_of_lookup_isSome {κ ν : Type} [DecidableEq κ] {m : List (κ × ν)} {k : κ}
    (h : (m.lookup k).isSome) : k ∈ m.map Prod.fst := by
  by_contra hk
  simp [lookup_eq_none_iff.mpr hk] at h

theorem lookup_append_of_lookup {κ ν : Type} [DecidableEq κ] {m : List (κ × ν)} {k : κ} {v : ν}
    (ext : List (κ × ν)) (hl : m.lookup k = some v) : (m ++ ext).lookup k = some v := by
  rw [List.lookup_append, hl]
  rfl

/-- The cmdline memo the host's answers build: the `k`-th pid parsed, with the `k`-th answer
of `parseCmdline`. -/
def cmdlineAnswers (h : Host) (pids : List Int) : List (Int × String) :=
  pids.mapIdx fun k pid => (pid, h.cmdline k pid)

/-- A cmdline memo as `getCmdline` builds it: one pair per pid, each holding the host's answer
at the call that added it. -/
def MemoSound (h : Host) (m : List (Int × String)) : Prop :=
  (m.map Prod.fst).Nodup ∧ m = cmdlineAnswers h (m.map Prod.fst)

theorem MemoSound.nil (h : Host) : MemoSound h [] := ⟨List.nodup_nil, rfl⟩

/-- Parsing a pid the memo does not hold yet keeps it sound. -/
theorem MemoSound.append {h : Host} {m : List (Int × String)} {pid : Int} (hs : MemoSound h m)
    (hl : m.lookup pid = none) : MemoSound h (m ++ [(pid, h.cmdline m.length pid)]) := by
  refine ⟨by simpa [List.nodup_append, lookup_eq_none_iff.mp hl] using hs.1, ?_⟩
  calc m ++ [(pid, h.cmdline m.length pid)]
      = cmdlineAnswers h (m.map Prod.fst) ++ [(pid, h.cmdline (m.map Prod.fst).length pid)] := by
        rw [List.length_map, ← hs.2]
    _ = cmdlineAnswers h ((m ++ [(pid, h.cmdline m.length pid)]).map Prod.fst) := by
        simp only [cmdlineAnswers, List.map_append, List.map_cons, List.map_nil,
          List.mapIdx_concat]

/-- `m'` is the memo `m` with pairs of pids not in it yet appended, as `getCmdline` appends
them. -/
structure MemoExt (h : Host) (m m' : List (Int × String)) : Prop where
  ext : ∃ ext, m' = m ++ ext
  sound : MemoSound h m → MemoSound h m'

theorem MemoExt.refl (h : Host) (m : List (Int × String)) : MemoExt h m m :=
  ⟨⟨[], by simp⟩, id⟩

theorem MemoExt.trans {h : Host} {m m' m'' : List (Int × String)} (h₁ : MemoExt h m m')
    (h₂ : MemoExt h m' m'') : MemoExt h m m'' := by
  obtain ⟨a, rfl⟩ := h₁.ext
  obtain ⟨b, rfl⟩ := h₂.ext
  exact ⟨⟨a ++ b, by simp⟩, h₂.sound ∘ h₁.sound⟩

theorem MemoExt.lookup {h : Host} {m m' : List (Int × String)} (hm : MemoExt h m m') {pid : Int}
    {s : String} (hl : m.lookup pid = some s) : m'.lookup pid = some s := by
  obtain ⟨ext, rfl⟩ := hm.ext
  exact lookup_append_of_lookup ext hl

theorem MemoExt.memoOf {h : Host} {m m' : List (Int × String)} (hm : MemoExt h m m') {pid : Int}
    (hl : (m.lookup pid).isSome) : memoOf m' pid = memoOf m pid := by
  obtain ⟨s, hs⟩ := Option.isSome_iff_exists.mp hl
  simp [Cmds.Lshal.memoOf, hs, hm.lookup hs]

theorem MemoExt.isSome {h : Host} {m m' : List (Int × String)} (hm : MemoExt h m m') {pid : Int}
    (hl : (m.lookup pid).isSome) : (m'.lookup pid).isSome := by
  obtain ⟨s, hs⟩ := Option.isSome_iff_exists.mp hl
  simp [hm.lookup hs]

/-- `c'` holds the two memos of `c`, each with pairs of pids not in it yet appended. -/
def ListCommand.MemosGrow (h : Host) (c c' : ListCommand) : Prop :=
  MemoExt h c.mCmdlines c'.mCmdlines ∧ ∃ ext, c'.mPartitions = c.mPartitions ++ ext

theorem ListCommand.MemosGrow.refl (h : Host) (c : ListCommand) : c.MemosGrow h c :=
  ⟨.refl h _, [], (List.append_nil _).symm⟩

theorem ListCommand.MemosGrow.trans {h : Host} {c c' c'' : ListCommand} (h₁ : c.MemosGrow h c')
    (h₂ : c'.MemosGrow h c'') : c.MemosGrow h c'' := by
  obtain ⟨hm₁, p₁, hp₁⟩ := h₁
  obtain ⟨hm₂, p₂, hp₂⟩ := h₂
  exact ⟨hm₁.trans hm₂, p₁ ++ p₂, by rw [hp₂, hp₁, List.append_assoc]⟩

theorem ListCommand.MemosGrow.partition {h : Host} {c c' : ListCommand} (hm : c.MemosGrow h c')
    {pid : Int} {p : Partition} (hl : c.mPartitions.lookup pid = some p) :
    c'.mPartitions.lookup pid = some p := by
  obtain ⟨ext, hext⟩ := hm.2
  rw [hext]
  exact lookup_append_of_lookup ext hl

/-- `c'` is `c` with new pids memoised: all that a step of `postprocess` changes. -/
def ListCommand.Memoizes (h : Host) (c c' : ListCommand) : Prop :=
  c.MemosGrow h c' ∧
    ∃ cmdlines partitions, c' = { c with mCmdlines := cmdlines, mPartitions := partitions }

theorem ListCommand.Memoizes.refl (h : Host) (c : ListCommand) : c.Memoizes h c :=
  ⟨.refl h c, _, _, rfl⟩

theorem ListCommand.Memoizes.trans {h : Host} {c c' c'' : ListCommand} (h₁ : c.Memoizes h c')
    (h₂ : c'.Memoizes h c'') : c.Memoizes h c'' := by
  obtain ⟨hm₁, cm, p, rfl⟩ := h₁
  obtain ⟨hm₂, cm', p', rfl⟩ := h₂
  exact ⟨hm₁.trans hm₂, cm', p', rfl⟩

theorem getCmdline_of_lookup {h : Host} {c : ListCommand} {pid : Int} {s : String}
    (hl : c.mCmdlines.lookup pid = some s) : getCmdline h c pid = (s, c) := by
  simp [getCmdline, hl]

/-- A cmdline lookup memoises its pid with the host's answer, and its answer is the memoised
cmdline. -/
theorem getCmdline_spec (h : Host) (c : ListCommand) (pid : Int) :
    c.Memoizes h (getCmdline h c pid).2 ∧
      (getCmdline h c pid).2.mCmdlines.lookup pid = some (getCmdline h c pid).1 := by
  unfold getCmdline
  split
  · next hl => exact ⟨.refl h c, hl⟩
  · next hl =>
    refine ⟨⟨⟨⟨⟨_, rfl⟩, fun hs => hs.append hl⟩, [], (List.append_nil _).symm⟩, _, _, rfl⟩, ?_⟩
    simp [lookup_append_singleton, hl]

/-- A partition lookup memoises its pid, and its answer is the memoised partition. -/
theorem getPartition_spec (h : Host) (c : ListCommand) (pid : Int) :
    c.Memoizes h (getPartition h c pid).2 ∧
      (getPartition h c pid).2.mPartitions.lookup pid = some (getPartition h c pid).1 := by
  unfold getPartition
  split
  · next hl => exact ⟨.refl h c, hl⟩
  · next hl =>
    refine ⟨⟨⟨.refl h _, [_], rfl⟩, _, _, rfl⟩, ?_⟩
    simp [lookup_append_singleton, hl]

/-- `removeDeadProcesses` keeps, in order, the client pids that are not lshal's and whose
memoised cmdline is non-empty, and memoises every other pid it is given. -/
theorem removeDeadProcesses_spec (h : Host) (c : ListCommand) (pids : List Int) :
    c.Memoizes h (removeDeadProcesses h c pids).2 ∧
      (removeDeadProcesses h c pids).1 = pids.filter (fun pid =>
        pid ≠ h.getpid ∧ memoOf (removeDeadProcesses h c pids).2.mCmdlines pid ≠ "") ∧
      ∀ pid ∈ pids, pid ≠ h.getpid → ((removeDeadProcesses h c pids).2.mCmdlines.lookup pid).isSome := by
  induction pids generalizing c with
  | nil => exact ⟨.refl h c, rfl, by simp⟩
  | cons pid pids ih =>
    unfold removeDeadProcesses
    by_cases hp : pid = h.getpid
    · obtain ⟨hm, hk, hs⟩ := ih c
      rw [if_pos hp]
      exact ⟨hm, by simp [hk, hp], by simpa [hp] using hs⟩
    · obtain ⟨hm₁, hl₁⟩ := getCmdline_spec h c pid
      rcases hg : getCmdline h c pid with ⟨s, c₁⟩
      rw [hg] at hm₁ hl₁
      obtain ⟨hm₂, hk₂, hs₂⟩ := ih c₁
      have hmemo : memoOf (removeDeadProcesses h c₁ pids).2.mCmdlines pid = s := by
        simp [memoOf, hm₂.1.1.lookup hl₁]
      simp only [hp, ↓reduceIte]
      refine ⟨hm₁.trans hm₂, ?_, ?_⟩
      · rw [List.filter_cons, hmemo, ← hk₂]
        by_cases hs : s = "" <;> simp [hp, hs]
      · simp only [List.mem_cons, forall_eq_or_imp]
        exact ⟨fun _ => hm₂.1.1.isSome (by simp [hl₁]), hs₂⟩

/-- Pushing the cmdlines of memoised pids reads the memo and parses nothing. -/
theorem pushClientCmdlines_of_memoised (h : Host) (c : ListCommand) (pids : List Int)
    (hpids : ∀ pid ∈ pids, (c.mCmdlines.lookup pid).isSome) :
    pushClientCmdlines h c pids = (pids.map (memoOf c.mCmdlines), c) := by
  induction pids with
  | nil => rfl
  | cons pid pids ih =>
    obtain ⟨s, hs⟩ := Option.isSome_iff_exists.mp (hpids pid (List.mem_cons_self _ _))
    simp only [pushClientCmdlines, getCmdline_of_lookup hs, ih fun p hp => hpids p (List.mem_cons_of_mem _ hp),
      List.map_cons, memoOf, hs, Option.getD_some]

/-- `e` is `e₀` with at most the members `postprocess` writes changed: the server cmdline,
the client pids and cmdlines, the partition and the arch. -/
def PostprocessFrame (e₀ e : TableEntry) : Prop :=
  ∃ serverCmdline clientPids clientCmdlines partition arch, e = { e₀ with
    serverCmdline := serverCmdline, clientPids := clientPids, clientCmdlines := clientCmdlines,
    partition := partition, arch := arch }

theorem PostprocessFrame.refl (e : TableEntry) : PostprocessFrame e e :=
  ⟨_, _, _, _, _, rfl⟩

theorem PostprocessFrame.trans {e₀ e₁ e₂ : TableEntry} (h₁ : PostprocessFrame e₀ e₁)
    (h₂ : PostprocessFrame e₁ e₂) : PostprocessFrame e₀ e₂ := by
  obtain ⟨s, p, c, q, a, rfl⟩ := h₂
  obtain ⟨-, -, -, -, -, rfl⟩ := h₁
  exact ⟨s, p, c, q, a, rfl⟩

theorem PostprocessFrame.set {e₀ e : TableEntry} (hf : PostprocessFrame e₀ e)
    (partition : Partition) (arch : Arch) :
    PostprocessFrame e₀ { e with partition := partition, arch := arch } := by
  obtain ⟨s, p, c, -, -, rfl⟩ := hf
  exact ⟨s, p, c, partition, arch, rfl⟩

theorem PostprocessFrame.interfaceName_eq {e₀ e : TableEntry} (hf : PostprocessFrame e₀ e) :
    e.interfaceName = e₀.interfaceName := by
  obtain ⟨-, -, -, -, -, rfl⟩ := hf
  rfl

/-- What the first pass makes of a fetched entry `e₀`, read against a command `c` holding the
memos: the client pids that are not lshal's and whose memoised cmdline is non-empty, in order,
each with its cmdline pushed after those `e₀` had, every other client pid memoised, and the
memoised cmdline of the server. -/
structure Postprocessed (h : Host) (c : ListCommand) (e₀ e : TableEntry) : Prop where
  frame : PostprocessFrame e₀ e
  clientPids : e.clientPids = e₀.clientPids.filter (fun pid =>
    pid ≠ h.getpid ∧ memoOf c.mCmdlines pid ≠ "")
  clientCmdlines : e.clientCmdlines = e₀.clientCmdlines ++ e.clientPids.map (memoOf c.mCmdlines)
  memoised : ∀ pid ∈ e₀.clientPids, pid ≠ h.getpid → (c.mCmdlines.lookup pid).isSome
  serverCmdline : c.mCmdlines.lookup e.serverPid = some e.serverCmdline

/-- Later lookups never change what an entry was postprocessed against. -/
theorem Postprocessed.mono {h : Host} {c c' : ListCommand} {e₀ e : TableEntry}
    (hp : Postprocessed h c e₀ e) (hm : c.MemosGrow h c') : Postprocessed h c' e₀ e := by
  have heq : ∀ pid ∈ e₀.clientPids, pid ≠ h.getpid → memoOf c'.mCmdlines pid = memoOf c.mCmdlines pid :=
    fun pid hpid hne => hm.1.memoOf (hp.memoised pid hpid hne)
  refine ⟨hp.frame, hp.clientPids.trans (List.filter_congr fun pid hpid => ?_), ?_,
    fun pid hpid hne => hm.1.isSome (hp.memoised pid hpid hne), hm.1.lookup hp.serverCmdline⟩
  · by_cases hne : pid = h.getpid <;> simp [hne, heq pid hpid]
  · rw [hp.clientCmdlines]
    congr 1
    refine List.map_congr_left fun pid hpid => ?_
    rw [hp.clientPids, List.mem_filter] at hpid
    exact (heq pid hpid.1 (by simpa using hpid.2 : pid ≠ h.getpid ∧ _).1).symm

/-- The second pass and the cross-table loop write only the partition and the arch. -/
theorem Postprocessed.set {h : Host} {c : ListCommand} {e₀ e : TableEntry}
    (hp : Postprocessed h c e₀ e) (partition : Partition) (arch : Arch) :
    Postprocessed h c e₀ { e with partition := partition, arch := arch } :=
  ⟨hp.frame.set partition arch, hp.clientPids, hp.clientCmdlines, hp.memoised, hp.serverCmdline⟩

/-- Every client pid an entry keeps has a non-empty memoised cmdline. -/
theorem Postprocessed.memoOf_ne_empty {h : Host} {c : ListCommand} {e₀ e : TableEntry}
    (hp : Postprocessed h c e₀ e) : ∀ pid ∈ e.clientPids, memoOf c.mCmdlines pid ≠ "" := by
  intro pid hpid
  rw [hp.clientPids] at hpid
  exact (by simpa using (List.mem_filter.mp hpid).2 : _ ∧ _).2

theorem postprocessEntry_spec (h : Host) (c : ListCommand) (e : TableEntry) :
    c.Memoizes h (postprocessEntry h c e).2 ∧
      Postprocessed h (postprocessEntry h c e).2 e (postprocessEntry h c e).1 := by
  obtain ⟨hm₁, hl₁⟩ := getCmdline_spec h c e.serverPid
  rcases hg : getCmdline h c e.serverPid with ⟨s, c₁⟩
  rw [hg] at hm₁ hl₁
  obtain ⟨hm₂, hk, hs⟩ := removeDeadProcesses_spec h c₁ e.clientPids
  rcases hr : removeDeadProcesses h c₁ e.clientPids with ⟨kept, c₂⟩
  rw [hr] at hm₂ hk hs
  dsimp only at hm₂ hk hs
  have hpush := pushClientCmdlines_of_memoised h c₂ kept fun pid hpid => by
    rw [hk] at hpid
    obtain ⟨hmem, hne⟩ := List.mem_filter.mp hpid
    exact hs pid hmem (by simpa using hne : _ ∧ _).1
  simp only [postprocessEntry, hg, hr, hpush]
  exact ⟨hm₁.trans hm₂, ⟨_, _, _, e.partition, e.arch, rfl⟩, hk, rfl, hs, hm₂.1.1.lookup hl₁⟩

theorem partitionEntry_spec (h : Host) (c : ListCommand) (e : TableEntry) :
    c.Memoizes h (partitionEntry h c e).2 ∧ ∃ p, (partitionEntry h c e).1 = { e with partition := p } ∧
      (partitionEntry h c e).2.mPartitions.lookup e.serverPid = some p :=
  ⟨(getPartition_spec h c e.serverPid).1, _, rfl, (getPartition_spec h c e.serverPid).2⟩

theorem exists_mem_of_forall₂ {α β : Type} {R : α → β → Prop} {l₁ : List α} {l₂ : List β}
    (h : List.Forall₂ R l₁ l₂) {b : β} (hb : b ∈ l₂) : ∃ a ∈ l₁, R a b := by
  induction h with
  | nil => simp at hb
  | cons hab _ ih =>
    rcases List.mem_cons.mp hb with rfl | hb
    · exact ⟨_, List.mem_cons_self _ _, hab⟩
    · obtain ⟨a, ha, hr⟩ := ih hb
      exact ⟨a, List.mem_cons_of_mem _ ha, hr⟩

/-- A loop whose every step memoises and relates each new entry to its old one, by a relation
that later lookups keep, relates its result to its input entry by entry. -/
theorem forEntries_spec (h : Host) {body : ListCommand → TableEntry → TableEntry × ListCommand}
    {R : ListCommand → TableEntry → TableEntry → Prop}
    (hmono : ∀ c c' e₀ e, R c e₀ e → c.MemosGrow h c' → R c' e₀ e)
    (hbody : ∀ c e, c.Memoizes h (body c e).2 ∧ R (body c e).2 e (body c e).1)
    (c : ListCommand) (table : List TableEntry) :
    c.Memoizes h (forEntries body c table).2 ∧
      List.Forall₂ (R (forEntries body c table).2) table (forEntries body c table).1 := by
  induction table generalizing c with
  | nil => exact ⟨.refl h c, .nil⟩
  | cons e rest ih =>
    obtain ⟨hm₁, hr₁⟩ := hbody c e
    rcases hb : body c e with ⟨e₁, c₁⟩
    rw [hb] at hm₁ hr₁
    obtain ⟨hm₂, hr₂⟩ := ih c₁
    simp only [forEntries, hb]
    exact ⟨hm₁.trans hm₂, .cons (hmono _ _ _ _ hr₁ hm₂.1) hr₂⟩

theorem sortTable_perm (c : ListCommand) (table : List TableEntry) :
    (sortTable c table).Perm table := by
  unfold sortTable
  split
  · exact List.mergeSort_perm _ _
  · exact .refl _

theorem forall₂_comp {α β γ : Type} {R : α → β → Prop} {S : β → γ → Prop} {T : α → γ → Prop}
    (hc : ∀ a b c, R a b → S b c → T a c) {la : List α} {lb : List β} {lc : List γ}
    (h₁ : List.Forall₂ R la lb) (h₂ : List.Forall₂ S lb lc) : List.Forall₂ T la lc := by
  induction h₁ generalizing lc with
  | nil => cases h₂; exact .nil
  | cons hab _ ih =>
    cases h₂ with
    | cons hbc h => exact .cons (hc _ _ _ hab hbc) (ih h)

/-- `t'` is `t` with each entry related by `R` to its own entry of `t`, then reordered. -/
def TableRel (R : TableEntry → TableEntry → Prop) (t t' : List TableEntry) : Prop :=
  ∃ l, List.Forall₂ R t l ∧ l.Perm t'

section TableRel

variable {R S T : TableEntry → TableEntry → Prop} {t t' t'' : List TableEntry}

theorem TableRel.of_perm (hr : ∀ e, R e e) (h : t.Perm t') : TableRel R t t' :=
  ⟨t, List.forall₂_same.mpr fun e _ => hr e, h⟩

theorem TableRel.of_forall₂ (h : List.Forall₂ R t t') : TableRel R t t' :=
  ⟨t', h, .refl t'⟩

/-- A relation then a reordering, twice, is one relation then one reordering: a reordering can
be moved past the relation that follows it. -/
theorem TableRel.comp (hc : ∀ a b c, R a b → S b c → T a c) (h₁ : TableRel R t t')
    (h₂ : TableRel S t' t'') : TableRel T t t'' := by
  obtain ⟨l₁, hf₁, hp₁⟩ := h₁
  obtain ⟨l₂, hf₂, hp₂⟩ := h₂
  obtain ⟨l, hf, hp⟩ := List.perm_comp_forall₂ hp₁ hf₂
  exact ⟨l, forall₂_comp hc hf₁ hf, hp.trans hp₂⟩

theorem TableRel.imp (H : ∀ a b, R a b → S a b) (h : TableRel R t t') : TableRel S t t' :=
  let ⟨l, hf, hp⟩ := h
  ⟨l, hf.imp H, hp⟩

/-- Every entry of the result comes from an entry of the table. -/
theorem TableRel.exists_mem (h : TableRel R t t') {e : TableEntry} (he : e ∈ t') :
    ∃ e₀ ∈ t, R e₀ e := by
  obtain ⟨l, hf, hp⟩ := h
  exact exists_mem_of_forall₂ hf (hp.symm.subset he)

/-- Under a relation that keeps names, the result lists the names of the table, reordered. -/
theorem TableRel.names_perm (hname : ∀ a b, R a b → b.interfaceName = a.interfaceName)
    (h : TableRel R t t') :
    (t'.map TableEntry.interfaceName).Perm (t.map TableEntry.interfaceName) := by
  obtain ⟨l, hf, hp⟩ := h
  have hnames : l.map TableEntry.interfaceName = t.map TableEntry.interfaceName := by
    clear hp
    induction hf with
    | nil => rfl
    | cons hab _ ih => simp only [List.map_cons, hname _ _ hab, ih]
  exact hnames ▸ (hp.map _).symm

end TableRel

/-- The passes over one table memoise, and leave each entry of the sorted table postprocessed
with the memoised partition of its server. -/
theorem postprocessTable_spec (h : Host) (c : ListCommand) (table : List TableEntry) :
    c.Memoizes h (postprocessTable h c table).2 ∧
      TableRel (fun e₀ e => Postprocessed h (postprocessTable h c table).2 e₀ e ∧
          (postprocessTable h c table).2.mPartitions.lookup e.serverPid = some e.partition)
        table (postprocessTable h c table).1 := by
  obtain ⟨hm₁, hr₁⟩ := forEntries_spec h (R := Postprocessed h) (fun _ _ _ _ hp hm => hp.mono hm)
    (postprocessEntry_spec h) c (sortTable c table)
  rcases hf : forEntries (postprocessEntry h) c (sortTable c table) with ⟨table₁, c₁⟩
  rw [hf] at hm₁ hr₁
  obtain ⟨hm₂, hr₂⟩ := forEntries_spec h
    (R := fun c e₀ e => ∃ p, e = { e₀ with partition := p } ∧ c.mPartitions.lookup e₀.serverPid = some p)
    (fun _ _ _ _ ⟨p, he, hl⟩ hm => ⟨p, he, hm.partition hl⟩) (partitionEntry_spec h) c₁ table₁
  simp only [postprocessTable, hf]
  have hsorted : TableRel (Postprocessed h (forEntries (partitionEntry h) c₁ table₁).2) table table₁ :=
    (TableRel.of_perm (R := (· = ·)) (fun _ => rfl) (sortTable_perm c table).symm).comp
      (fun _ _ _ h₁ h₂ => by subst h₁; exact h₂) (.of_forall₂ (hr₁.imp fun _ _ hp => hp.mono hm₂.1))
  refine ⟨hm₁.trans hm₂, hsorted.comp ?_ (.of_forall₂ hr₂)⟩
  rintro e₀ e₁ _ hp ⟨p, rfl, hl⟩
  exact ⟨hp.set p e₁.arch, hl⟩

/-- Whether a library entry's `package@version` and a client's, read from its name
`interfaceName`, both parse and are equal. -/
def libraryMatches (h : Host) (interfaceName : String) (packageEntry : TableEntry) : Bool :=
  match packageOf h packageEntry, h.parseFQName (splitFirst interfaceName '/').1 with
  | some fqPackageName, some fqInterfaceName => fqInterfaceName.getPackageAndVersion = fqPackageName
  | _, _ => false

/-- The arch of the first library entry, in table order, that matches the client name and has
an arch; `ARCH_EMPTY` when there is none. -/
def firstLibraryArch (h : Host) (implementations : List TableEntry) (interfaceName : String) :
    Arch :=
  ((implementations.find? fun p => libraryMatches h interfaceName p && p.arch != .archEmpty).map
    TableEntry.arch).getD .archEmpty

/-- The double loop with its loops exchanged: one client against every library entry. -/
def crossStep (h : Host) (interfaceEntry packageEntry : TableEntry) : TableEntry :=
  match packageOf h packageEntry with
  | none => interfaceEntry
  | some fqPackageName => crossEntry h fqPackageName packageEntry.arch interfaceEntry

/-- The clients are independent of one another: the double loop is a map over them. -/
theorem crossTable_eq_map (h : Host) (implementations refs : List TableEntry) :
    crossTable h implementations refs = refs.map fun e => implementations.foldl (crossStep h) e := by
  induction implementations generalizing refs with
  | nil => simp [crossTable]
  | cons packageEntry rest ih =>
    have hstep : (match packageOf h packageEntry with
        | none => refs
        | some fqPackageName => refs.map (crossEntry h fqPackageName packageEntry.arch)) =
        refs.map fun e => crossStep h e packageEntry := by
      unfold crossStep
      split <;> simp
    simp only [crossTable, List.foldl_cons] at ih ⊢
    rw [hstep, ih, List.map_map]
    rfl

theorem crossStep_of_arch_ne {h : Host} {e : TableEntry} (packageEntry : TableEntry)
    (he : e.arch ≠ .archEmpty) : crossStep h e packageEntry = e := by
  unfold crossStep crossEntry
  split <;> simp [he]

theorem crossStep_of_archEmpty {h : Host} {e : TableEntry} (packageEntry : TableEntry)
    (he : e.arch = .archEmpty) : crossStep h e packageEntry =
      if libraryMatches h e.interfaceName packageEntry then { e with arch := packageEntry.arch } else e := by
  unfold crossStep
  cases hp : packageOf h packageEntry with
  | none => simp [libraryMatches, hp]
  | some fq =>
    unfold crossEntry
    cases hi : h.parseFQName (splitFirst e.interfaceName '/').1 with
    | none => simp [libraryMatches, hp, hi, he]
    | some fi =>
      by_cases heq : fi.getPackageAndVersion = fq <;> simp [libraryMatches, hp, hi, he, heq]

/-- One client through the loop over the library table: it keeps an arch it has, and an
`ARCH_EMPTY` one takes the first matching library arch. -/
theorem foldl_crossStep (h : Host) (implementations : List TableEntry) (e : TableEntry) :
    implementations.foldl (crossStep h) e =
      { e with arch := if e.arch = .archEmpty then firstLibraryArch h implementations e.interfaceName
        else e.arch } := by
  induction implementations generalizing e with
  | nil =>
    split_ifs with he
    · rw [firstLibraryArch, List.find?_nil, Option.map_none', Option.getD_none, ← he]
      rfl
    · rfl
  | cons packageEntry rest ih =>
    rw [List.foldl_cons, ih]
    by_cases he : e.arch = .archEmpty
    · rw [crossStep_of_archEmpty packageEntry he]
      by_cases hm : libraryMatches h e.interfaceName packageEntry
      · by_cases ha : packageEntry.arch = .archEmpty
        · have hb : (packageEntry.arch != .archEmpty) = false := by simp [ha]
          simp [hm, ha, he, hb, firstLibraryArch]
        · have hb : (packageEntry.arch != .archEmpty) = true := bne_iff_ne.mpr ha
          simp [hm, ha, hb, he, firstLibraryArch]
      · simp [hm, he, firstLibraryArch]
    · rw [crossStep_of_arch_ne packageEntry he]
      simp [he]

/-- The cross-table loop gives every client of `ARCH_EMPTY` the arch of the first library
entry, in the library table's order, of its `package@version` that has an arch, and leaves
every other client alone. -/
theorem crossTable_arch (h : Host) (implementations refs : List TableEntry) :
    crossTable h implementations refs = refs.map fun e =>
      { e with arch := if e.arch = .archEmpty then firstLibraryArch h implementations e.interfaceName
        else e.arch } := by
  rw [crossTable_eq_map]
  exact List.map_congr_left fun e _ => foldl_crossStep h implementations e

/-- A host whose `FQName::parse` knows the names of one package, `a.b@1.0`. -/
def packageHost : Host :=
  { Host.bare with
    parseFQName := fun s =>
      if s = "a.b@1.0" then some ⟨"a.b", some (1, 0), ""⟩
      else if s = "a.b@1.0::IFoo" then some ⟨"a.b", some (1, 0), "IFoo"⟩
      else none }

/-- A library entry of package `a.b@1.0`. -/
def libraryOf (name : String) (arch : Arch) : TableEntry :=
  { packageHost.emptyEntry with interfaceName := name, transport := .passthrough, arch := arch }

/-- Two libraries of `a.b@1.0`, one 32-bit and one 64-bit: the client takes the arch of the one
listed first, and neither order gives the OR of the two. -/
theorem crossTable_arch_depends_on_order :
    (crossTable packageHost [libraryOf "a.b@1.0::IFoo/default" .arch32,
        libraryOf "a.b@1.0::IBar/default" .arch64]
        [libraryOf "a.b@1.0::IFoo/default" .archEmpty]).map TableEntry.arch = [.arch32] ∧
      (crossTable packageHost [libraryOf "a.b@1.0::IBar/default" .arch64,
        libraryOf "a.b@1.0::IFoo/default" .arch32]
        [libraryOf "a.b@1.0::IFoo/default" .archEmpty]).map TableEntry.arch = [.arch64] ∧
      Arch.arch32 ||| .arch64 = .arch32_64 := by
  refine ⟨?_, ?_, rfl⟩ <;> decide

/-- The double loop at the end of `postprocess`, on a command with any three tables. -/
def crossTables (h : Host) (c : ListCommand) : ListCommand :=
  { c with mPassthroughRefTable := crossTable h c.mImplementationsTable c.mPassthroughRefTable }

theorem postprocess_eq_crossTables (h : Host) (c : ListCommand) :
    postprocess h c = crossTables h (forEachTable (postprocessTable h) c) := rfl

/-- `firstLibraryArch` is `ARCH_EMPTY` or the arch of a matching library entry. -/
theorem firstLibraryArch_cases (h : Host) (implementations : List TableEntry)
    (interfaceName : String) :
    firstLibraryArch h implementations interfaceName = .archEmpty ∨
      ∃ lib ∈ implementations, libraryMatches h interfaceName lib = true ∧
        firstLibraryArch h implementations interfaceName = lib.arch := by
  unfold firstLibraryArch
  cases hf : implementations.find?
      (fun p => libraryMatches h interfaceName p && p.arch != .archEmpty) with
  | none => exact .inl rfl
  | some lib =>
    have hp := List.find?_some hf
    simp only [Bool.and_eq_true] at hp
    exact .inr ⟨lib, List.mem_of_find?_eq_some hf, hp.1, rfl⟩

/-- Whatever the three tables hold, the cross-table loop leaves the services and library tables
as they are, and each passthrough client either as it is or, when its arch is `ARCH_EMPTY`,
with the arch of a library entry whose parsed `package@version` is the client's. -/
theorem crossTables_arch_widens (h : Host) (c : ListCommand) :
    (crossTables h c).mServicesTable = c.mServicesTable ∧
      (crossTables h c).mImplementationsTable = c.mImplementationsTable ∧
      List.Forall₂ (fun e₀ e => e = e₀ ∨ e₀.arch = .archEmpty ∧ ∃ lib ∈ c.mImplementationsTable,
          libraryMatches h e₀.interfaceName lib = true ∧ e = { e₀ with arch := lib.arch })
        c.mPassthroughRefTable (crossTables h c).mPassthroughRefTable := by
  refine ⟨rfl, rfl, ?_⟩
  simp only [crossTables, crossTable_eq_map, List.forall₂_map_right_iff, foldl_crossStep]
  refine List.forall₂_same.mpr fun e _ => ?_
  split_ifs with he
  · rcases firstLibraryArch_cases h c.mImplementationsTable e.interfaceName with
      hf | ⟨lib, hlib, hm, hf⟩
    · exact .inl (by rw [hf, ← he])
    · exact .inr ⟨he, lib, hlib, hm, by rw [hf]⟩
  · exact .inl rfl

/-- The cross-table loop changes only the arch of each client, in place. -/
theorem crossTable_forall₂ (h : Host) (implementations refs : List TableEntry) :
    List.Forall₂ (fun e₀ e => ∃ arch, e = { e₀ with arch := arch }) refs
      (crossTable h implementations refs) := by
  rw [crossTable_eq_map, List.forall₂_map_right_iff]
  exact List.forall₂_same.mpr fun e _ => by rw [foldl_crossStep]; exact ⟨_, rfl⟩

theorem ListCommand.memosGrow_setTable (h : Host) (c : ListCommand) (type : HalType)
    (table : List TableEntry) : c.MemosGrow h (c.setTable type table) := by
  cases type <;> exact .refl h c

section ForEachTable

variable {h : Host} {f : ListCommand → List TableEntry → List TableEntry × ListCommand}
  {R : ListCommand → TableEntry → TableEntry → Prop}
  (hmono : ∀ c c' e₀ e, R c e₀ e → c.MemosGrow h c' → R c' e₀ e)
  (hf : ∀ c table, c.Memoizes h (f c table).2 ∧ TableRel (R (f c table).2) table (f c table).1)

include hmono hf in
theorem forTable_spec (c : ListCommand) (type : HalType) :
    c.MemosGrow h (forTable f c type) ∧
      (forTable f c type).mListTypes = c.mListTypes ∧
      TableRel (R (forTable f c type)) (c.table type) ((forTable f c type).table type) ∧
      ∀ type', type' ≠ type → (forTable f c type).table type' = c.table type' := by
  obtain ⟨⟨hm, cm, p, hc⟩, hr⟩ := hf c (c.table type)
  rcases hft : f c (c.table type) with ⟨table, c'⟩
  rw [hft] at hm hc hr
  subst hc
  have hset := ListCommand.memosGrow_setTable h { c with mCmdlines := cm, mPartitions := p } type table
  simp only [forTable, hft]
  refine ⟨hm.trans hset, by cases type <;> rfl, ?_, fun type' hne => ?_⟩
  · rw [ListCommand.table_setTable_self]
    exact hr.imp fun _ _ hr => hmono _ _ _ _ hr hset
  · rw [ListCommand.table_setTable_of_ne _ _ hne]
    cases type' <;> rfl

include hmono hf in
/-- Over a duplicate-free list of types, each visited table ends related entry by entry, then
reordered, to the table it started as, and the other tables are left alone. -/
theorem foldl_forTable_spec (types : List HalType) (hn : types.Nodup) (c : ListCommand) :
    c.MemosGrow h (types.foldl (forTable f) c) ∧
      (types.foldl (forTable f) c).mListTypes = c.mListTypes ∧
      ∀ type, (type ∈ types →
          TableRel (R (types.foldl (forTable f) c)) (c.table type) ((types.foldl (forTable f) c).table type)) ∧
        (type ∉ types → (types.foldl (forTable f) c).table type = c.table type) := by
  induction types generalizing c with
  | nil => exact ⟨.refl h c, rfl, fun _ => ⟨by simp, fun _ => rfl⟩⟩
  | cons type rest ih =>
    obtain ⟨hfresh, hn⟩ := List.nodup_cons.mp hn
    obtain ⟨hm₁, hl₁, hr₁, ho₁⟩ := forTable_spec hmono hf c type
    obtain ⟨hm₂, hl₂, ht₂⟩ := ih hn (forTable f c type)
    rw [List.foldl_cons]
    refine ⟨hm₁.trans hm₂, hl₂.trans hl₁, fun type' => ⟨fun hmem => ?_, fun hmem => ?_⟩⟩
    · by_cases ht : type' = type
      · subst ht
        rw [(ht₂ type').2 hfresh]
        exact hr₁.imp fun _ _ hr => hmono _ _ _ _ hr hm₂
      · rw [← ho₁ type' ht]
        exact (ht₂ type').1 ((List.mem_cons.mp hmem).resolve_left ht)
    · have ⟨hne, hrest⟩ := not_or.mp (List.mem_cons.not.mp hmem)
      rw [(ht₂ type').2 hrest, ho₁ type' hne]

end ForEachTable

/-- `forEachTable` over any list of types, repeated or not, leaves each table a frame change
and a reordering of what it was. -/
theorem foldl_forTable_tableFrame (h : Host) (types : List HalType) (c : ListCommand)
    (type : HalType) :
    TableRel PostprocessFrame (c.table type)
      ((types.foldl (forTable (postprocessTable h)) c).table type) := by
  induction types generalizing c with
  | nil => exact .of_perm PostprocessFrame.refl (.refl _)
  | cons t rest ih =>
    rw [List.foldl_cons]
    refine TableRel.comp (R := PostprocessFrame) (S := PostprocessFrame)
      (fun _ _ _ h₁ h₂ => h₁.trans h₂) ?_ (ih _)
    obtain ⟨-, -, hr, ho⟩ := forTable_spec (R := fun _ => PostprocessFrame) (fun _ _ _ _ hp _ => hp)
      (fun c t => ⟨(postprocessTable_spec h c t).1,
        (postprocessTable_spec h c t).2.imp fun _ _ hp => hp.1.frame⟩) c t
    by_cases ht : type = t
    · subst ht
      exact hr
    · rw [ho type ht]
      exact .of_perm PostprocessFrame.refl (.refl _)

/-- The cross-table loop keeps every relation to the fetched entries that a change of arch
keeps. -/
theorem tableRel_postprocess {R : TableEntry → TableEntry → Prop}
    (hset : ∀ e₀ e arch, R e₀ e → R e₀ { e with arch := arch }) (h : Host) (c : ListCommand)
    (type : HalType) (hr : TableRel R (c.table type) ((forEachTable (postprocessTable h) c).table type)) :
    TableRel R (c.table type) ((postprocess h c).table type) := by
  cases type with
  | passthroughClients =>
    refine hr.comp ?_ (.of_forall₂ (crossTable_forall₂ h _ _))
    rintro _ e _ hr ⟨a, rfl⟩
    exact hset _ _ a hr
  | binderizedServices => exact hr
  | passthroughLibraries => exact hr

/-- `postprocess` neither drops, duplicates nor invents an entry: whatever the command holds,
each of its tables ends as the table it started as, each entry changed only in the members
`postprocess` writes (the server cmdline, the client pids and cmdlines, the partition and the
arch), then reordered. -/
theorem postprocess_table_perm (h : Host) (c : ListCommand) (type : HalType) :
    ∃ l, List.Forall₂ PostprocessFrame (c.table type) l ∧ l.Perm ((postprocess h c).table type) :=
  tableRel_postprocess (fun _ e a hf => hf.set e.partition a) h c type
    (foldl_forTable_tableFrame h c.mListTypes c type)

/-- `postprocess` only memoises, and, when the tables of unlisted types are empty, leaves each
table as its own entries postprocessed, each with the memoised partition of its server, then
reordered. -/
theorem postprocess_spec (h : Host) (c : ListCommand) (hn : c.mListTypes.Nodup)
    (hempty : ∀ type ∉ c.mListTypes, c.table type = []) :
    MemoExt h c.mCmdlines (postprocess h c).mCmdlines ∧
      ∀ type, TableRel (fun e₀ e => Postprocessed h (postprocess h c) e₀ e ∧
          (postprocess h c).mPartitions.lookup e.serverPid = some e.partition)
        (c.table type) ((postprocess h c).table type) := by
  obtain ⟨hm, -, ht⟩ := foldl_forTable_spec
    (R := fun c e₀ e => Postprocessed h c e₀ e ∧ c.mPartitions.lookup e.serverPid = some e.partition)
    (fun _ _ _ _ hp hm => ⟨hp.1.mono hm, hm.partition hp.2⟩) (postprocessTable_spec h) c.mListTypes hn c
  have hsame : (forEachTable (postprocessTable h) c).MemosGrow h (postprocess h c) := .refl h _
  refine ⟨hm.1, fun type =>
    tableRel_postprocess (fun _ e a ⟨hp, hl⟩ => ⟨hp.set e.partition a, hl⟩) h c type ?_⟩
  by_cases hmem : type ∈ c.mListTypes
  · exact ((ht type).1 hmem).imp fun _ _ hp => ⟨hp.1.mono hsame, hsame.partition hp.2⟩
  · rw [forEachTable, (ht type).2 hmem, hempty type hmem]
    exact ⟨[], .nil, .nil⟩

/-- After `parseArgs` on a fresh command and the fetch phase, the listed types have no
duplicate, the tables of the others are empty, no entry has a client cmdline yet, and no
cmdline is memoised. -/
theorem fetch_parseArgs_fresh (h : Host) (bManager pManager : Option Manager)
    (opts : List ListOption) (nonOptions : List String) :
    let fetched := (fetch h bManager pManager (parseArgs h opts nonOptions ListCommand.init).2).2
    fetched.mListTypes.Nodup ∧ (∀ type ∉ fetched.mListTypes, fetched.table type = []) ∧
      (∀ type, ∀ e ∈ fetched.table type, e.clientCmdlines = []) ∧ fetched.mCmdlines = [] := by
  intro fetched
  obtain ⟨hl, hm, hadd⟩ := fetch_adds h bManager pManager (parseArgs h opts nonOptions ListCommand.init).2
  refine ⟨hl ▸ parseArgs_listTypes_nodup h opts nonOptions _, fun type hu => ?_, fun type e he => ?_,
    hm.trans (parseArgs_init_cmdlines h opts nonOptions)⟩
  · obtain ⟨added, ht, hadded, -⟩ := hadd type
    rw [ht, hadded (hl ▸ hu), List.append_nil, parseArgs_init_table]
  · obtain ⟨added, ht, -, hadded⟩ := hadd type
    rw [ht, parseArgs_init_table, List.nil_append] at he
    exact hadded e he

/-- What a run of `lshal list` hands to `postprocess` ends with a sound cmdline memo, and with
each table its own fetched entries, none with a client cmdline before, postprocessed with the
memoised partition of their server, then reordered. -/
theorem postprocess_fetched (h : Host) (bManager pManager : Option Manager)
    (opts : List ListOption) (nonOptions : List String) :
    let fetched := (fetch h bManager pManager (parseArgs h opts nonOptions ListCommand.init).2).2
    MemoSound h (postprocess h fetched).mCmdlines ∧
      ∀ type, TableRel (fun e₀ e => e₀.clientCmdlines = [] ∧
          Postprocessed h (postprocess h fetched) e₀ e ∧
          (postprocess h fetched).mPartitions.lookup e.serverPid = some e.partition)
        (fetched.table type) ((postprocess h fetched).table type) := by
  intro fetched
  obtain ⟨hn, hempty, hnil, hmemo⟩ := fetch_parseArgs_fresh h bManager pManager opts nonOptions
  obtain ⟨hm, hrel⟩ := postprocess_spec h fetched hn hempty
  refine ⟨hm.sound (hmemo ▸ MemoSound.nil h), fun type => ?_⟩
  obtain ⟨l, hf, hp⟩ := hrel type
  exact ⟨l, (List.forall₂_and_left _ _).mpr ⟨hnil type, hf⟩, hp⟩

/-- Take the command line `lshal list` runs with, any answers of the two managers and of the
host, and the tables fetched from them. After `postprocess`, the cmdline memo holds each pid at
most once, with the host's answer at the call that parsed it; and each entry of each table is
its own fetched entry with only the members `postprocess` writes changed, keeping the fetched
client pids that are not lshal's and whose memoised cmdline is non-empty, in order, with exactly
their cmdlines, all non-empty, every other client pid having been looked up. -/
theorem postprocess_clientPids (h : Host) (bManager pManager : Option Manager)
    (opts : List ListOption) (nonOptions : List String) :
    let fetched := (fetch h bManager pManager (parseArgs h opts nonOptions ListCommand.init).2).2
    let memo := (postprocess h fetched).mCmdlines
    (memo.map Prod.fst).Nodup ∧ memo = cmdlineAnswers h (memo.map Prod.fst) ∧
      ∀ type, ∃ l, List.Forall₂ (fun e₀ e => PostprocessFrame e₀ e ∧
          e.clientPids = e₀.clientPids.filter (fun pid => pid ≠ h.getpid ∧ memoOf memo pid ≠ "") ∧
          e.clientCmdlines = e.clientPids.map (memoOf memo) ∧ (∀ s ∈ e.clientCmdlines, s ≠ "") ∧
          ∀ pid ∈ e₀.clientPids, pid ≠ h.getpid → pid ∈ memo.map Prod.fst)
        (fetched.table type) l ∧ l.Perm ((postprocess h fetched).table type) := by
  intro fetched memo
  obtain ⟨hsound, hrel⟩ := postprocess_fetched h bManager pManager opts nonOptions
  refine ⟨hsound.1, hsound.2, fun type => ?_⟩
  obtain ⟨l, hf, hp⟩ := hrel type
  refine ⟨l, hf.imp ?_, hp⟩
  rintro e₀ e ⟨hnil, hpp, -⟩
  have hcmds : e.clientCmdlines = e.clientPids.map (memoOf memo) := by
    rw [hpp.clientCmdlines, hnil, List.nil_append]
  refine ⟨hpp.frame, hpp.clientPids, hcmds, fun s hs => ?_, fun pid hpid hne =>
    mem_keys_of_lookup_isSome (hpp.memoised pid hpid hne)⟩
  obtain ⟨pid, hpid, rfl⟩ := List.mem_map.mp (hcmds ▸ hs)
  exact hpp.memoOf_ne_empty pid hpid

end Cmds.Lshal
