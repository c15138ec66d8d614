import Cmds.Lshal.PidCache
import Cmds.Lshal.Postprocess
import Cmds.Lshal.Vintf

/-!
# `main`: one run of `lshal list`

`main` parses the command line, fetches the three tables, postprocesses and dumps them; a
rejected command line ends the run before anything is fetched. Over every run the thread
counters stay faithful, names are listed at most once, and a pid shows one cmdline everywhere.
-/

namespace Cmds.Lshal

variable {σ : Type}

/-- What `dump` writes to its stream: the manifest `dumpVintf` builds, or the rows of each text
table `dumpTable` renders, whose layout is not modelled. -/
inductive Output (σ : Type) where
  | vintf : VintfDump σ → Output σ
  | tables : List (List TableEntry) → Output σ

/-- The rows of the text tables of `dumpTable`: with `--neat` one `MergedTable` of the three
tables in turn, otherwise one table for each listed type, in the order of `forEachTable`. -/
def dumpTable (c : ListCommand) : List (List TableEntry) :=
  if c.mNeat then [c.mServicesTable ++ c.mPassthroughRefTable ++ c.mImplementationsTable]
  else c.mListTypes.map c.table

/-- The dump `mVintf` selects, run on an open stream: the command with the warnings it writes
to `err()`, and what it writes to the stream. -/
def dumpSelected (h : Host) (vintf : Vintf σ) (c : ListCommand) : ListCommand × Output σ :=
  if c.mVintf then
    let d := dumpVintf h vintf c
    ({ c with err := c.err ++ d.err }, .vintf d)
  else (c, .tables (dumpTable c))

/-- `ListCommand::dump`; `opens` says whether `std::ofstream` opens a path, and nothing is
written when it does not. -/
def dump (h : Host) (vintf : Vintf σ) (opens : String → Bool) (c : ListCommand) :
    Status × ListCommand × Option (Output σ) :=
  if c.mFileOutputPath = "" then
    let (c, output) := dumpSelected h vintf c
    (∅, c, some output)
  else if !opens c.mFileOutputPath then
    ({.ioError}, { c with err := c.err ++ "Could not open file '" ++ c.mFileOutputPath ++ "'.\n" },
      none)
  else
    let (c, output) := dumpSelected h vintf c
    (∅, c, some output)

/-- `ListCommand::main`, on the options `getopt_long` parsed and the arguments it left. -/
def main (h : Host) (bManager pManager : Option Manager) (vintf : Vintf σ) (opens : String → Bool)
    (opts : List ListOption) (nonOptions : List String) (c : ListCommand) :
    Status × ListCommand × Option (Output σ) :=
  let (status, c) := parseArgs h opts nonOptions c
  if status ≠ ∅ then (status, c, none) else
  let (status, c) := fetch h bManager pManager c
  let (s, c, output) := dump h vintf opens (postprocess h c)
  (status ∪ s, c, output)

theorem dumpSelected_frame (h : Host) (vintf : Vintf σ) (c : ListCommand) :
    ∃ err, (dumpSelected h vintf c).1 = { c with err := err } := by
  unfold dumpSelected
  split <;> exact ⟨_, rfl⟩

/-- `dump` writes to `err()` only. -/
theorem dump_frame (h : Host) (vintf : Vintf σ) (opens : String → Bool) (c : ListCommand) :
    ∃ err, (dump h vintf opens c).2.1 = { c with err := err } := by
  unfold dump
  split
  · exact dumpSelected_frame h vintf c
  · split
    · exact ⟨_, rfl⟩
    · exact dumpSelected_frame h vintf c

/-- An accepted command line: the run ends with the tables and memos `postprocess` leaves
after `fetch`, only more text written to `err()`. -/
theorem main_command (h : Host) (bManager pManager : Option Manager) (vintf : Vintf σ)
    (opens : String → Bool) (opts : List ListOption) (nonOptions : List String) (c : ListCommand)
    (hok : (parseArgs h opts nonOptions c).1 = ∅) :
    ∃ err, (main h bManager pManager vintf opens opts nonOptions c).2.1 =
      { postprocess h (fetch h bManager pManager (parseArgs h opts nonOptions c).2).2 with
        err := err } := by
  unfold main
  rcases hp : parseArgs h opts nonOptions c with ⟨status, c₁⟩
  rw [hp] at hok
  dsimp only at hok ⊢
  rw [if_neg (not_not.mpr hok)]
  exact dump_frame h vintf opens _

/-- A rejected command line ends the run with the command `parseArgs` left. -/
theorem main_of_rejected (h : Host) (bManager pManager : Option Manager) (vintf : Vintf σ)
    (opens : String → Bool) (opts : List ListOption) (nonOptions : List String) (c : ListCommand)
    (hrej : (parseArgs h opts nonOptions c).1 ≠ ∅) :
    (main h bManager pManager vintf opens opts nonOptions c).2.1 = (parseArgs h opts nonOptions c).2 := by
  unfold main
  rcases hp : parseArgs h opts nonOptions c with ⟨status, c₁⟩
  rw [hp] at hrej
  dsimp only at hrej ⊢
  rw [if_pos hrej]

theorem ThreadsFaithful.of_postprocessFrame {h : Host} {e₀ e : TableEntry}
    (he : ThreadsFaithful h e₀) (hf : PostprocessFrame e₀ e) : ThreadsFaithful h e := by
  obtain ⟨-, -, -, -, -, rfl⟩ := hf
  exact he

theorem parseArgs_init_cache (h : Host) (opts : List ListOption) (nonOptions : List String) :
    CacheFaithful h (parseArgs h opts nonOptions ListCommand.init).2.mCachedPidInfos := by
  have := parseArgs_data h opts nonOptions ListCommand.init
  simp only [ListCommand.data, Prod.mk.injEq] at this
  intro pid info hl
  rw [this.2.2.2.1] at hl
  simp [ListCommand.init] at hl

theorem parseArgs_init_servicesTable (h : Host) (opts : List ListOption) (nonOptions : List String) :
    (parseArgs h opts nonOptions ListCommand.init).2.mServicesTable = [] :=
  parseArgs_init_table h opts nonOptions .binderizedServices

/-- Fetching after `parseArgs` leaves faithful services entries only. -/
theorem fetch_parseArgs_threadsFaithful {h : Host}
    (hbound : ∀ pid text, h.binderProc pid = some text → text.length < 2 ^ 32)
    (bManager pManager : Option Manager) (opts : List ListOption) (nonOptions : List String) :
    ∀ e ∈ (fetch h bManager pManager (parseArgs h opts nonOptions ListCommand.init).2).2.mServicesTable,
      ThreadsFaithful h e := by
  rw [fetch_servicesTable]
  cases bManager with
  | none => simp [parseArgs_init_servicesTable]
  | some manager =>
    exact fetchBinderized_threadsFaithful hbound manager (parseArgs_init_cache h opts nonOptions)
      (by simp [parseArgs_init_servicesTable])

/-- Whatever the command line, the managers and the debug files hold, every services entry a
run of `lshal list` ends with has `threadUsage ≤ threadCount`, and counters equal to its
server's counted hwbinder threads whenever that server's debug file is readable. -/
theorem main_threadsFaithful {h : Host}
    (hbound : ∀ pid text, h.binderProc pid = some text → text.length < 2 ^ 32)
    (bManager pManager : Option Manager) (vintf : Vintf σ) (opens : String → Bool)
    (opts : List ListOption) (nonOptions : List String) :
    ∀ e ∈ (main h bManager pManager vintf opens opts nonOptions ListCommand.init).2.1.mServicesTable,
      ThreadsFaithful h e := by
  intro e he
  by_cases hok : (parseArgs h opts nonOptions ListCommand.init).1 = ∅
  · obtain ⟨err, hmain⟩ := main_command h bManager pManager vintf opens opts nonOptions _ hok
    rw [hmain] at he
    set fetched := (fetch h bManager pManager (parseArgs h opts nonOptions ListCommand.init).2).2
    obtain ⟨e₀, he₀, hf⟩ :=
      (foldl_forTable_tableFrame h fetched.mListTypes fetched .binderizedServices).exists_mem he
    exact (fetch_parseArgs_threadsFaithful hbound bManager pManager opts nonOptions e₀ he₀
      ).of_postprocessFrame hf
  · rw [main_of_rejected h bManager pManager vintf opens opts nonOptions _ hok,
      parseArgs_init_servicesTable] at he
    simp at he

theorem main_threadsFaithful_hwbinderHost :
    (∀ pid text, hwbinderHost.binderProc pid = some text → text.length < 2 ^ 32) ∧
      ∀ e ∈ (main hwbinderHost (some sevenManager) none recordingVintf (fun _ => true) [] []
          ListCommand.init).2.1.mServicesTable,
        ThreadsFaithful hwbinderHost e :=
  have hbound : ∀ pid text, hwbinderHost.binderProc pid = some text → text.length < 2 ^ 32 :=
    fun pid _ ht => by
      by_cases h7 : pid = 7 <;> simp only [hwbinderHost, h7, ↓reduceIte, reduceCtorEq,
        Option.some.injEq] at ht
      exact ht ▸ by decide
  ⟨hbound, main_threadsFaithful hbound (some sevenManager) none recordingVintf _ [] []⟩

/-- Whatever the command line and whatever the managers answer, a run of `lshal list` ends with
each hwbinder service and each passthrough library listed at most once: the fetches key them by
name in a `std::map`, and `postprocess` only reorders the entries and writes other members. -/
theorem main_names_nodup (h : Host) (bManager pManager : Option Manager) (vintf : Vintf σ)
    (opens : String → Bool) (opts : List ListOption) (nonOptions : List String) :
    ((main h bManager pManager vintf opens opts nonOptions ListCommand.init).2.1.mServicesTable.map
        TableEntry.interfaceName).Nodup ∧
      ((main h bManager pManager vintf opens opts nonOptions ListCommand.init).2.1.mImplementationsTable.map
        TableEntry.interfaceName).Nodup := by
  have hi : (parseArgs h opts nonOptions ListCommand.init).2.mImplementationsTable = [] :=
    parseArgs_init_table h opts nonOptions .passthroughLibraries
  by_cases hok : (parseArgs h opts nonOptions ListCommand.init).1 = ∅
  · obtain ⟨err, hmain⟩ := main_command h bManager pManager vintf opens opts nonOptions _ hok
    rw [hmain]
    set fetched := (fetch h bManager pManager (parseArgs h opts nonOptions ListCommand.init).2).2
    obtain ⟨hs, hl⟩ := fetch_names_nodup h bManager pManager
      (parseArgs_init_servicesTable h opts nonOptions) hi
    exact ⟨(foldl_forTable_tableFrame h fetched.mListTypes fetched .binderizedServices).names_perm
        (fun _ _ => PostprocessFrame.interfaceName_eq) |>.nodup_iff.mpr hs,
      (foldl_forTable_tableFrame h fetched.mListTypes fetched .passthroughLibraries).names_perm
        (fun _ _ => PostprocessFrame.interfaceName_eq) |>.nodup_iff.mpr hl⟩
  · rw [main_of_rejected h bManager pManager vintf opens opts nonOptions _ hok]
    simp [parseArgs_init_servicesTable, hi]

theorem ListCommand.table_withErr (c : ListCommand) (err : String) (type : HalType) :
    { c with err := err }.table type = c.table type := by
  cases type <;> rfl

/-- Whatever the command line and whatever the managers and the host answer, every entry of
every table a run of `lshal list` ends with shows the cmdline and the partition the run
memoised for its server pid, and the memoised cmdline of each of its client pids: a pid's
cmdline is one across all entries and all columns, as a server and as a client. -/
theorem main_serverMemoised (h : Host) (bManager pManager : Option Manager) (vintf : Vintf σ)
    (opens : String → Bool) (opts : List ListOption) (nonOptions : List String) :
    let c := (main h bManager pManager vintf opens opts nonOptions ListCommand.init).2.1
    ∀ type, ∀ e ∈ c.table type, c.mCmdlines.lookup e.serverPid = some e.serverCmdline ∧
      c.mPartitions.lookup e.serverPid = some e.partition ∧
      e.clientCmdlines = e.clientPids.map (memoOf c.mCmdlines) := by
  dsimp only
  intro type e he
  by_cases hok : (parseArgs h opts nonOptions ListCommand.init).1 = ∅
  · obtain ⟨err, hmain⟩ := main_command h bManager pManager vintf opens opts nonOptions _ hok
    rw [hmain, ListCommand.table_withErr] at he
    rw [hmain]
    obtain ⟨e₀, -, hnil, hp, hl⟩ :=
      ((postprocess_fetched h bManager pManager opts nonOptions).2 type).exists_mem he
    exact ⟨hp.serverCmdline, hl, by rw [hp.clientCmdlines, hnil, List.nil_append]⟩
  · rw [main_of_rejected h bManager pManager vintf opens opts nonOptions _ hok,
      parseArgs_init_table] at he
    simp at he

end Cmds.Lshal
