import Cmds.Lshal.Types

/-!
# The options of `lshal list`

`parseArgs` applies each option `getopt_long` returns, in order, and stops at the first that
does not return `OK`. Only what later phases read is modelled; the column options only change
the rendering. `--types` appends a type only when it is not listed yet.
-/

namespace Cmds.Lshal

/-- An option as `getopt_long` hands it to `parseArgs`, with its argument. -/
inductive ListOption
  /-- `-h`, `--help`. -/
  | help
  /-- One of `-i -l -t -r -s -p -a -c -e -m`, which select what the table shows. -/
  | selectColumn
  /-- `-d`, `--debug[=<arg>]`. -/
  | debug (arg : Option String)
  /-- `--init-vintf`. -/
  | initVintf
  /-- `--init-vintf-partition=<arg>`. -/
  | initVintfPartition (arg : String)
  /-- `--sort=<arg>`. -/
  | sort (arg : String)
  /-- `--neat`. -/
  | neat
  /-- `--types=<arg>`. -/
  | types (arg : String)
  /-- An option no entry of `mOptions` matches, as written on the command line. -/
  | unrecognized (arg : String)
  deriving DecidableEq, Repr

/-- `Status` `USAGE`. -/
def usageStatus : Status := {.usage}

/-- `kHalTypeMap` of the `--types` handler. -/
def halTypeOf : String → Option HalType
  | "binderized" | "b" => some .binderizedServices
  | "passthrough_clients" | "c" => some .passthroughClients
  | "passthrough_libs" | "l" => some .passthroughLibraries
  | _ => none

/-- The loop of the `--types` handler over the comma-separated values. -/
def addHalTypes (c : ListCommand) : List String → Status × ListCommand
  | [] => (∅, c)
  | halTypeArg :: rest =>
    if halTypeArg = "" then addHalTypes c rest else
    match halTypeOf halTypeArg with
    | none => (usageStatus, { c with err := c.err ++ "Unrecognized HAL type: " ++ halTypeArg ++ "\n" })
    | some halType =>
      addHalTypes (if halType ∈ c.mListTypes then c
        else { c with mListTypes := c.mListTypes ++ [halType] }) rest

/-- The handler of `--types`. -/
def typesOption (c : ListCommand) (arg : String) : Status × ListCommand :=
  match addHalTypes c (split arg ',') with
  | (status, c) =>
    if status ≠ ∅ then (status, c)
    else if c.mListTypes = [] then (usageStatus, c)
    else (∅, c)

/-- The handler of `--sort`. -/
def sortOption (c : ListCommand) (arg : String) : Status × ListCommand :=
  if arg = "interface" ∨ arg = "i" then (∅, { c with mSortColumn := some .interfaceName })
  else if arg = "pid" ∨ arg = "p" then (∅, { c with mSortColumn := some .serverPid })
  else (usageStatus, { c with err := c.err ++ "Unrecognized sorting column: " ++ arg ++ "\n" })

/-- The `op` of a registered option. -/
def applyOption (h : Host) (c : ListCommand) : ListOption → Status × ListCommand
  | .help => (usageStatus, c)
  | .selectColumn => (∅, c)
  | .debug arg => (∅, { c with
      mEmitDebugInfo := true
      mFileOutputPath := arg.getD c.mFileOutputPath })
  | .initVintf => (∅, { c with
      mVintf := true
      mVintfPartition := if c.mVintfPartition = .unknown then .vendor else c.mVintfPartition })
  | .initVintfPartition arg =>
    if h.parsePartition arg = .unknown then (usageStatus, { c with mVintfPartition := .unknown })
    else (∅, { c with mVintfPartition := h.parsePartition arg })
  | .sort arg => sortOption c arg
  | .neat => (∅, { c with mNeat := true })
  | .types arg => typesOption c arg
  | .unrecognized arg =>
    (usageStatus, { c with err := c.err ++ "unrecognized option `" ++ arg ++ "'\n" })

/-- The `getopt_long` loop of `parseArgs`: apply each option until one fails. -/
def parseOptions (h : Host) (c : ListCommand) : List ListOption → Status × ListCommand
  | [] => (∅, c)
  | o :: rest =>
    match applyOption h c o with
    | (status, c) => if status = ∅ then parseOptions h c rest else (status, c)

/-- `ListCommand::parseArgs`: `nonOptions` are the arguments `getopt_long` left over. -/
def parseArgs (h : Host) (opts : List ListOption) (nonOptions : List String) (c : ListCommand) :
    Status × ListCommand :=
  match parseOptions h { c with mListTypes := [] } opts with
  | (status, c) =>
    if status ≠ ∅ then (status, c) else
    match nonOptions with
    | arg :: _ => (usageStatus, { c with err := c.err ++ "unrecognized option `" ++ arg ++ "'\n" })
    | [] =>
      if c.mNeat ∧ c.mEmitDebugInfo then
        (usageStatus, { c with err := c.err ++ "Error: --neat should not be used with --debug.\n" })
      else if c.mListTypes = [] then
        (∅, { c with mListTypes := [.binderizedServices, .passthroughClients, .passthroughLibraries] })
      else (∅, c)

/-- The members the options never write: the tables, the caches and the memos. -/
def ListCommand.data (c : ListCommand) :
    List TableEntry × List TableEntry × List TableEntry × List (Int × PidInfo) ×
      List (Int × String) × List (Int × Partition) :=
  (c.mServicesTable, c.mPassthroughRefTable, c.mImplementationsTable, c.mCachedPidInfos,
    c.mCmdlines, c.mPartitions)

/-- `--init-vintf` never leaves the target partition unknown. -/
def ListCommand.VintfReady (c : ListCommand) : Prop :=
  c.mVintf = true → c.mVintfPartition ≠ .unknown

theorem addHalTypes_nodup (c : ListCommand) (args : List String) (hc : c.mListTypes.Nodup) :
    (addHalTypes c args).2.mListTypes.Nodup := by
  induction args generalizing c with
  | nil => exact hc
  | cons a rest ih =>
    unfold addHalTypes
    split
    · exact ih c hc
    · split
      · exact hc
      · next t _ =>
        apply ih
        split
        · exact hc
        · next ht => exact hc.append (List.nodup_singleton t) (by simpa using ht)

/-- The `--types` loop changes only the list types and `err`, and keeps the vintf switches. -/
theorem addHalTypes_frame (c : ListCommand) (args : List String) :
    (addHalTypes c args).2.data = c.data ∧ (addHalTypes c args).2.mVintf = c.mVintf ∧
      (addHalTypes c args).2.mVintfPartition = c.mVintfPartition := by
  induction args generalizing c with
  | nil => exact ⟨rfl, rfl, rfl⟩
  | cons a rest ih =>
    unfold addHalTypes
    split
    · exact ih c
    · split
      · exact ⟨rfl, rfl, rfl⟩
      · split <;> exact ih _

theorem applyOption_nodup (h : Host) (c : ListCommand) (o : ListOption) (hc : c.mListTypes.Nodup) :
    (applyOption h c o).2.mListTypes.Nodup := by
  cases o with
  | types arg =>
    have := addHalTypes_nodup c (split arg ',') hc
    simp only [applyOption, typesOption]
    split_ifs <;> exact this
  | sort arg => simp only [applyOption, sortOption]; split_ifs <;> exact hc
  | initVintfPartition arg => simp only [applyOption]; split_ifs <;> exact hc
  | _ => exact hc

/-- An option writes settings only. -/
theorem applyOption_data (h : Host) (c : ListCommand) (o : ListOption) :
    (applyOption h c o).2.data = c.data := by
  cases o with
  | types arg =>
    have := (addHalTypes_frame c (split arg ',')).1
    simp only [applyOption, typesOption]
    split_ifs <;> exact this
  | sort arg => simp only [applyOption, sortOption]; split_ifs <;> rfl
  | initVintfPartition arg => simp only [applyOption]; split_ifs <;> rfl
  | _ => rfl

/-- An accepted option keeps the target partition known once `--init-vintf` is given. -/
theorem applyOption_vintfReady (h : Host) (c : ListCommand) (o : ListOption) (hc : c.VintfReady)
    (hok : (applyOption h c o).1 = ∅) : (applyOption h c o).2.VintfReady := by
  cases o with
  | types arg =>
    obtain ⟨-, hv, hp⟩ := addHalTypes_frame c (split arg ',')
    simp only [applyOption, typesOption] at hok ⊢
    split_ifs <;> simpa [ListCommand.VintfReady, hv, hp] using hc
  | sort arg => simp only [applyOption, sortOption] at hok ⊢; split_ifs <;> exact hc
  | initVintf =>
    intro _
    simp only [applyOption]
    split_ifs <;> simp_all
  | initVintfPartition arg =>
    simp only [applyOption] at hok ⊢
    split_ifs at hok ⊢ with hp
    · simp [usageStatus] at hok
    · exact fun _ => hp
  | help => simp [applyOption, usageStatus] at hok
  | unrecognized arg => simp [applyOption, usageStatus] at hok
  | _ => exact hc

theorem parseOptions_nodup (h : Host) (c : ListCommand) (opts : List ListOption)
    (hc : c.mListTypes.Nodup) : (parseOptions h c opts).2.mListTypes.Nodup := by
  induction opts generalizing c with
  | nil => exact hc
  | cons o rest ih =>
    have ho := applyOption_nodup h c o hc
    simp only [parseOptions]
    split_ifs
    · exact ih _ ho
    · exact ho

theorem parseOptions_data (h : Host) (c : ListCommand) (opts : List ListOption) :
    (parseOptions h c opts).2.data = c.data := by
  induction opts generalizing c with
  | nil => rfl
  | cons o rest ih =>
    simp only [parseOptions]
    split_ifs
    · exact (ih _).trans (applyOption_data h c o)
    · exact applyOption_data h c o

theorem parseOptions_vintfReady (h : Host) (c : ListCommand) (opts : List ListOption)
    (hc : c.VintfReady) (hok : (parseOptions h c opts).1 = ∅) : (parseOptions h c opts).2.VintfReady := by
  induction opts generalizing c with
  | nil => exact hc
  | cons o rest ih =>
    simp only [parseOptions] at hok ⊢
    split_ifs at hok ⊢ with ho
    · exact ih _ (applyOption_vintfReady h c o hc ho) hok
    · exact absurd hok ho

/-- Whatever it returns, `parseArgs` lists every table at most once, so `forEachTable` visits
each table at most once. -/
theorem parseArgs_listTypes_nodup (h : Host) (opts : List ListOption) (nonOptions : List String)
    (c : ListCommand) : (parseArgs h opts nonOptions c).2.mListTypes.Nodup := by
  have hp := parseOptions_nodup h { c with mListTypes := [] } opts List.nodup_nil
  unfold parseArgs
  rcases hpo : parseOptions h { c with mListTypes := [] } opts with ⟨status, c'⟩
  rw [hpo] at hp
  dsimp only
  cases nonOptions <;> dsimp only <;> split_ifs <;> first | exact hp | simp

/-- `parseArgs` leaves the tables, caches and memos as they were. -/
theorem parseArgs_data (h : Host) (opts : List ListOption) (nonOptions : List String)
    (c : ListCommand) : (parseArgs h opts nonOptions c).2.data = c.data := by
  have hp := parseOptions_data h { c with mListTypes := [] } opts
  unfold parseArgs
  rcases hpo : parseOptions h { c with mListTypes := [] } opts with ⟨status, c'⟩
  rw [hpo] at hp
  dsimp only
  cases nonOptions <;> dsimp only <;> split_ifs <;> exact hp

theorem parseArgs_init_table (h : Host) (opts : List ListOption) (nonOptions : List String)
    (type : HalType) : (parseArgs h opts nonOptions ListCommand.init).2.table type = [] := by
  have := parseArgs_data h opts nonOptions ListCommand.init
  simp only [ListCommand.data, Prod.mk.injEq] at this
  cases type
  exacts [this.1, this.2.1, this.2.2.1]

theorem parseArgs_init_cmdlines (h : Host) (opts : List ListOption) (nonOptions : List String) :
    (parseArgs h opts nonOptions ListCommand.init).2.mCmdlines = [] := by
  have := parseArgs_data h opts nonOptions ListCommand.init
  simp only [ListCommand.data, Prod.mk.injEq] at this
  exact this.2.2.2.2.1

/-- An accepted command line with `--init-vintf` names a known target partition, whatever the
order of its options: `--init-vintf` fills in `VENDOR` for an unknown one, and an
`--init-vintf-partition` that does not parse rejects the command line. -/
theorem parseArgs_vintfReady (h : Host) (opts : List ListOption) (nonOptions : List String)
    {c : ListCommand} (hc : c.VintfReady) (hok : (parseArgs h opts nonOptions c).1 = ∅) :
    (parseArgs h opts nonOptions c).2.VintfReady := by
  have hp := parseOptions_vintfReady h { c with mListTypes := [] } opts hc
  unfold parseArgs at hok ⊢
  rcases hpo : parseOptions h { c with mListTypes := [] } opts with ⟨status, c'⟩
  rw [hpo] at hp hok
  dsimp only at hok hp ⊢
  cases nonOptions <;> dsimp only at hok ⊢ <;> split_ifs at hok ⊢ with hs
  all_goals first | exact absurd hok hs | exact hp (not_not.mp hs)

theorem parseArgs_vintfReady_initVintf :
    ListCommand.init.VintfReady ∧ (parseArgs Host.bare [.initVintf] [] ListCommand.init).1 = ∅ ∧
      (parseArgs Host.bare [.initVintf] [] ListCommand.init).2.VintfReady :=
  ⟨fun h => absurd h (by decide), rfl,
    parseArgs_vintfReady Host.bare [.initVintf] [] (fun h => absurd h (by decide)) rfl⟩

end Cmds.Lshal
