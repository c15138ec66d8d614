import Mathlib.Data.Finset.Basic
import Mathlib.Data.String.Basic

/-!
# lshal's data model

The records `ListCommand` fills during one fetch cycle. `Status`, `TableEntry` and the sentinels
live in headers outside the source and are taken as the code uses them; everything the command
calls without defining it is a field of `Host`, so every result holds for every collaborator.
-/

namespace Cmds.Lshal

/-- The error bits of lshal's `Status`. -/
inductive StatusFlag
  | usage
  | noBinderizedManager
  | noPassthroughManager
  | dumpBinderizedError
  | dumpPassthroughError
  | dumpAllLibsError
  | ioError
  | noInterface
  | transactionError
  | badImpl
  deriving DecidableEq, Repr

/-- The bitwise-OR'd `Status` as the set of its raised bits: `OK` is `∅`, `|=` is `∪`. -/
abbrev Status := Finset StatusFlag

/-- `vintf::Transport`. -/
inductive Transport
  | empty
  | hwbinder
  | passthrough
  deriving DecidableEq, Repr

/-- How `vintf` prints a transport. -/
def Transport.toString : Transport → String
  | .empty => ""
  | .hwbinder => "hwbinder"
  | .passthrough => "passthrough"

/-- `vintf::Arch`: the bit mask of the bitnesses a library is available in. -/
inductive Arch
  | archEmpty
  | arch32
  | arch64
  | arch32_64
  deriving DecidableEq, Repr

/-- Bit `ARCH_32` of an arch. -/
def Arch.has32 : Arch → Bool
  | .arch32 | .arch32_64 => true
  | _ => false

/-- Bit `ARCH_64` of an arch. -/
def Arch.has64 : Arch → Bool
  | .arch64 | .arch32_64 => true
  | _ => false

/-- The arch with the two given bits. -/
def Arch.ofBits : Bool → Bool → Arch
  | false, false => .archEmpty
  | true, false => .arch32
  | false, true => .arch64
  | true, true => .arch32_64

/-- `vintf::operator|`, bit by bit. -/
def Arch.or (a b : Arch) : Arch := .ofBits (a.has32 || b.has32) (a.has64 || b.has64)

instance : OrOp Arch := ⟨Arch.or⟩

theorem Arch.or_def (a b : Arch) : a ||| b = a.or b := rfl

theorem Arch.or_comm (a b : Arch) : a ||| b = b ||| a := by
  cases a <;> cases b <;> rfl

theorem Arch.or_assoc (a b c : Arch) : a ||| b ||| c = a ||| (b ||| c) := by
  cases a <;> cases b <;> cases c <;> rfl

@[simp] theorem Arch.or_self (a : Arch) : a ||| a = a := by cases a <;> rfl

@[simp] theorem Arch.archEmpty_or (a : Arch) : .archEmpty ||| a = a := by cases a <;> rfl

@[simp] theorem Arch.or_archEmpty (a : Arch) : a ||| .archEmpty = a := by cases a <;> rfl

@[simp] theorem Arch.has32_or (a b : Arch) : (a ||| b).has32 = (a.has32 || b.has32) := by
  cases a <;> cases b <;> rfl

@[simp] theorem Arch.has64_or (a b : Arch) : (a ||| b).has64 = (a.has64 || b.has64) := by
  cases a <;> cases b <;> rfl

@[simp] theorem Arch.ofBits_has (a : Arch) : Arch.ofBits a.has32 a.has64 = a := by cases a <;> rfl

/-- An OR over a list of archs has exactly the bits one of them has, whatever their order and
however often each occurs. -/
theorem Arch.foldl_or (l : List Arch) (a : Arch) :
    l.foldl (· ||| ·) a = .ofBits (a.has32 || l.any Arch.has32) (a.has64 || l.any Arch.has64) := by
  induction l generalizing a with
  | nil => simp
  | cons x l ih => simp [ih, Bool.or_assoc]

theorem Arch.foldl_or_congr {l l' : List Arch} (h : ∀ x, x ∈ l ↔ x ∈ l') (a : Arch) :
    l.foldl (· ||| ·) a = l'.foldl (· ||| ·) a := by
  have hany : ∀ p : Arch → Bool, l.any p = l'.any p := fun p =>
    Bool.eq_iff_iff.mpr (by simp only [List.any_eq_true, h])
  rw [Arch.foldl_or, Arch.foldl_or, hany, hany]

/-- `DebugInfo::Architecture` as a hidl service reports it. -/
inductive Architecture
  | unknown
  | is64Bit
  | is32Bit
  deriving DecidableEq, Repr

/-- `fromBaseArchitecture`. -/
def fromBaseArchitecture : Architecture → Arch
  | .is64Bit => .arch64
  | .is32Bit => .arch32
  | .unknown => .archEmpty

/-- `procpartition::Partition`. -/
inductive Partition
  | unknown
  | system
  | vendor
  | odm
  deriving DecidableEq, Repr

/-- A parsed `FQName`: package, optional `major.minor` version and interface name. -/
structure FQName where
  package : String
  version : Option (Nat × Nat)
  name : String
  deriving DecidableEq, Repr

/-- `FQName::getPackageAndVersion`: the same name with the interface dropped. -/
def FQName.getPackageAndVersion (f : FQName) : FQName := { f with name := "" }

/-- `FQName::inPackage`: the dotted components of `p` are a prefix of the package's. -/
def FQName.inPackage (f : FQName) (p : String) : Bool :=
  (p.splitOn ".").isPrefixOf (f.package.splitOn ".")

/-- How an `FQName` prints. -/
def FQName.string (f : FQName) : String :=
  f.package ++ (match f.version with
    | some (major, minor) => "@" ++ toString major ++ "." ++ toString minor
    | none => "") ++ (if f.name = "" then "" else "::" ++ f.name)

/-- A parsed `FqInstance`: a fully qualified interface and an instance name. -/
structure FqInstance where
  fqName : FQName
  instanceName : String
  deriving DecidableEq, Repr

/-- `FqInstance::getPackage`. -/
def FqInstance.getPackage (f : FqInstance) : String := f.fqName.package

/-- `FqInstance::inPackage`. -/
def FqInstance.inPackage (f : FqInstance) (p : String) : Bool := f.fqName.inPackage p

/-- `FqInstance::string`. -/
def FqInstance.string (f : FqInstance) : String := f.fqName.string ++ "/" ++ f.instanceName

/-- What `ListCommand` uses without defining it: the sentinels of `TableEntry.h`, the
queries about processes and the kernel made during one cycle, and the library parsers. -/
structure Host where
  /-- `NO_PID`, the pid of an entry that has no server process. -/
  NO_PID : Int
  /-- `NO_PTR`, the address of an entry that has no binder node. -/
  NO_PTR : UInt64
  /-- `getpid()` of lshal itself. -/
  getpid : Int
  /-- `/d/binder/proc/<pid>` as its lines; `none` when it cannot be opened. -/
  binderProc : Int → Option (List String)
  /-- `procpartition::getCmdline` when it is called for the `k`-th time. -/
  cmdline : Nat → Int → String
  /-- `procpartition::getPartition` when it is called for the `k`-th time. -/
  partitionOf : Nat → Int → Partition
  /-- `android::base::ParseUint` into a `uint64_t`. -/
  ParseUint : String → Option UInt64
  /-- `android::base::ParseInt` into an `int32_t`. -/
  ParseInt : String → Option Int
  /-- `FQName::parse`. -/
  parseFQName : String → Option FQName
  /-- `FqInstance::setTo`. -/
  parseFqInstance : String → Option FqInstance
  /-- `procpartition::parsePartition`. -/
  parsePartition : String → Partition

/-- A host on which no process is left: `NO_PID` is `-1`, `NO_PTR` is `0`, no debug file
opens, every cmdline is empty and no parser accepts anything. -/
def Host.bare : Host where
  NO_PID := -1
  NO_PTR := 0
  getpid := 1
  binderProc := fun _ => none
  cmdline := fun _ _ => ""
  partitionOf := fun _ _ => .unknown
  ParseUint := fun _ => none
  ParseInt := fun _ => none
  parseFQName := fun _ => none
  parseFqInstance := fun _ => none
  parsePartition := fun _ => .unknown

/-- `TableEntry`: one row of one of the three tables. Its `uint32_t` thread counters are
naturals that every increment takes modulo `2 ^ 32`. -/
structure TableEntry where
  interfaceName : String
  transport : Transport
  serverPid : Int
  threadUsage : Nat
  threadCount : Nat
  serverCmdline : String
  serverObjectAddress : UInt64
  clientPids : List Int
  clientCmdlines : List String
  arch : Arch
  hash : String
  partition : Partition
  deriving DecidableEq, Repr

/-- A default-initialised `TableEntry`, as `TableEntry.h` declares its members. -/
def Host.emptyEntry (h : Host) : TableEntry where
  interfaceName := ""
  transport := .empty
  serverPid := h.NO_PID
  threadUsage := 0
  threadCount := 0
  serverCmdline := ""
  serverObjectAddress := h.NO_PTR
  clientPids := []
  clientCmdlines := []
  arch := .archEmpty
  hash := ""
  partition := .unknown

/-- The `std::map<uint64_t, Pids>` of a `PidInfo`, keys in first-insertion order. -/
abbrev RefPids := List (UInt64 × List Int)

/-- `refPids[ptr].push_back(pid)`. -/
def RefPids.push (ptr : UInt64) (pid : Int) : RefPids → RefPids
  | [] => [(ptr, [pid])]
  | (k, pids) :: rest => if k = ptr then (k, pids ++ [pid]) :: rest else (k, pids) :: push ptr pid rest

/-- `PidInfo`: what one process's binder debug file says about it, its `uint32_t`
counters as naturals taken modulo `2 ^ 32`. -/
structure PidInfo where
  refPids : RefPids
  threadUsage : Nat
  threadCount : Nat
  deriving DecidableEq, Repr

/-- `PidInfo{}`. -/
def PidInfo.empty : PidInfo := ⟨[], 0, 0⟩

/-- `HalType`: the three tables `--types` chooses among. -/
inductive HalType
  | binderizedServices
  | passthroughClients
  | passthroughLibraries
  deriving DecidableEq, Repr

/-- The `--sort` columns, `TableEntry::sortByInterfaceName` and `sortByServerPid`. -/
inductive SortColumn
  | interfaceName
  | serverPid
  deriving DecidableEq, Repr

/-- The comparator a sort column stands for. -/
def SortColumn.compare : SortColumn → TableEntry → TableEntry → Bool
  | .interfaceName, a, b => decide (a.interfaceName < b.interfaceName)
  | .serverPid, a, b => decide (a.serverPid < b.serverPid)

/-- The members of `ListCommand` that its phases read and write; `err` is the text written
to `err()`. -/
structure ListCommand where
  mServicesTable : List TableEntry
  mPassthroughRefTable : List TableEntry
  mImplementationsTable : List TableEntry
  mCachedPidInfos : List (Int × PidInfo)
  mCmdlines : List (Int × String)
  mPartitions : List (Int × Partition)
  mListTypes : List HalType
  mSortColumn : Option SortColumn
  mVintf : Bool
  mVintfPartition : Partition
  mNeat : Bool
  mEmitDebugInfo : Bool
  mFileOutputPath : String
  err : String

/-- `shouldReportHalType`. -/
def ListCommand.shouldReportHalType (c : ListCommand) (type : HalType) : Bool :=
  type ∈ c.mListTypes

/-- The table `forEachTable` hands over for a type. -/
def ListCommand.table (c : ListCommand) : HalType → List TableEntry
  | .binderizedServices => c.mServicesTable
  | .passthroughClients => c.mPassthroughRefTable
  | .passthroughLibraries => c.mImplementationsTable

/-- The command with the table of a type replaced. -/
def ListCommand.setTable (c : ListCommand) : HalType → List TableEntry → ListCommand
  | .binderizedServices, t => { c with mServicesTable := t }
  | .passthroughClients, t => { c with mPassthroughRefTable := t }
  | .passthroughLibraries, t => { c with mImplementationsTable := t }

@[simp] theorem ListCommand.table_setTable_self (c : ListCommand) (type : HalType)
    (t : List TableEntry) : (c.setTable type t).table type = t := by
  cases type <;> rfl

theorem ListCommand.table_setTable_of_ne (c : ListCommand) {type type' : HalType}
    (t : List TableEntry) (hne : type' ≠ type) : (c.setTable type t).table type' = c.table type' := by
  cases type <;> cases type' <;> first | rfl | exact absurd rfl hne

/-- `ListCommand`'s members as the constructor leaves them. -/
def ListCommand.init : ListCommand where
  mServicesTable := []
  mPassthroughRefTable := []
  mImplementationsTable := []
  mCachedPidInfos := []
  mCmdlines := []
  mPartitions := []
  mListTypes := []
  mSortColumn := none
  mVintf := false
  mVintfPartition := .unknown
  mNeat := false
  mEmitDebugInfo := false
  mFileOutputPath := ""
  err := ""

/-- `splitFirst(s, c)`: the text before the first `c` and the text after it. -/
def splitFirst (s : String) (c : Char) : String × String :=
  match s.toList.span (· ≠ c) with
  | (before, _ :: after) => (String.mk before, String.mk after)
  | (before, []) => (String.mk before, "")

/-- `split(s, c)`: every piece between occurrences of `c`, empty pieces included. -/
def split (s : String) (c : Char) : List String :=
  (s.toList.splitOn c).map String.mk

end Cmds.Lshal
