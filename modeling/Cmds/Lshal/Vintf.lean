import Cmds.Lshal.Types

/-!
# `--init-vintf`: the skeleton manifest

`dumpVintf` offers every services and passthrough-client entry to `addEntryWithInstance`, which
parses the name, skips `android.hidl.base`, guesses the partition, chooses the arch and inserts
the instance. The manifest is a state `σ` with `Vintf`'s operations, so every result holds for
every manifest behaviour; `vintfSpecStep` states the outcome entry by entry.
-/

namespace Cmds.Lshal

/-- `vintf::SchemaType`. -/
inductive SchemaType
  | framework
  | device
  deriving DecidableEq, Repr

/-- `toSchemaType`: the system partition holds the framework manifest. -/
def toSchemaType (p : Partition) : SchemaType :=
  if p = .system then .framework else .device

/-- What `dumpVintf` uses of libvintf, over a manifest state `σ`. -/
structure Vintf (σ : Type) where
  /-- A `HalManifest` after `setType`. -/
  empty : SchemaType → σ
  /-- `insertInstance(fqInstance, transport, arch, HalFormat::HIDL, &e)`: the manifest after
  the insertion, or the text it leaves in `e`. -/
  insertInstance : σ → FqInstance → Transport → Arch → Except String σ
  /-- `forEachInstanceOfVersion` of a package and version finds an instance. -/
  hasInstanceOfVersion : σ → String → Nat × Nat → Bool
  /-- `vintf::parse` into a `Version`. -/
  parseVersion : String → Option (Nat × Nat)

/-- `gIBaseFqName.package()`. -/
def iBasePackage : String := "android.hidl.base"

/-- `ListCommand::resolvePartition`: the partition a HAL is guessed to belong to, from its
package first and from the process's partition for `android.hardware` and unknown packages. -/
def resolvePartition (process : Partition) (fqInstance : FqInstance) : Partition :=
  if fqInstance.inPackage "vendor" || fqInstance.inPackage "com" then .vendor
  else if fqInstance.inPackage "android.frameworks" || fqInstance.inPackage "android.system" ||
      fqInstance.inPackage "android.hidl" then .system
  else if fqInstance.inPackage "android.hardware" then
    if process ≠ .unknown then process else .vendor
  else process

/-- The arch `addEntryWithInstance` inserts an entry with, or the warning it gives instead. -/
def manifestArch (entry : TableEntry) : Except String Arch :=
  match entry.transport with
  | .hwbinder => .ok .archEmpty
  | .passthrough =>
    if entry.arch = .archEmpty then .error ("Warning: '" ++ entry.interfaceName ++ "' doesn't have bitness info.")
    else .ok entry.arch
  | transport => .error ("Warning: '" ++ transport.toString ++ "' is not a valid transport.\n")

section Manifest

variable {σ : Type}

/-- `ListCommand::addEntryWithInstance` against the target partition `mVintfPartition`: whether
the entry counts as handled, the manifest after it, and what it writes to `err()`. -/
def addEntryWithInstance (h : Host) (vintf : Vintf σ) (mVintfPartition : Partition)
    (manifest : σ) (entry : TableEntry) : Bool × σ × String :=
  match h.parseFqInstance entry.interfaceName with
  | none => (false, manifest, "Warning: '" ++ entry.interfaceName ++ "' is not a valid FqInstance.\n")
  | some fqInstance =>
    if fqInstance.getPackage = iBasePackage then (true, manifest, "") else
    let partition := resolvePartition entry.partition fqInstance
    if partition = .unknown then
      (false, manifest, "Warning: Cannot guess the partition of FqInstance " ++ fqInstance.string ++ "\n")
    else if partition ≠ mVintfPartition then (true, manifest, "") else
    match manifestArch entry with
    | .error msg => (false, manifest, msg)
    | .ok arch =>
      match vintf.insertInstance manifest fqInstance entry.transport arch with
      | .error e => (false, manifest, "Warning: Cannot insert '" ++ fqInstance.string ++ ": " ++ e ++ "\n")
      | .ok manifest => (true, manifest, "")

/-- `ListCommand::addEntryWithoutInstance`: whether the manifest already has an instance of the
library's package and version. -/
def addEntryWithoutInstance (vintf : Vintf σ) (manifest : σ) (entry : TableEntry) :
    Bool × String :=
  let packageAndVersion := splitFirst (splitFirst entry.interfaceName ':').1 '@'
  match vintf.parseVersion packageAndVersion.2 with
  | none => (false, "Warning: Cannot parse version '" ++ packageAndVersion.2 ++ "' for entry '" ++
      entry.interfaceName ++ "'\n")
  | some version => (vintf.hasInstanceOfVersion manifest packageAndVersion.1 version, "")

/-- The state of the two loops of `dumpVintf` that fill the manifest: the names not added, the
manifest, and the text written to `err()`. -/
structure VintfRound (σ : Type) where
  error : List String
  manifest : σ
  err : String

/-- One round: `if (!addEntryWithInstance(entry, &manifest)) error.push_back(entry.interfaceName)`. -/
def vintfRound (h : Host) (vintf : Vintf σ) (mVintfPartition : Partition) (r : VintfRound σ)
    (entry : TableEntry) : VintfRound σ :=
  match addEntryWithInstance h vintf mVintfPartition r.manifest entry with
  | (ok, manifest, msg) =>
    ⟨if ok then r.error else r.error ++ [entry.interfaceName], manifest, r.err ++ msg⟩

/-- What `dumpVintf` computes before it prints: the manifest, the entries not added, the
libraries of which no instance is known, and the warnings. The XML it prints from them is
not modelled. -/
structure VintfDump (σ : Type) where
  manifest : σ
  error : List String
  passthrough : List String
  err : String

/-- `ListCommand::dumpVintf`. -/
def dumpVintf (h : Host) (vintf : Vintf σ) (c : ListCommand) : VintfDump σ :=
  let r := c.mServicesTable.foldl (vintfRound h vintf c.mVintfPartition)
    ⟨[], vintf.empty (toSchemaType c.mVintfPartition), ""⟩
  let r := c.mPassthroughRefTable.foldl (vintfRound h vintf c.mVintfPartition) r
  let (passthrough, err) := c.mImplementationsTable.foldl (fun (acc : List String × String) entry =>
      match addEntryWithoutInstance vintf r.manifest entry with
      | (found, msg) => (if found then acc.1 else acc.1 ++ [entry.interfaceName], acc.2 ++ msg))
    ([], r.err)
  ⟨r.manifest, r.error, passthrough, err⟩

/-- The insertion an entry gets, read from the conditions on it: a parsed name outside
`android.hidl.base` whose partition resolves to the target, served over hwbinder, or over
passthrough with a known bitness. Hwbinder instances go in with `ARCH_EMPTY`, passthrough
ones with their own arch. -/
def insertionOf (h : Host) (target : Partition) (entry : TableEntry) : Option (FqInstance × Arch) :=
  match h.parseFqInstance entry.interfaceName with
  | none => none
  | some fq =>
    if fq.getPackage ≠ iBasePackage ∧ resolvePartition entry.partition fq = target ∧
        (entry.transport = .hwbinder ∨ entry.transport = .passthrough ∧ entry.arch ≠ .archEmpty) then
      some (fq, if entry.transport = .hwbinder then .archEmpty else entry.arch)
    else none

/-- An entry left out of the manifest for a reason: an `android.hidl.base` instance, or one
that resolves to a known partition other than the target. -/
def exempt (h : Host) (target : Partition) (entry : TableEntry) : Bool :=
  match h.parseFqInstance entry.interfaceName with
  | none => false
  | some fq =>
    fq.getPackage = iBasePackage ∨
      (resolvePartition entry.partition fq ≠ .unknown ∧ resolvePartition entry.partition fq ≠ target)

/-- One entry as the conditions above decide it: inserted when `insertionOf` says so, and
reported exactly when not inserted successfully and not exempt. -/
def vintfSpecStep (h : Host) (vintf : Vintf σ) (target : Partition) (acc : List String × σ)
    (entry : TableEntry) : List String × σ :=
  match insertionOf h target entry with
  | some (fq, arch) =>
    match vintf.insertInstance acc.2 fq entry.transport arch with
    | .ok manifest => (acc.1, manifest)
    | .error _ => (acc.1 ++ [entry.interfaceName], acc.2)
  | none => if exempt h target entry then acc else (acc.1 ++ [entry.interfaceName], acc.2)

theorem manifestArch_eq_ok {entry : TableEntry} {arch : Arch} :
    manifestArch entry = .ok arch ↔
      (entry.transport = .hwbinder ∧ arch = .archEmpty) ∨
        (entry.transport = .passthrough ∧ entry.arch ≠ .archEmpty ∧ arch = entry.arch) := by
  unfold manifestArch
  cases ht : entry.transport with
  | hwbinder => simp [eq_comm]
  | passthrough => by_cases ha : entry.arch = .archEmpty <;> simp [ha, eq_comm]
  | empty => simp

/-- Against a known target partition, `addEntryWithInstance` inserts exactly as `insertionOf`
says and counts an entry as handled exactly when it was inserted or is exempt. -/
theorem addEntryWithInstance_spec (h : Host) (vintf : Vintf σ) {target : Partition}
    (htarget : target ≠ .unknown) (manifest : σ) (entry : TableEntry) :
    ((addEntryWithInstance h vintf target manifest entry).1,
        (addEntryWithInstance h vintf target manifest entry).2.1) =
      match insertionOf h target entry with
      | some (fq, arch) =>
        match vintf.insertInstance manifest fq entry.transport arch with
        | .ok manifest' => (true, manifest')
        | .error _ => (false, manifest)
      | none => (exempt h target entry, manifest) := by
  unfold addEntryWithInstance insertionOf exempt
  cases hp : h.parseFqInstance entry.interfaceName with
  | none => rfl
  | some fq =>
    dsimp only
    by_cases hbase : fq.getPackage = iBasePackage
    · simp [hbase]
    by_cases hunknown : resolvePartition entry.partition fq = .unknown
    · have hne : resolvePartition entry.partition fq ≠ target := hunknown ▸ htarget.symm
      simp [hbase, hunknown, hne, htarget.symm]
    by_cases hother : resolvePartition entry.partition fq ≠ target
    · simp [hbase, hunknown, hother]
    have htr : resolvePartition entry.partition fq = target := not_not.mp hother
    simp only [hbase, htr, htarget, ↓reduceIte, ne_eq, not_true_eq_false, not_false_eq_true,
      true_and, and_false, or_false, decide_False, decide_True]
    cases ha : manifestArch entry with
    | error msg =>
      have hno : ¬(entry.transport = .hwbinder ∨ entry.transport = .passthrough ∧ entry.arch ≠ .archEmpty) := by
        rintro (ht | ⟨ht, harch⟩)
        · exact absurd (manifestArch_eq_ok.mpr (.inl ⟨ht, rfl⟩)) (by simp [ha])
        · exact absurd (manifestArch_eq_ok.mpr (.inr ⟨ht, harch, rfl⟩)) (by simp [ha])
      simp [hno]
    | ok arch =>
      rcases manifestArch_eq_ok.mp ha with ⟨ht, rfl⟩ | ⟨ht, harch, rfl⟩
      · simp only [ht, true_or, ↓reduceIte]
        cases vintf.insertInstance manifest fq .hwbinder .archEmpty <;> rfl
      · simp only [ht, harch, ne_eq, not_false_eq_true, and_self, or_true, ↓reduceIte,
          reduceCtorEq]
        cases vintf.insertInstance manifest fq .passthrough entry.arch <;> rfl

/-- The two loops of `dumpVintf` decide every entry as `vintfSpecStep` does. -/
theorem foldl_vintfRound (h : Host) (vintf : Vintf σ) {target : Partition}
    (htarget : target ≠ .unknown) (entries : List TableEntry) (r : VintfRound σ) :
    ((entries.foldl (vintfRound h vintf target) r).error,
        (entries.foldl (vintfRound h vintf target) r).manifest) =
      entries.foldl (vintfSpecStep h vintf target) (r.error, r.manifest) := by
  induction entries generalizing r with
  | nil => rfl
  | cons entry rest ih =>
    rw [List.foldl_cons, List.foldl_cons, ih]
    congr 1
    have hspec := addEntryWithInstance_spec h vintf htarget r.manifest entry
    unfold vintfRound vintfSpecStep
    rcases hadd : addEntryWithInstance h vintf target r.manifest entry with ⟨ok, manifest, msg⟩
    rw [hadd] at hspec
    dsimp only at hspec ⊢
    split at hspec
    · split at hspec <;> cases hspec <;> simp_all
    · cases hspec
      split_ifs <;> rfl

/-- For every services and passthrough-client table and every target partition `dumpVintf`
can run with (`--init-vintf` never leaves it unknown, `parseArgs_vintfReady`), the manifest
and the list of entries not added are those of `vintfSpecStep` over the two tables: an entry
is inserted exactly when `insertionOf` gives its arch, and reported exactly when it was not
inserted successfully and is not exempt. -/
theorem dumpVintf_eq_foldl_vintfSpecStep (h : Host) (vintf : Vintf σ) (c : ListCommand)
    (hpartition : c.mVintfPartition ≠ .unknown) :
    ((dumpVintf h vintf c).error, (dumpVintf h vintf c).manifest) =
      (c.mServicesTable ++ c.mPassthroughRefTable).foldl (vintfSpecStep h vintf c.mVintfPartition)
        ([], vintf.empty (toSchemaType c.mVintfPartition)) := by
  have hservices := foldl_vintfRound h vintf hpartition c.mServicesTable
    ⟨[], vintf.empty (toSchemaType c.mVintfPartition), ""⟩
  dsimp only at hservices
  rw [List.foldl_append, ← hservices, ← foldl_vintfRound h vintf hpartition]
  rfl

end Manifest

/-- A manifest that records every insertion and refuses none. -/
def recordingVintf : Vintf (List (FqInstance × Transport × Arch)) where
  empty := fun _ => []
  insertInstance := fun m fq transport arch => .ok (m ++ [(fq, transport, arch)])
  hasInstanceOfVersion := fun _ _ _ => false
  parseVersion := fun _ => none

/-- A host whose `FqInstance` parser knows a vendor HAL, an `android.hidl.base` instance, a
framework HAL and an `android.hardware` HAL, each with instance `default`. -/
def vintfHost : Host :=
  { Host.bare with
    parseFqInstance := fun s =>
      [("vendor.foo", "IFoo"), ("android.hidl.base", "IBase"), ("android.frameworks.bar", "IBar"),
        ("android.hardware.baz", "IBaz")].findSome? fun (package, name) =>
          if s = package ++ "@1.0::" ++ name ++ "/default" then some ⟨⟨package, some (1, 0), name⟩, "default"⟩
          else none }

/-- An entry of unknown partition. -/
def vintfEntry (interfaceName : String) (transport : Transport) (arch : Arch) : TableEntry :=
  { vintfHost.emptyEntry with interfaceName := interfaceName, transport := transport, arch := arch }

/-- `lshal list --init-vintf --init-vintf-partition=vendor` on tables holding an entry of each
kind: inserted over hwbinder and over passthrough, exempt as `IBase` and as a framework HAL,
and reported for a name that does not parse and for a passthrough HAL without bitness. -/
def vintfCommand : ListCommand :=
  { ListCommand.init with
    mVintf := true
    mVintfPartition := .vendor
    mServicesTable := [vintfEntry "vendor.foo@1.0::IFoo/default" .hwbinder .archEmpty,
      vintfEntry "android.hidl.base@1.0::IBase/default" .hwbinder .archEmpty,
      vintfEntry "android.frameworks.bar@1.0::IBar/default" .hwbinder .archEmpty,
      vintfEntry "bad" .hwbinder .archEmpty]
    mPassthroughRefTable := [vintfEntry "android.hardware.baz@1.0::IBaz/default" .passthrough .archEmpty,
      vintfEntry "vendor.foo@1.0::IFoo/default" .passthrough .arch32] }

theorem dumpVintf_eq_foldl_vintfSpecStep_vendor :
    vintfCommand.mVintfPartition ≠ .unknown ∧
      ((dumpVintf vintfHost recordingVintf vintfCommand).error,
        (dumpVintf vintfHost recordingVintf vintfCommand).manifest) =
      (vintfCommand.mServicesTable ++ vintfCommand.mPassthroughRefTable).foldl
        (vintfSpecStep vintfHost recordingVintf vintfCommand.mVintfPartition)
        ([], recordingVintf.empty (toSchemaType vintfCommand.mVintfPartition)) :=
  ⟨by decide, dumpVintf_eq_foldl_vintfSpecStep _ _ _ (by decide)⟩

end Cmds.Lshal
