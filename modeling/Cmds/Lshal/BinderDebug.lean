import Cmds.Lshal.Types
import Mathlib.Data.List.Infix

/-!
# The binder debug scanner

`scanBinderContext` hands a line of `/d/binder/proc/<pid>` to its handler only while the last
`context` marker named the wanted context; `getPidInfo` is that scan for `hwbinder`, recording
node references and counting threads. `contextLines` says declaratively which lines it forwards.
-/

namespace Cmds.Lshal

/-- `\s` of an ECMAScript regex on a `char`. -/
def isSpace (c : Char) : Bool :=
  c = ' ' || c = '\t' || c = '\n' || c = '\r' || c = '\x0B' || c = '\x0C'

/-- `\w` of an ECMAScript regex on a `char`. -/
def isWordChar (c : Char) : Bool := c.isAlphanum || c = '_'

/-- `[0-9a-f]`. -/
def isHexLower (c : Char) : Bool := c.isDigit || ('a' ≤ c && c ≤ 'f')

/-- The literal `p` at the start of `s`: what follows it. -/
def lit (p s : List Char) : Option (List Char) :=
  if p.isPrefixOf s then some (s.drop p.length) else none

/-- `[class]+` at the start of `s`, taken greedily: the run and what follows it. -/
def plus (p : Char → Bool) (s : List Char) : Option (List Char × List Char) :=
  match s.span p with
  | ([], _) => none
  | r => some r

/-- `kContextLine`, `^context (\w+)$`: the context a marker line names. -/
def matchContextLine (line : String) : Option String := do
  let s ← lit "context ".toList line.toList
  let (name, rest) ← plus isWordChar s
  if rest.isEmpty then some (String.mk name) else none

/-- `kReferencePrefix`, `^\s*node \d+:\s+u([0-9a-f]+)\s+c([0-9a-f]+)\s+`: its second group. -/
def matchReference (line : List Char) : Option (List Char) := do
  let s ← lit "node ".toList (line.dropWhile isSpace)
  let (_, s) ← plus Char.isDigit s
  let s ← lit [':'] s
  let (_, s) ← plus isSpace s
  let s ← lit ['u'] s
  let (_, s) ← plus isHexLower s
  let (_, s) ← plus isSpace s
  let s ← lit ['c'] s
  let (ptr, s) ← plus isHexLower s
  let _ ← plus isSpace s
  return ptr

/-- `kThreadPrefix`, `^\s*thread \d+:\s+l\s+(\d)(\d)`: its two digits. -/
def matchThread (line : List Char) : Option (Char × Char) := do
  let s ← lit "thread ".toList (line.dropWhile isSpace)
  let (_, s) ← plus Char.isDigit s
  let s ← lit [':'] s
  let (_, s) ← plus isSpace s
  let s ← lit ['l'] s
  let (_, s) ← plus isSpace s
  match s with
  | a :: b :: _ => if a.isDigit && b.isDigit then some (a, b) else none
  | _ => none

private theorem isPrefixOf_thread_of_node {s : List Char}
    (h : "node ".toList.isPrefixOf s = true) : "thread ".toList.isPrefixOf s = false := by
  cases s with
  | nil => exact absurd h (by decide)
  | cons c s =>
    have hc : 'n' = c ∧ ['o', 'd', 'e', ' '] <+: s := by
      simpa [show "node ".toList = ['n', 'o', 'd', 'e', ' '] from rfl] using h
    obtain ⟨rfl, -⟩ := hc
    rfl

/-- No line is both a node line and a thread line. -/
theorem matchThread_eq_none_of_matchReference {line ptr : List Char}
    (h : matchReference line = some ptr) : matchThread line = none := by
  have hn : "node ".toList.isPrefixOf (line.dropWhile isSpace) = true := by
    simp only [matchReference, lit] at h
    split_ifs at h with hn
    · exact hn
    · simp at h
  simp only [matchThread, lit, isPrefixOf_thread_of_node hn, Bool.false_eq_true, ↓reduceIte]
  rfl

/-- The text after the last occurrence of `pat` in `s` (`rfind`). -/
def afterLast (pat : List Char) : List Char → Option (List Char)
  | [] => if pat = [] then some [] else none
  | c :: rest =>
    match afterLast pat rest with
    | some r => some r
    | none => if pat.isPrefixOf (c :: rest) then some ((c :: rest).drop pat.length) else none

/-- The thread branch: a thread whose second digit is `0` has called into binder and is not
counted; every other one counts, and is in use unless it waits in the driver (`1`). -/
def countThread (inUse looper : Char) (info : PidInfo) : PidInfo :=
  if looper = '0' then info
  else { info with
    threadUsage := if inUse ≠ '1' then (info.threadUsage + 1) % 2 ^ 32 else info.threadUsage
    threadCount := (info.threadCount + 1) % 2 ^ 32 }

/-- The loop over the pids after ` proc `: each parsed pid is pushed under `ptr`; the first
one that does not parse ends the line. -/
def addRefPids (h : Host) (ptr : UInt64) : List String → PidInfo × String → PidInfo × String
  | [], acc => acc
  | pidStr :: rest, (info, err) =>
    match h.ParseInt pidStr with
    | none => (info, err ++ "Could not parse number " ++ pidStr ++ "\n")
    | some pid => addRefPids h ptr rest ({ info with refPids := info.refPids.push ptr pid }, err)

/-- The lambda `getPidInfo` hands to `scanBinderContext`, on the `PidInfo` it fills and the
text written to `err()`. -/
def pidInfoLine (h : Host) : PidInfo × String → String → PidInfo × String
  | (info, err), line =>
    match matchReference line.toList with
    | some ptrDigits =>
      match h.ParseUint ("0x" ++ String.mk ptrDigits) with
      | none => (info, err ++ "Could not parse number " ++ ("0x" ++ String.mk ptrDigits) ++ "\n")
      | some ptr =>
        match afterLast " proc ".toList line.toList with
        | none => (info, err)
        | some rest => addRefPids h ptr (split (String.mk rest) ' ') (info, err)
    | none =>
      match matchThread line.toList with
      | some (inUse, looper) => (countThread inUse looper info, err)
      | none => (info, err)

/-- The loop of `scanBinderContext` over the lines of the opened file, the flag being
`isDesiredContext`. -/
def scanLines {σ : Type} (contextName : String) (eachLine : σ → String → σ) :
    Bool → σ → List String → σ
  | _, s, [] => s
  | isDesiredContext, s, line :: rest =>
    match matchContextLine line with
    | some name => scanLines contextName eachLine (name == contextName) s rest
    | none =>
      scanLines contextName eachLine isDesiredContext
        (if isDesiredContext then eachLine s line else s) rest

/-- `scanBinderContext`: `none` when `/d/binder/proc/<pid>` cannot be opened. -/
def scanBinderContext {σ : Type} (h : Host) (pid : Int) (contextName : String)
    (eachLine : σ → String → σ) (s : σ) : Option σ :=
  (h.binderProc pid).map (scanLines contextName eachLine false s)

/-- `ListCommand::getPidInfo`, on the `PidInfo` it fills and the text written to `err()`;
`none` is the `false` it returns when the file cannot be opened. -/
def getPidInfo (h : Host) (serverPid : Int) (acc : PidInfo × String) :
    Option (PidInfo × String) :=
  scanBinderContext h serverPid "hwbinder" (pidInfoLine h) acc

/-- The context named by the nearest marker line among `before`, if there is one. -/
def currentContext (before : List String) : Option String :=
  before.reverse.findSome? matchContextLine

/-- A line together with the lines before it is forwarded when it is no marker and the
nearest marker before it names `contextName`. -/
def forwards (contextName : String) (p : String × List String) : Bool :=
  (matchContextLine p.1).isNone && currentContext p.2 == some contextName

/-- The subsequence of `lines` a scan for `contextName` forwards, stated line by line. -/
def contextLines (contextName : String) (lines : List String) : List String :=
  ((lines.zip lines.inits).filter (forwards contextName)).map Prod.fst

@[simp] theorem currentContext_nil : currentContext [] = none := rfl

theorem currentContext_append_of_marker {pre : List String} {line name : String}
    (h : matchContextLine line = some name) : currentContext (pre ++ [line]) = some name := by
  simp [currentContext, h]

theorem currentContext_append_of_not_marker (pre : List String) {line : String}
    (h : matchContextLine line = none) :
    currentContext (pre ++ [line]) = currentContext pre := by
  simp [currentContext, h]

/-- The scan after the lines `pre` folds the handler over exactly the forwarded lines of the
rest, judged with `pre` in front of them. -/
theorem scanLines_eq_foldl_of_prefix {σ : Type} (contextName : String)
    (eachLine : σ → String → σ) (pre rest : List String) (s : σ) :
    scanLines contextName eachLine (currentContext pre == some contextName) s rest =
      (((rest.zip (rest.inits.map (pre ++ ·))).filter (forwards contextName)).map
        Prod.fst).foldl eachLine s := by
  induction rest generalizing pre s with
  | nil => rfl
  | cons line rest ih =>
    have hinits : ((line :: rest).inits.map (pre ++ ·)) =
        pre :: rest.inits.map ((pre ++ [line]) ++ ·) := by
      simp [List.inits_cons, Function.comp_def]
    rw [hinits, List.zip_cons_cons]
    cases hm : matchContextLine line with
    | some name =>
      have hflag : (name == contextName) = (currentContext (pre ++ [line]) == some contextName) := by
        rw [currentContext_append_of_marker hm]
        by_cases hc : name = contextName <;> simp [hc]
      simp only [scanLines, hm, hflag, ih, List.filter_cons, forwards, Option.isNone_some,
        Bool.false_and, Bool.false_eq_true, ↓reduceIte]
    | none =>
      have hflag := currentContext_append_of_not_marker pre hm
      simp only [scanLines, hm, List.filter_cons, forwards, Option.isNone_none, Bool.true_and]
      rw [← hflag, ih]
      cases hc : currentContext (pre ++ [line]) == some contextName <;> simp [hflag ▸ hc, forwards]

/-- The two-state scan of a whole text folds its handler over `contextLines`. -/
theorem scanLines_eq_foldl {σ : Type} (contextName : String) (eachLine : σ → String → σ)
    (lines : List String) (s : σ) :
    scanLines contextName eachLine false s lines =
      (contextLines contextName lines).foldl eachLine s := by
  have h := scanLines_eq_foldl_of_prefix contextName eachLine [] lines s
  simpa [contextLines] using h

/-- Pairing a text with its prefixes puts each line after exactly its prefix. -/
theorem exists_eq_append_of_mem_zip_inits {text before : List String} {line : String}
    (h : (line, before) ∈ text.zip text.inits) : ∃ suf, text = before ++ line :: suf := by
  induction text generalizing before with
  | nil => simp at h
  | cons l rest ih =>
    rw [List.inits_cons, List.zip_cons_cons, List.zip_map_right] at h
    rcases List.mem_cons.mp h with h | h
    · obtain ⟨rfl, rfl⟩ := Prod.mk.inj h
      exact ⟨rest, rfl⟩
    · obtain ⟨⟨a, b⟩, hm, he⟩ := List.mem_map.mp h
      obtain ⟨rfl, rfl⟩ := Prod.mk.inj he
      obtain ⟨suf, rfl⟩ := ih hm
      exact ⟨suf, rfl⟩

/-- The forwarded lines are a subsequence of the text. -/
theorem contextLines_sublist (contextName : String) (text : List String) :
    (contextLines contextName text).Sublist text := by
  have hfst : (text.zip text.inits).map Prod.fst = text :=
    List.map_fst_zip _ _ (by simp)
  have hs : (contextLines contextName text).Sublist ((text.zip text.inits).map Prod.fst) :=
    (List.filter_sublist _).map _
  rwa [hfst] at hs

/-- A forwarded line is no marker, and the nearest marker before it names the context. -/
theorem mem_contextLines {contextName line : String} {text : List String}
    (h : line ∈ contextLines contextName text) :
    matchContextLine line = none ∧
      ∃ pre suf, text = pre ++ line :: suf ∧ currentContext pre = some contextName := by
  obtain ⟨⟨l, before⟩, hm, rfl⟩ := List.mem_map.mp h
  obtain ⟨hz, hf⟩ := List.mem_filter.mp hm
  simp only [forwards, Bool.and_eq_true, Option.isNone_iff_eq_none, beq_iff_eq] at hf
  obtain ⟨suf, hs⟩ := exists_eq_append_of_mem_zip_inits hz
  exact ⟨hf.1, before, suf, hs, hf.2⟩

/-- `getPidInfo` folds its handler over the hwbinder lines of the process's binder text. -/
theorem getPidInfo_eq_map_foldl (h : Host) (acc : PidInfo × String) (pid : Int) :
    getPidInfo h pid acc = (h.binderProc pid).map
      (fun text => (contextLines "hwbinder" text).foldl (pidInfoLine h) acc) := by
  simp only [getPidInfo, scanBinderContext]
  congr 1
  funext text
  exact scanLines_eq_foldl _ _ _ _

/-- `getPidInfo` on any readable text folds its handler over the hwbinder lines of the text,
so it reads nothing else: two processes whose texts have the same hwbinder lines get the
same `PidInfo`, and no marker line nor line of another context ever contributes to it. -/
theorem getPidInfo_eq_foldl_contextLines (h : Host) (acc : PidInfo × String) :
    (∀ pid, getPidInfo h pid acc = (h.binderProc pid).map
        (fun text => (contextLines "hwbinder" text).foldl (pidInfoLine h) acc)) ∧
      (∀ pid pid' text text', h.binderProc pid = some text → h.binderProc pid' = some text' →
        contextLines "hwbinder" text = contextLines "hwbinder" text' →
          getPidInfo h pid acc = getPidInfo h pid' acc) ∧
      ∀ text, (contextLines "hwbinder" text).Sublist text ∧
        ∀ line ∈ contextLines "hwbinder" text, matchContextLine line = none ∧
          ∃ pre suf, text = pre ++ line :: suf ∧ currentContext pre = some "hwbinder" := by
  refine ⟨getPidInfo_eq_map_foldl h acc, fun pid pid' text text' ht ht' he => ?_, fun text =>
    ⟨contextLines_sublist _ text, fun line hl => mem_contextLines hl⟩⟩
  simp only [getPidInfo_eq_map_foldl, ht, ht', Option.map_some', he]

/-- The looper digits of a line the counters count: a thread line whose second digit is
not `0`. -/
def threadOf (line : String) : Option (Char × Char) :=
  (matchThread line.toList).filter (·.2 ≠ '0')

/-- The counted threads among the hwbinder lines of a text. -/
def hwbinderThreads (text : List String) : List (Char × Char) :=
  (contextLines "hwbinder" text).filterMap threadOf

/-- The threads among them that are in use, i.e. not waiting in the driver. -/
def busyThreads (threads : List (Char × Char)) : List (Char × Char) :=
  threads.filter (·.1 ≠ '1')

@[simp] theorem addRefPids_threadCount (h : Host) (ptr : UInt64) (strs : List String)
    (acc : PidInfo × String) : (addRefPids h ptr strs acc).1.threadCount = acc.1.threadCount := by
  induction strs generalizing acc with
  | nil => rfl
  | cons s rest ih =>
    obtain ⟨info, err⟩ := acc
    simp only [addRefPids]
    split <;> simp [ih]

@[simp] theorem addRefPids_threadUsage (h : Host) (ptr : UInt64) (strs : List String)
    (acc : PidInfo × String) : (addRefPids h ptr strs acc).1.threadUsage = acc.1.threadUsage := by
  induction strs generalizing acc with
  | nil => rfl
  | cons s rest ih =>
    obtain ⟨info, err⟩ := acc
    simp only [addRefPids]
    split <;> simp [ih]

/-- One line moves the counters by the thread it is, if it is a counted one: the reference
branch and the other lines leave them alone. -/
theorem pidInfoLine_threads (h : Host) (acc : PidInfo × String) (line : String) :
    (pidInfoLine h acc line).1.threadCount =
        (if (threadOf line).isSome then (acc.1.threadCount + 1) % 2 ^ 32
          else acc.1.threadCount) ∧
      (pidInfoLine h acc line).1.threadUsage =
        (if ((threadOf line).filter (·.1 ≠ '1')).isSome then (acc.1.threadUsage + 1) % 2 ^ 32
          else acc.1.threadUsage) := by
  obtain ⟨info, err⟩ := acc
  cases hr : matchReference line.toList with
  | some ptr =>
    have ht : threadOf line = none := by
      simp only [threadOf, matchThread_eq_none_of_matchReference hr]
      rfl
    simp only [pidInfoLine, hr, ht, Option.filter_none]
    split
    · simp
    · split <;> simp
  | none =>
    simp only [pidInfoLine, hr, threadOf]
    cases hm : matchThread line.toList with
    | none => simp
    | some d =>
      obtain ⟨inUse, looper⟩ := d
      by_cases hl : looper = '0' <;> by_cases hu : inUse = '1' <;>
        simp [countThread, hl, hu, Option.filter]

theorem busyThreads_length_le (threads : List (Char × Char)) :
    (busyThreads threads).length ≤ threads.length := List.length_filter_le _ _

/-- Folding the handler adds the counted threads of the lines to the counters, modulo
`2 ^ 32`. -/
theorem foldl_pidInfoLine_threads (h : Host) (lines : List String) (acc : PidInfo × String)
    (hc : acc.1.threadCount < 2 ^ 32) (hu : acc.1.threadUsage < 2 ^ 32) :
    (lines.foldl (pidInfoLine h) acc).1.threadCount =
        (acc.1.threadCount + (lines.filterMap threadOf).length) % 2 ^ 32 ∧
      (lines.foldl (pidInfoLine h) acc).1.threadUsage =
        (acc.1.threadUsage + (busyThreads (lines.filterMap threadOf)).length) % 2 ^ 32 := by
  induction lines generalizing acc with
  | nil => exact ⟨(Nat.mod_eq_of_lt hc).symm, (Nat.mod_eq_of_lt hu).symm⟩
  | cons line rest ih =>
    obtain ⟨hc', hu'⟩ := pidInfoLine_threads h acc line
    obtain ⟨ih₁, ih₂⟩ := ih (pidInfoLine h acc line) (by rw [hc']; split <;> omega)
      (by rw [hu']; split <;> omega)
    rw [List.foldl_cons, ih₁, ih₂, hc', hu']
    cases ht : threadOf line with
    | none => simp [List.filterMap_cons, ht]
    | some d =>
      by_cases hd : d.1 = '1' <;>
        simp [List.filterMap_cons, ht, hd, busyThreads, Option.filter] <;> omega

/-- A readable text of fewer than `2 ^ 32` lines gives counters that are exactly its counted
hwbinder threads and the busy ones among them. -/
theorem getPidInfo_threads (h : Host) {pid : Int} {text : List String} (err : String)
    (hread : h.binderProc pid = some text) (hlen : text.length < 2 ^ 32) :
    ∃ out, getPidInfo h pid (PidInfo.empty, err) = some out ∧
      out.1.threadCount = (hwbinderThreads text).length ∧
      out.1.threadUsage = (busyThreads (hwbinderThreads text)).length := by
  have hsub := (contextLines_sublist "hwbinder" text).length_le
  have hbusy := busyThreads_length_le ((contextLines "hwbinder" text).filterMap threadOf)
  have hthreads := List.length_filterMap_le threadOf (contextLines "hwbinder" text)
  obtain ⟨hc, hu⟩ := foldl_pidInfoLine_threads h (contextLines "hwbinder" text)
    (PidInfo.empty, err) (by simp [PidInfo.empty]) (by simp [PidInfo.empty])
  refine ⟨_, by rw [getPidInfo_eq_map_foldl, hread]; rfl, ?_, ?_⟩
  · rw [hc]
    simp only [PidInfo.empty, hwbinderThreads, Nat.zero_add]
    exact Nat.mod_eq_of_lt (by omega)
  · rw [hu]
    simp only [PidInfo.empty, hwbinderThreads, Nat.zero_add]
    exact Nat.mod_eq_of_lt (by omega)

end Cmds.Lshal
