import Mathlib.Data.List.Infix

/-!
# `DumpFileFromFdToFd`: one section of a bug report

`DumpFileFromFdToFd` writes a title line, copies a file descriptor to the output until `select`
fails or times out or `read` ends or fails, and ends the section with the newlines its flag asks
for. The kernel's answers are the rounds the loop consumes; a failed `read`'s message has no
line end, so a section cut short by one ends mid-line.
-/

namespace Cmds.Dumpstate

/-- The bytes of the ASCII text of a format string. -/
def text (s : String) : List UInt8 := s.toList.map fun c => c.toNat.toUInt8

/-- One round of the loop as the kernel answers it: `select` fails, with the `strerror(errno)`
text, or times out, with the `%.3f` text of the seconds it waited; or `fd` is readable and
`read` returns a chunk of at most 65536 bytes, empty at the end of the file, or fails. -/
inductive Round
  | selectFailed (error : List UInt8)
  | timedOut (seconds : List UInt8)
  | read (chunk : List UInt8)
  | readFailed (error : List UInt8)
  deriving DecidableEq, Repr

/-- The `while (true)` loop on the rounds the kernel answers, from the flag `newline`: the bytes
it writes and the flag when it breaks; `none` when the rounds run out before it does. -/
def dumpLoop (path : List UInt8) : List Round → Bool → Option (List UInt8 × Bool)
  | [], _ => none
  | .selectFailed error :: _, _ =>
    some (text "*** " ++ path ++ text ": select failed: " ++ error ++ text "\n", true)
  | .timedOut seconds :: _, _ =>
    some (text "*** " ++ path ++ text ": Timed out after " ++ seconds ++ text "s\n", true)
  | .read chunk :: rest, newline =>
    if chunk ≠ [] then
      (dumpLoop path rest (chunk.getLast? = some 10)).map fun r => (chunk ++ r.1, r.2)
    else some ([], newline)
  | .readFailed error :: _, _ =>
    some (text "*** " ++ path ++ text ": Failed to read from fd: " ++ error, true)

/-- Whether the title line shows the file's modification time: not for a path under `/proc/`,
`/sys/` or `/d/`. -/
def showsStamp (path : List UInt8) : Bool :=
  !(text "/proc/").isPrefixOf path && !(text "/sys/").isPrefixOf path &&
    !(text "/d/").isPrefixOf path

/-- The title line; `stamp` is the `strftime` text of the modification time, `none` when
`fstat` fails. -/
def titleLine (title path : List UInt8) (stamp : Option (List UInt8)) : List UInt8 :=
  text "------ " ++ title ++ text " (" ++ path ++
    (match stamp with
      | some s => if showsStamp path then text ": " ++ s else []
      | none => []) ++ text ") ------\n"

/-- The title line when there is a title. -/
def header (title path : List UInt8) (stamp : Option (List UInt8)) : List UInt8 :=
  if title.isEmpty then [] else titleLine title path stamp

/-- `DumpFileFromFdToFd`: the bytes it writes to `out_fd`, `none` when the rounds run out before
the loop breaks; `toStdout` says whether `out_fd` is `STDOUT_FILENO`. It always returns `0`. -/
def dumpFileFromFdToFd (title path : List UInt8) (stamp : Option (List UInt8))
    (toStdout dryRun : Bool) (rounds : List Round) : Option (List UInt8) :=
  if dryRun then
    some (header title path stamp ++
      if !toStdout then path ++ text ": skipped on dry run\n"
      else if !title.isEmpty then text "\t(skipped on dry run)\n" else [])
  else
    (dumpLoop path rounds false).map fun r =>
      header title path stamp ++ r.1 ++ (if !r.2 then text "\n" else []) ++ (if !title.isEmpty then text "\n" else [])

theorem dumpLoop_read {path chunk : List UInt8} (hc : chunk ≠ []) (rest : List Round)
    (newline : Bool) :
    dumpLoop path (.read chunk :: rest) newline =
      (dumpLoop path rest (chunk.getLast? = some 10)).map fun r => (chunk ++ r.1, r.2) := by
  simp [dumpLoop, hc]

/-- The flag after a run of chunks: whether the last one ended a line. -/
def endsLine (chunks : List (List UInt8)) (newline : Bool) : Bool :=
  chunks.foldl (fun _ chunk => chunk.getLast? = some 10) newline

/-- A run of non-empty chunks is copied as it is, and leaves the flag saying whether the last
one ended a line. -/
theorem dumpLoop_chunks (path : List UInt8) (chunks : List (List UInt8))
    (hchunks : ∀ chunk ∈ chunks, chunk ≠ []) (rest : List Round) (newline : Bool) :
    dumpLoop path (chunks.map .read ++ rest) newline =
      (dumpLoop path rest (endsLine chunks newline)).map fun r => (chunks.flatten ++ r.1, r.2) := by
  induction chunks generalizing newline with
  | nil => simp [endsLine]
  | cons chunk chunks ih =>
    rw [List.map_cons, List.cons_append, dumpLoop_read (hchunks chunk (List.mem_cons_self _ _)),
      ih fun c hc => hchunks c (List.mem_cons_of_mem _ hc)]
    simp [endsLine, Option.map_map, Function.comp_def]

/-- The flag after non-empty chunks is set only by a last chunk that ends a line. -/
theorem endsLine_getLast? {chunks : List (List UInt8)} (hchunks : ∀ chunk ∈ chunks, chunk ≠ [])
    {newline : Bool} (h : endsLine chunks newline = true) :
    chunks = [] ∧ newline = true ∨ chunks.flatten.getLast? = some 10 := by
  induction chunks generalizing newline with
  | nil => exact .inl ⟨rfl, h⟩
  | cons chunk chunks ih =>
    rcases ih (fun c hc => hchunks c (List.mem_cons_of_mem _ hc)) h with ⟨rfl, hl⟩ | hl
    · exact .inr (by simpa using hl)
    · exact .inr (by simp [hl])

/-- Chunks and then the round that ends the loop: the title line, the chunks as they were read,
what the last round writes, a line end unless the flag is set, and one more after a title. -/
theorem dumpFileFromFdToFd_chunks (title path : List UInt8) (stamp : Option (List UInt8))
    (toStdout : Bool) (chunks : List (List UInt8)) (hchunks : ∀ chunk ∈ chunks, chunk ≠ [])
    (last : Round) :
    dumpFileFromFdToFd title path stamp toStdout false (chunks.map .read ++ [last]) =
      (dumpLoop path [last] (endsLine chunks false)).map fun r =>
        header title path stamp ++ chunks.flatten ++ r.1 ++ (if !r.2 then text "\n" else []) ++
          (if !title.isEmpty then text "\n" else []) := by
  simp only [dumpFileFromFdToFd, dumpLoop_chunks path chunks hchunks, Option.map_map,
    Function.comp_def, List.append_assoc, Bool.false_eq_true, ↓reduceIte]

/-- How the property wants a section to end: on a line end, and on a blank line after a
title. -/
def sectionEnd (title : List UInt8) : List UInt8 :=
  if title.isEmpty then text "\n" else text "\n\n"

theorem singleton_suffix_iff {l : List UInt8} {a : UInt8} : [a] <:+ l ↔ l.getLast? = some a := by
  rw [List.getLast?_eq_some_iff]
  exact ⟨fun ⟨t, ht⟩ => ⟨t, ht.symm⟩, fun ⟨t, ht⟩ => ⟨t, ht.symm⟩⟩

/-- Output whose flag is set only after a line end ends as a section should once the fix-up
line ends are written. -/
theorem sectionEnd_suffix (title : List UInt8) {out : List UInt8} {newline : Bool}
    (hout : newline = true → out.getLast? = some 10) :
    sectionEnd title <:+ out ++ (if !newline then text "\n" else []) ++
      (if !title.isEmpty then text "\n" else []) := by
  have hline : [10] <:+ out ++ (if !newline then text "\n" else []) := by
    cases newline
    · exact List.suffix_append _ _
    · simpa [singleton_suffix_iff] using hout rfl
  unfold sectionEnd
  cases title.isEmpty
  · obtain ⟨t, ht⟩ := hline
    refine ⟨t, ?_⟩
    rw [← ht]
    simp only [Bool.false_eq_true, ↓reduceIte, Bool.not_false, List.append_assoc]
    rfl
  · simpa using hline

theorem concat_suffix_concat_iff {l₁ l₂ : List UInt8} {a b : UInt8} :
    l₁ ++ [a] <:+ l₂ ++ [b] ↔ a = b ∧ l₁ <:+ l₂ := by
  rw [← List.reverse_prefix]
  simp

@[simp] theorem text_newline : text "\n" = [10] := rfl

/-- A section whose loop ends at the end of the file, on a failed `select` or on a timeout: the
chunks follow the title line as they were read, and the section ends on a line end, and on a
blank line after a title. -/
theorem dumpFileFromFdToFd_sectionEnd (title path : List UInt8) (stamp : Option (List UInt8))
    (toStdout : Bool) (chunks : List (List UInt8)) (hchunks : ∀ chunk ∈ chunks, chunk ≠ [])
    (last : Round) (hlast : last = .read [] ∨ (∃ error, last = .selectFailed error) ∨
      ∃ seconds, last = .timedOut seconds) :
    ∃ out, dumpFileFromFdToFd title path stamp toStdout false (chunks.map .read ++ [last]) =
        some out ∧ header title path stamp ++ chunks.flatten <+: out ∧ sectionEnd title <:+ out := by
  obtain ⟨r, hr, hnl⟩ : ∃ r, dumpLoop path [last] (endsLine chunks false) = some r ∧
      (r.2 = true → (header title path stamp ++ chunks.flatten ++ r.1).getLast? = some 10) := by
    rcases hlast with rfl | ⟨error, rfl⟩ | ⟨seconds, rfl⟩
    · refine ⟨_, rfl, fun h => ?_⟩
      rcases endsLine_getLast? hchunks h with ⟨-, h⟩ | h
      · cases h
      · simp [h]
    · exact ⟨_, rfl, fun _ => by simp⟩
    · have hs : (text "s\n").getLast? = some 10 := rfl
      exact ⟨_, rfl, fun _ => by simp [hs]⟩
  rw [dumpFileFromFdToFd_chunks title path stamp toStdout chunks hchunks last, hr]
  exact ⟨_, rfl, ((List.prefix_append _ _).trans (List.prefix_append _ _)).trans
    (List.prefix_append _ _), sectionEnd_suffix title hnl⟩

theorem dumpFileFromFdToFd_sectionEnd_proc :
    ((∀ chunk ∈ [text "ab", text "c\n"], chunk ≠ []) ∧
      (Round.read [] = .read [] ∨ (∃ error, Round.read [] = .selectFailed error) ∨
        ∃ seconds, Round.read [] = .timedOut seconds)) ∧
    ∃ out, dumpFileFromFdToFd (text "KERNEL LOG") (text "/proc/kmsg") none false false
        ([text "ab", text "c\n"].map .read ++ [.read []]) = some out ∧
      header (text "KERNEL LOG") (text "/proc/kmsg") none ++ [text "ab", text "c\n"].flatten <+: out ∧
      sectionEnd (text "KERNEL LOG") <:+ out :=
  ⟨⟨by decide, .inl rfl⟩, dumpFileFromFdToFd_sectionEnd (text "KERNEL LOG") (text "/proc/kmsg") none
    false [text "ab", text "c\n"] (by decide) (.read []) (.inl rfl)⟩

/-- A section whose loop ends on a failed `read`, after any chunks: the diagnostic is the last
thing written when there is no title, and a single line end follows it when there is one. So,
unless the `strerror` text ends a line itself, the section ends on neither the line end nor the
blank line the other exits give it. -/
theorem dumpFileFromFdToFd_readFailed (title path : List UInt8) (stamp : Option (List UInt8))
    (toStdout : Bool) (chunks : List (List UInt8)) (hchunks : ∀ chunk ∈ chunks, chunk ≠ [])
    (error : List UInt8) (herror : error.getLast? ≠ some 10) :
    dumpFileFromFdToFd title path stamp toStdout false (chunks.map .read ++ [.readFailed error]) =
        some (header title path stamp ++ chunks.flatten ++ text "*** " ++ path ++
          text ": Failed to read from fd: " ++ error ++ (if !title.isEmpty then text "\n" else [])) ∧
      ¬ sectionEnd title <:+ header title path stamp ++ chunks.flatten ++ text "*** " ++ path ++
          text ": Failed to read from fd: " ++ error ++ (if !title.isEmpty then text "\n" else []) := by
  refine ⟨?_, ?_⟩
  · rw [dumpFileFromFdToFd_chunks title path stamp toStdout chunks hchunks]
    simp [dumpLoop]
  · have hmsg : (text ": Failed to read from fd: ").getLast? = some 32 := rfl
    have hline : ¬ [10] <:+ header title path stamp ++ chunks.flatten ++ text "*** " ++ path ++
        text ": Failed to read from fd: " ++ error := by
      rw [singleton_suffix_iff, List.getLast?_append, List.getLast?_append, hmsg]
      cases he : error.getLast? with
      | none => simp
      | some b => simpa [he] using herror
    unfold sectionEnd
    cases title.isEmpty
    · simp only [Bool.false_eq_true, ↓reduceIte, Bool.not_false, text_newline,
        show text "\n\n" = [10] ++ [10] from rfl, concat_suffix_concat_iff, true_and]
      exact hline
    · simpa using hline

/-- A read error after one line of `/d/tracing/trace_pipe`, in a section without a title. -/
theorem dumpFileFromFdToFd_readFailed_tracePipe :
    ((∀ chunk ∈ [text "abc\n"], chunk ≠ []) ∧ (text "Input/output error").getLast? ≠ some 10) ∧
      (dumpFileFromFdToFd [] (text "/d/tracing/trace_pipe") none true false
          ([text "abc\n"].map .read ++ [.readFailed (text "Input/output error")]) =
        some (header [] (text "/d/tracing/trace_pipe") none ++ [text "abc\n"].flatten ++ text "*** " ++
          text "/d/tracing/trace_pipe" ++ text ": Failed to read from fd: " ++
          text "Input/output error" ++ (if !([] : List UInt8).isEmpty then text "\n" else [])) ∧
      ¬ sectionEnd [] <:+ header [] (text "/d/tracing/trace_pipe") none ++ [text "abc\n"].flatten ++
          text "*** " ++ text "/d/tracing/trace_pipe" ++ text ": Failed to read from fd: " ++
          text "Input/output error" ++ (if !([] : List UInt8).isEmpty then text "\n" else [])) :=
  ⟨⟨by decide, by decide⟩, dumpFileFromFdToFd_readFailed [] (text "/d/tracing/trace_pipe") none true
    [text "abc\n"] (by decide) (text "Input/output error") (by decide)⟩

end Cmds.Dumpstate
