import Cmds.Keystore.Execute

/-!
# Where the splitting loop reads and writes

After each delimiter `execute`'s loop steps over one more byte, so it stays inside a request
exactly when the request does not end in the delimiter. For such a request it reads only up to
the request's NUL, writes only before it, and stops without a fault.
-/

namespace Cmds.Keystore

section Inside

variable {L : Limits} {count : Nat} {tail : List UInt8}

/-- The loop's invariant on a request of `count` bytes whose NUL is followed by `tail`: the NUL
and the bytes after it are untouched, the request's last byte is no delimiter, and `cmd`,
every argument and every read are at most `count`. -/
structure Scan.Inside (L : Limits) (count : Nat) (tail : List UInt8) (s : Scan) : Prop where
  drop_eq : s.buf.drop count = 0 :: tail
  last : s.buf[count - 1]? ≠ some L.CMD_DELIMITER
  cmd_le : s.cmd ≤ count
  arg_le : ∀ p ∈ s.arg, p ≤ count
  reads_le : ∀ i ∈ s.reads, i ≤ count

theorem Scan.Inside.nul {s : Scan} (hs : s.Inside L count tail) : s.buf[count]? = some 0 := by
  have h := congrArg (fun l : List UInt8 => l[0]?) hs.drop_eq
  simp only [List.getElem?_drop] at h
  simpa using h

theorem Scan.Inside.cmd_lt_length {s : Scan} (hs : s.Inside L count tail) :
    s.cmd < s.buf.length :=
  Nat.lt_of_le_of_lt hs.cmd_le (List.getElem?_eq_some_iff.mp hs.nul).1

/-- Reading at `cmd`, and moving `cmd` and the arguments to at most `count`, keeps the
invariant. -/
theorem Scan.Inside.read {s : Scan} (hs : s.Inside L count tail) {cmd : Nat} {arg : List Nat}
    (hcmd : cmd ≤ count) (harg : ∀ p ∈ arg, p ≤ count) :
    (⟨s.buf, cmd, arg, s.reads ++ [s.cmd]⟩ : Scan).Inside L count tail := by
  refine ⟨hs.drop_eq, hs.last, hcmd, harg, fun i hi => ?_⟩
  rcases List.mem_append.mp hi with hi | hi
  · exact hs.reads_le i hi
  · rw [List.mem_singleton.mp hi]
    exact hs.cmd_le

/-- So does writing the NUL over a byte before the request's last one. -/
theorem Scan.Inside.set {s : Scan} (hs : s.Inside L count tail) (hlt : s.cmd + 1 < count)
    {cmd : Nat} {arg : List Nat} (hcmd : cmd ≤ count) (harg : ∀ p ∈ arg, p ≤ count) :
    (⟨s.buf.set s.cmd 0, cmd, arg, s.reads ++ [s.cmd]⟩ : Scan).Inside L count tail := by
  have hr := hs.read hcmd harg
  exact ⟨(List.drop_set_of_lt _ _ (by omega)).trans hs.drop_eq,
    by rw [List.getElem?_set_ne (by omega)]; exact hs.last, hcmd, harg, hr.reads_le⟩

/-- Recording the argument after a delimiter before the request's last byte keeps the
arguments at most `count`. -/
theorem Scan.Inside.arg_append {s : Scan} (hs : s.Inside L count tail) (hlt : s.cmd + 1 < count) :
    ∀ p ∈ s.arg ++ [s.cmd + 1], p ≤ count := by
  intro p hp
  rcases List.mem_append.mp hp with hp | hp
  · exact hs.arg_le p hp
  · rw [List.mem_singleton.mp hp]
    omega

theorem round_of_delimiter_tooMany {s : Scan} (hs : s.buf[s.cmd]? = some L.CMD_DELIMITER)
    (hd : L.CMD_DELIMITER ≠ 0) (hn : s.arg.length = L.TOKEN_MAX) :
    round L s =
      (⟨s.buf.set s.cmd 0, s.cmd + 1, s.arg ++ [s.cmd + 1], s.reads ++ [s.cmd]⟩, some .tooMany) := by
  simp [round, hs, hd, hn]

/-- One round keeps the invariant, never faults, and moves `cmd` on when it does not stop. -/
theorem round_inside (hd : L.CMD_DELIMITER ≠ 0) {s : Scan} (hs : s.Inside L count tail) :
    (round L s).1.Inside L count tail ∧ (round L s).2 ≠ some .fault ∧
      ((round L s).2 = none → s.cmd < (round L s).1.cmd) := by
  obtain ⟨b, hb⟩ : ∃ b, s.buf[s.cmd]? = some b := ⟨_, List.getElem?_eq_getElem hs.cmd_lt_length⟩
  by_cases h0 : b = 0
  · subst h0
    rw [round_of_nul hb]
    exact ⟨hs.read hs.cmd_le hs.arg_le, by simp, by simp⟩
  have hne : s.cmd ≠ count := fun h => h0 (Option.some.inj ((h ▸ hb).symm.trans hs.nul))
  have hle := hs.cmd_le
  by_cases hD : b = L.CMD_DELIMITER
  · subst hD
    have hlast : s.cmd ≠ count - 1 := fun h => hs.last (h ▸ hb)
    have harg := hs.arg_append (by omega)
    by_cases hn : s.arg.length = L.TOKEN_MAX
    · rw [round_of_delimiter_tooMany hb hd hn]
      exact ⟨hs.set (by omega) (by omega) harg, by simp, by simp⟩
    · rw [round_of_delimiter hb hd hn]
      exact ⟨hs.set (by omega) (by omega) harg, by simp, fun _ => by simp⟩
  · rw [round_of_plain hb ⟨h0, hD⟩]
    exact ⟨hs.read (by omega) hs.arg_le, by simp, fun _ => by simp⟩

/-- With a round to spare for every byte up to the NUL, the loop keeps the invariant and stops
without a fault. -/
theorem scan_inside (hd : L.CMD_DELIMITER ≠ 0) (fuel : Nat) {s : Scan}
    (hs : s.Inside L count tail) (hfuel : count - s.cmd < fuel) :
    (scan L fuel s).1.Inside L count tail ∧ (scan L fuel s).2 ≠ .fault := by
  induction fuel generalizing s with
  | zero => omega
  | succ fuel ih =>
    obtain ⟨hi, hf, hmove⟩ := round_inside hd hs
    rw [scan_succ]
    split
    · next e he => exact ⟨hi, fun h => hf (h ▸ he)⟩
    · next he => exact ih hi (by have := hmove he; have := hi.cmd_le; omega)

end Inside

/-- The buffer `main` hands over holds the invariant from the start. -/
theorem receive_inside (L : Limits) (request old : List UInt8) (hcount : 1 ≤ request.length)
    (hlast : request.getLast? ≠ some L.CMD_DELIMITER) :
    (⟨receive old request, 0, [0], []⟩ : Scan).Inside L request.length
      (old.drop (request.length + 1)) := by
  refine ⟨by simp [receive], ?_, Nat.zero_le _, by simp, by simp⟩
  dsimp only
  rw [receive, List.append_assoc, List.getElem?_append_left (by omega),
    ← List.getLast?_eq_getElem?]
  exact hlast

theorem one_le_length_of_accepts {L : Limits} {request : List UInt8}
    (haccept : L.accepts request = true) : 1 ≤ request.length :=
  ((L.accepts_eq_true request).mp haccept).1

/-- A request that does not end in the delimiter: the loop reads only up to the request's NUL,
leaves that NUL and the bytes of earlier requests after it as they were, and stops without a
fault. -/
theorem tokenize_inside_request (L : Limits) (hdelim : L.CMD_DELIMITER ≠ 0)
    (request old : List UInt8) (haccept : L.accepts request = true)
    (hlast : request.getLast? ≠ some L.CMD_DELIMITER) :
    (tokenize L (receive old request)).2 ≠ .fault ∧
      (∀ i ∈ (tokenize L (receive old request)).1.reads, i ≤ request.length) ∧
      (tokenize L (receive old request)).1.buf.drop request.length =
        (receive old request).drop request.length := by
  have hinit := receive_inside L request old (one_le_length_of_accepts haccept) hlast
  obtain ⟨hi, hf⟩ := scan_inside hdelim ((receive old request).length + 1) hinit
    (by simp [receive]; omega)
  exact ⟨hf, hi.reads_le, hi.drop_eq.trans hinit.drop_eq.symm⟩

theorem tokenize_inside_request_getcacert :
    (smallLimits.CMD_DELIMITER ≠ 0 ∧ smallLimits.accepts (bytesOf "getcacert" ++ [9, 107]) = true ∧
      (bytesOf "getcacert" ++ [9, 107]).getLast? ≠ some smallLimits.CMD_DELIMITER) ∧
    (tokenize smallLimits (receive (List.replicate 16 65) (bytesOf "getcacert" ++ [9, 107]))).2 ≠ .fault ∧
      (∀ i ∈ (tokenize smallLimits (receive (List.replicate 16 65) (bytesOf "getcacert" ++ [9, 107]))).1.reads,
        i ≤ (bytesOf "getcacert" ++ [9, 107]).length) ∧
      (tokenize smallLimits (receive (List.replicate 16 65) (bytesOf "getcacert" ++ [9, 107]))).1.buf.drop
          (bytesOf "getcacert" ++ [9, 107]).length =
        (receive (List.replicate 16 65) (bytesOf "getcacert" ++ [9, 107])).drop
          (bytesOf "getcacert" ++ [9, 107]).length :=
  ⟨⟨by decide, by decide, by decide⟩,
    tokenize_inside_request smallLimits (by decide) _ _ (by decide) (by decide)⟩

end Cmds.Keystore
