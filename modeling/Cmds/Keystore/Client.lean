import Cmds.Keystore.Execute

/-!
# keystore's command-line client

`shell_command` joins its arguments with `CMD_DELIMITER` into one request. The daemon's loop
undoes the join exactly when no argument after the first is empty: after an empty argument the
byte it steps over is the next delimiter, which then starts the next argument.
-/

namespace Cmds.Keystore

/-- `strlcat(dst, src, BUFFER_MAX)` on C strings: `dst` with as much of `src` as fits before the
last byte of the buffer, and the length it tried to create. -/
def strlcat (L : Limits) (dst src : List UInt8) : List UInt8 × Nat :=
  (dst ++ src.take (L.BUFFER_MAX - 1 - dst.length), dst.length + src.length)

/-- The loop of `shell_command` over `argv`: the joined request, or `none` where it exits with
"Arguments are too long". -/
def joinArgs (L : Limits) (buf : List UInt8) : Bool → List (List UInt8) → Option (List UInt8)
  | _, [] => some buf
  | first, arg :: rest =>
    let buf := if first then buf else (strlcat L buf [L.CMD_DELIMITER]).1
    if (strlcat L buf arg).2 ≥ L.BUFFER_MAX then none
    else joinArgs L (strlcat L buf arg).1 false rest

/-- The request `shell_command` sends for `argv`, when it sends one. -/
def shellRequest (L : Limits) (argv : List (List UInt8)) : Option (List UInt8) :=
  joinArgs L [] true argv

/-- While everything fits, the loop appends a delimiter and each argument. -/
theorem joinArgs_of_fits (L : Limits) (buf : List UInt8) (rest : List (List UInt8))
    (hfit : buf.length + (rest.flatMap (L.CMD_DELIMITER :: ·)).length < L.BUFFER_MAX) :
    joinArgs L buf false rest = some (buf ++ rest.flatMap (L.CMD_DELIMITER :: ·)) := by
  induction rest generalizing buf with
  | nil => simp [joinArgs]
  | cons arg rest ih =>
    simp only [List.flatMap_cons, List.length_append, List.length_cons] at hfit
    have hd : (strlcat L buf [L.CMD_DELIMITER]).1 = buf ++ [L.CMD_DELIMITER] := by
      simp [strlcat]
      omega
    have ha : strlcat L (buf ++ [L.CMD_DELIMITER]) arg =
        (buf ++ [L.CMD_DELIMITER] ++ arg, buf.length + 1 + arg.length) := by
      simp [strlcat, List.take_of_length_le (show arg.length ≤ L.BUFFER_MAX - 1 - (buf.length + 1) by omega)]
    simp only [joinArgs, Bool.false_eq_true, ↓reduceIte, hd, ha]
    rw [if_neg (by omega), ih _ (by simp only [List.length_append, List.length_singleton]; omega)]
    simp

/-- Arguments whose join is shorter than the buffer are sent joined with the delimiter. -/
theorem shellRequest_of_fits (L : Limits) (arg : List UInt8) (rest : List (List UInt8))
    (hfit : arg.length + (rest.flatMap (L.CMD_DELIMITER :: ·)).length < L.BUFFER_MAX) :
    shellRequest L (arg :: rest) = some (arg ++ rest.flatMap (L.CMD_DELIMITER :: ·)) := by
  have ha : strlcat L [] arg = (arg, arg.length) := by
    simp [strlcat, List.take_of_length_le (show arg.length ≤ L.BUFFER_MAX - 1 by omega)]
  simp only [shellRequest, joinArgs, ↓reduceIte, ha]
  rw [if_neg (by omega), joinArgs_of_fits L arg rest hfit]

/-- Where the split buffer holds the arguments `rest`, the first at `base`. -/
def starts (base : Nat) : List (List UInt8) → List Nat
  | [] => []
  | r :: rest => base :: starts (base + r.length + 1) rest

/-- Every argument stands, NUL-terminated, where `starts` says. -/
theorem map_cstr_starts (pre : List UInt8) (rest : List (List UInt8)) (post : List UInt8)
    (hrest : ∀ r ∈ rest, ∀ b ∈ r, b ≠ 0) :
    (starts (pre.length + 1) rest).map (cstr (pre ++ rest.flatMap (0 :: ·) ++ 0 :: post)) = rest := by
  induction rest generalizing pre with
  | nil => rfl
  | cons r rest ih =>
    obtain ⟨tail, htail⟩ : ∃ tail, rest.flatMap (0 :: ·) ++ 0 :: post = 0 :: tail := by
      cases rest <;> simp
    have hr : cstr (pre ++ 0 :: (r ++ (rest.flatMap (0 :: ·) ++ 0 :: post))) (pre.length + 1) = r := by
      have h := cstr_of_nul (pre ++ [0]) r tail (hrest r (List.mem_cons_self _ _))
      simp only [List.append_assoc, List.singleton_append, List.length_append,
        List.length_singleton] at h
      rw [htail]
      exact h
    have ih' := ih (pre ++ 0 :: r) fun r' hr' => hrest r' (List.mem_cons_of_mem _ hr')
    simp only [List.length_append, List.length_cons, List.append_assoc, List.cons_append] at ih'
    simp only [starts, List.map_cons, List.flatMap_cons, List.append_assoc, List.cons_append, hr]
    rw [show pre.length + 1 + r.length + 1 = pre.length + (r.length + 1) + 1 by omega, ih']

/-- The loop over a token `seg` and the non-empty tokens `rest` after it, each behind a
delimiter: it writes a NUL over every delimiter, records where each token of `rest` starts,
and stops at the request's NUL. -/
theorem scan_join (L : Limits) (hd : L.CMD_DELIMITER ≠ 0) (fuel : Nat) (pre seg : List UInt8)
    (rest : List (List UInt8)) (post : List UInt8) (s : Scan)
    (hbuf : s.buf = pre ++ seg ++ rest.flatMap (L.CMD_DELIMITER :: ·) ++ 0 :: post)
    (hcmd : s.cmd = pre.length) (hseg : ∀ b ∈ seg, L.Plain b)
    (hrest : ∀ r ∈ rest, r ≠ [] ∧ ∀ b ∈ r, L.Plain b)
    (hn : s.arg.length + rest.length ≤ L.TOKEN_MAX) :
    ∃ reads, scan L (fuel + seg.length + (rest.flatMap (L.CMD_DELIMITER :: ·)).length + 1) s =
      (⟨pre ++ seg ++ rest.flatMap (0 :: ·) ++ 0 :: post,
        pre.length + seg.length + (rest.flatMap (L.CMD_DELIMITER :: ·)).length,
        s.arg ++ starts (pre.length + seg.length + 1) rest, reads⟩, .nul) := by
  induction rest generalizing fuel pre seg s with
  | nil =>
    rw [List.flatMap_nil, List.length_nil, Nat.add_zero, show fuel + seg.length + 1 =
      fuel + 1 + seg.length by omega, scan_plain _ pre seg (0 :: post) s (by simpa using hbuf) hcmd
      hseg, scan_succ, round_of_nul]
    · refine ⟨s.reads ++ List.range' s.cmd seg.length ++ [s.cmd + seg.length], ?_⟩
      simp [hbuf, hcmd, starts]
    · dsimp only
      rw [hbuf, hcmd, List.flatMap_nil, List.append_nil, ← List.length_append]
      exact getElem?_length_append _ _ _
  | cons r rest ih =>
    cases r with
    | nil => exact absurd rfl (hrest [] (List.mem_cons_self _ _)).1
    | cons r₀ r' =>
      have hplain := (hrest _ (List.mem_cons_self _ _)).2
      simp only [List.length_cons] at hn
      have htoken := scan_token (L := L)
        (fuel + 1 + r'.length + (rest.flatMap (L.CMD_DELIMITER :: ·)).length + 1) pre seg
        (r₀ :: r' ++ rest.flatMap (L.CMD_DELIMITER :: ·) ++ 0 :: post) s (by simp [hbuf]) hcmd
        hseg hd (by omega)
      obtain ⟨reads, hscan⟩ := ih (fuel + 1) (pre ++ seg ++ [0, r₀]) r'
        ⟨pre ++ seg ++ 0 :: (r₀ :: r' ++ rest.flatMap (L.CMD_DELIMITER :: ·) ++ 0 :: post),
          pre.length + seg.length + 2, s.arg ++ [pre.length + seg.length + 1],
          s.reads ++ List.range' pre.length (seg.length + 1)⟩
        (by simp) (by simp only [List.length_append, List.length_cons, List.length_nil])
        (fun b hb => hplain b (List.mem_cons_of_mem _ hb))
        (fun r hr => hrest r (List.mem_cons_of_mem _ hr))
        (by simp only [List.length_append, List.length_singleton]; omega)
      have hbase : (pre ++ seg ++ [0, r₀]).length + r'.length + 1 =
          pre.length + seg.length + 1 + (r₀ :: r').length + 1 := by
        simp only [List.length_append, List.length_cons, List.length_nil]
        omega
      refine ⟨reads, ?_⟩
      rw [show fuel + seg.length + (((r₀ :: r') :: rest).flatMap (L.CMD_DELIMITER :: ·)).length + 1 =
        fuel + 1 + r'.length + (rest.flatMap (L.CMD_DELIMITER :: ·)).length + 1 + seg.length + 1 by
          simp only [List.flatMap_cons, List.length_append, List.length_cons]; omega, htoken, hscan,
        hbase]
      simp only [List.length_append, List.length_cons, List.length_nil, List.flatMap_cons, starts,
        List.append_assoc, List.cons_append, List.nil_append, List.singleton_append, Scan.mk.injEq,
        Prod.mk.injEq, and_true, true_and]
      omega

/-- The daemon's split of a joined request: a NUL over each delimiter, `cmd` at the request's
NUL, and an argument where each of the client's arguments starts. -/
theorem tokenize_receive_join (L : Limits) (hdelim : L.CMD_DELIMITER ≠ 0) (a : List UInt8)
    (rest : List (List UInt8)) (ha : ∀ b ∈ a, L.Plain b)
    (hrest : ∀ r ∈ rest, r ≠ [] ∧ ∀ b ∈ r, L.Plain b) (htoken : rest.length < L.TOKEN_MAX)
    (old : List UInt8) :
    ∃ reads, tokenize L (receive old (a ++ rest.flatMap (L.CMD_DELIMITER :: ·))) =
      (⟨a ++ rest.flatMap (0 :: ·) ++ 0 :: old.drop ((a ++ rest.flatMap (L.CMD_DELIMITER :: ·)).length + 1),
        (a ++ rest.flatMap (L.CMD_DELIMITER :: ·)).length, 0 :: starts (a.length + 1) rest, reads⟩,
        .nul) := by
  set post := old.drop ((a ++ rest.flatMap (L.CMD_DELIMITER :: ·)).length + 1)
  have hbuf : receive old (a ++ rest.flatMap (L.CMD_DELIMITER :: ·)) =
      [] ++ a ++ rest.flatMap (L.CMD_DELIMITER :: ·) ++ 0 :: post := by
    simp [receive, post]
  obtain ⟨reads, hscan⟩ := scan_join L hdelim (post.length + 1) [] a rest post
    ⟨receive old (a ++ rest.flatMap (L.CMD_DELIMITER :: ·)), 0, [0], []⟩ hbuf rfl ha hrest
    (by simp only [List.length_singleton]; omega)
  refine ⟨reads, ?_⟩
  rw [tokenize, show (receive old (a ++ rest.flatMap (L.CMD_DELIMITER :: ·))).length + 1 =
    post.length + 1 + a.length + (rest.flatMap (L.CMD_DELIMITER :: ·)).length + 1 by
      rw [hbuf]; simp only [List.length_append, List.length_nil, List.length_cons]; omega, hscan]
  simp

/-- The C strings at the arguments of the split are the client's arguments. -/
theorem map_cstr_join (L : Limits) (a : List UInt8) (rest : List (List UInt8)) (post : List UInt8)
    (ha : ∀ b ∈ a, L.Plain b) (hrest : ∀ r ∈ rest, r ≠ [] ∧ ∀ b ∈ r, L.Plain b) :
    (0 :: starts (a.length + 1) rest).map (cstr (a ++ rest.flatMap (0 :: ·) ++ 0 :: post)) =
      a :: rest := by
  obtain ⟨tail, htail⟩ : ∃ tail, rest.flatMap (0 :: ·) ++ 0 :: post = 0 :: tail := by
    cases rest <;> simp
  have ha₀ := cstr_of_nul [] a tail fun b hb => (ha b hb).1
  rw [List.map_cons, map_cstr_starts a rest post fun r hr b hb => ((hrest r hr).2 b hb).1,
    List.append_assoc, htail]
  simpa using ha₀

/-- Arguments after the first that are all non-empty, fewer than `TOKEN_MAX` of them, and short
enough to join: `main` accepts the request unless it is empty, and the daemon splits it back
into exactly the client's arguments. -/
theorem tokenize_shellRequest (L : Limits) (hdelim : L.CMD_DELIMITER ≠ 0) (a : List UInt8)
    (rest : List (List UInt8)) (ha : ∀ b ∈ a, L.Plain b)
    (hrest : ∀ r ∈ rest, r ≠ [] ∧ ∀ b ∈ r, L.Plain b) (htoken : rest.length < L.TOKEN_MAX)
    (hfit : a.length + (rest.flatMap (L.CMD_DELIMITER :: ·)).length < L.BUFFER_MAX)
    (old : List UInt8) :
    shellRequest L (a :: rest) = some (a ++ rest.flatMap (L.CMD_DELIMITER :: ·)) ∧
      (a ++ rest.flatMap (L.CMD_DELIMITER :: ·) ≠ [] →
        L.accepts (a ++ rest.flatMap (L.CMD_DELIMITER :: ·)) = true) ∧
      (tokenize L (receive old (a ++ rest.flatMap (L.CMD_DELIMITER :: ·)))).2 = .nul ∧
      (tokenize L (receive old (a ++ rest.flatMap (L.CMD_DELIMITER :: ·)))).1.arg.map
        (cstr (tokenize L (receive old (a ++ rest.flatMap (L.CMD_DELIMITER :: ·)))).1.buf) =
        a :: rest := by
  obtain ⟨reads, htok⟩ := tokenize_receive_join L hdelim a rest ha hrest htoken old
  refine ⟨shellRequest_of_fits L a rest hfit, fun hne => ?_, by rw [htok], ?_⟩
  · have := List.length_pos.mpr hne
    rw [Limits.accepts_eq_true]
    simp only [List.length_append] at this ⊢
    omega
  · rw [htok]
    exact map_cstr_join L a rest _ ha hrest

theorem tokenize_shellRequest_getusercert :
    (smallLimits.CMD_DELIMITER ≠ 0 ∧ (∀ b ∈ bytesOf "getusercert", smallLimits.Plain b) ∧
      (∀ r ∈ [bytesOf "k"], r ≠ [] ∧ ∀ b ∈ r, smallLimits.Plain b) ∧
      [bytesOf "k"].length < smallLimits.TOKEN_MAX ∧
      (bytesOf "getusercert").length + ([bytesOf "k"].flatMap (smallLimits.CMD_DELIMITER :: ·)).length <
        smallLimits.BUFFER_MAX) ∧
    shellRequest smallLimits [bytesOf "getusercert", bytesOf "k"] =
        some (bytesOf "getusercert" ++ [bytesOf "k"].flatMap (smallLimits.CMD_DELIMITER :: ·)) ∧
      (bytesOf "getusercert" ++ [bytesOf "k"].flatMap (smallLimits.CMD_DELIMITER :: ·) ≠ [] →
        smallLimits.accepts (bytesOf "getusercert" ++ [bytesOf "k"].flatMap (smallLimits.CMD_DELIMITER :: ·)) = true) ∧
      (tokenize smallLimits (receive (List.replicate 16 65)
        (bytesOf "getusercert" ++ [bytesOf "k"].flatMap (smallLimits.CMD_DELIMITER :: ·)))).2 = .nul ∧
      (tokenize smallLimits (receive (List.replicate 16 65)
        (bytesOf "getusercert" ++ [bytesOf "k"].flatMap (smallLimits.CMD_DELIMITER :: ·)))).1.arg.map
        (cstr (tokenize smallLimits (receive (List.replicate 16 65)
          (bytesOf "getusercert" ++ [bytesOf "k"].flatMap (smallLimits.CMD_DELIMITER :: ·)))).1.buf) =
        [bytesOf "getusercert", bytesOf "k"] :=
  ⟨⟨by decide, by decide, by decide, by decide, by decide⟩,
    tokenize_shellRequest smallLimits (by decide) _ _ (by decide) (by decide) (by decide) (by decide) _⟩

/-- Two delimiters in a row after a token: the loop writes the NUL over the first, steps over
the second, and reads the rest as one more argument. -/
theorem tokenize_doubled_delimiter (L : Limits) (hdelim : L.CMD_DELIMITER ≠ 0)
    (htoken : L.TOKEN_MAX ≠ 1) (a b rest : List UInt8) (ha : ∀ x ∈ a, L.Plain x)
    (hb : ∀ x ∈ b, L.Plain x) :
    tokenize L (a ++ L.CMD_DELIMITER :: L.CMD_DELIMITER :: b ++ 0 :: rest) =
      (⟨a ++ [0, L.CMD_DELIMITER] ++ b ++ 0 :: rest, a.length + 2 + b.length, [0, a.length + 1],
        List.range' 0 (a.length + 1) ++ List.range' (a.length + 2) b.length ++
          [a.length + 2 + b.length]⟩, .nul) := by
  have hlength : (a ++ L.CMD_DELIMITER :: L.CMD_DELIMITER :: b ++ 0 :: rest).length + 1 =
      rest.length + 2 + 1 + b.length + a.length + 1 := by
    simp
    omega
  rw [tokenize, hlength, scan_token _ [] a (L.CMD_DELIMITER :: b ++ 0 :: rest)
      ⟨a ++ L.CMD_DELIMITER :: L.CMD_DELIMITER :: b ++ 0 :: rest, 0, [0], []⟩ (by simp) rfl ha hdelim
      (by simpa using htoken.symm),
    scan_plain _ (a ++ [0, L.CMD_DELIMITER]) b (0 :: rest) _ (by simp) (by simp) hb, scan_succ,
    round_of_nul]
  · simp
  · have hnul := getElem?_length_append (a ++ [0, L.CMD_DELIMITER] ++ b) rest 0
    simp only [List.length_append, List.length_cons, List.length_nil] at hnul
    simpa [Nat.add_assoc] using hnul

/-- An empty argument between two others: the client sends two delimiters in a row, and the
daemon's loop, stepping over the byte after the first, splits the request into two arguments,
the second starting with the delimiter. -/
theorem tokenize_shellRequest_empty_argument (L : Limits) (hdelim : L.CMD_DELIMITER ≠ 0)
    (htoken : L.TOKEN_MAX ≠ 1) (a b : List UInt8) (ha : ∀ x ∈ a, L.Plain x)
    (hb : ∀ x ∈ b, L.Plain x) (old : List UInt8) (hfit : a.length + b.length + 2 < L.BUFFER_MAX) :
    shellRequest L [a, [], b] = some (a ++ L.CMD_DELIMITER :: L.CMD_DELIMITER :: b) ∧
      L.accepts (a ++ L.CMD_DELIMITER :: L.CMD_DELIMITER :: b) = true ∧
      (tokenize L (receive old (a ++ L.CMD_DELIMITER :: L.CMD_DELIMITER :: b))).2 = .nul ∧
      (tokenize L (receive old (a ++ L.CMD_DELIMITER :: L.CMD_DELIMITER :: b))).1.arg.map
        (cstr (tokenize L (receive old (a ++ L.CMD_DELIMITER :: L.CMD_DELIMITER :: b))).1.buf) =
        [a, L.CMD_DELIMITER :: b] := by
  have htok := tokenize_doubled_delimiter L hdelim htoken a b
    (old.drop ((a ++ L.CMD_DELIMITER :: L.CMD_DELIMITER :: b).length + 1)) ha hb
  have h₀ := cstr_of_nul [] a (L.CMD_DELIMITER :: b ++ 0 ::
    old.drop ((a ++ L.CMD_DELIMITER :: L.CMD_DELIMITER :: b).length + 1)) fun x hx => (ha x hx).1
  have h₁ := cstr_of_nul (a ++ [0]) (L.CMD_DELIMITER :: b)
    (old.drop ((a ++ L.CMD_DELIMITER :: L.CMD_DELIMITER :: b).length + 1)) fun x hx => by
      rcases List.mem_cons.mp hx with rfl | hx
      exacts [hdelim, (hb x hx).1]
  rw [receive, List.append_assoc, List.singleton_append]
  refine ⟨by simpa using shellRequest_of_fits L a [[], b] (by simp; omega), ?_, by rw [htok], ?_⟩
  · simp
    omega
  · rw [htok]
    simp only [List.map_cons, List.map_nil, List.cons.injEq, and_true]
    exact ⟨by simpa using h₀, by simpa using h₁⟩

theorem tokenize_shellRequest_empty_argument_small :
    (smallLimits.CMD_DELIMITER ≠ 0 ∧ smallLimits.TOKEN_MAX ≠ 1 ∧
      (∀ x ∈ [97], smallLimits.Plain x) ∧ (∀ x ∈ [98], smallLimits.Plain x) ∧
      [97].length + [98].length + 2 < smallLimits.BUFFER_MAX) ∧
    (shellRequest smallLimits [[97], [], [98]] =
        some ([97] ++ smallLimits.CMD_DELIMITER :: smallLimits.CMD_DELIMITER :: [98]) ∧
      smallLimits.accepts ([97] ++ smallLimits.CMD_DELIMITER :: smallLimits.CMD_DELIMITER :: [98]) = true ∧
      (tokenize smallLimits (receive (List.replicate 16 0)
        ([97] ++ smallLimits.CMD_DELIMITER :: smallLimits.CMD_DELIMITER :: [98]))).2 = .nul ∧
      (tokenize smallLimits (receive (List.replicate 16 0)
        ([97] ++ smallLimits.CMD_DELIMITER :: smallLimits.CMD_DELIMITER :: [98]))).1.arg.map
        (cstr (tokenize smallLimits (receive (List.replicate 16 0)
          ([97] ++ smallLimits.CMD_DELIMITER :: smallLimits.CMD_DELIMITER :: [98]))).1.buf) =
        [[97], smallLimits.CMD_DELIMITER :: [98]]) :=
  ⟨⟨by decide, by decide, by decide, by decide, by decide⟩,
    tokenize_shellRequest_empty_argument smallLimits (by decide) (by decide) [97] [98] (by decide)
      (by decide) _ (by decide)⟩

end Cmds.Keystore
