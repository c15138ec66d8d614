import Cmds.Keystore.Bounds

/-!
# One connection as its client sees it

`main` reads every request of a connection into one buffer, so earlier requests stay behind
each new request's NUL. When no request ends in the delimiter the loop never looks there, and
each response is the one a fresh daemon would send (`serve_eq_statelessServe`).
-/

namespace Cmds.Keystore

/-- What the client of a request sees: the response, or nothing when the daemon faults. -/
def Outcome.response : Outcome → Option Response
  | .sent _ response => some response
  | .fault _ => none

@[simp] theorem Outcome.response_sent (buf : List UInt8) (response : Response) :
    (Outcome.sent buf response).response = some response := rfl

@[simp] theorem Outcome.response_fault (i : Nat) : (Outcome.fault i).response = none := rfl

section Agree

variable {L : Limits} {count : Nat}

/-- Two states of the loop whose buffers differ at most after the request's NUL. -/
structure Scan.Agree (count : Nat) (s₁ s₂ : Scan) : Prop where
  take_eq : s₁.buf.take (count + 1) = s₂.buf.take (count + 1)
  length_eq : s₁.buf.length = s₂.buf.length
  cmd_eq : s₁.cmd = s₂.cmd
  arg_eq : s₁.arg = s₂.arg

theorem Scan.Agree.getElem?_eq {s₁ s₂ : Scan} (h : Scan.Agree count s₁ s₂) {i : Nat}
    (hi : i ≤ count) : s₁.buf[i]? = s₂.buf[i]? := by
  rw [← List.getElem?_take_of_lt (show i < count + 1 by omega), h.take_eq,
    List.getElem?_take_of_lt (by omega)]

/-- Moving both runs alike keeps them in agreement. -/
theorem Scan.Agree.keep {s₁ s₂ : Scan} (h : Scan.Agree count s₁ s₂) {c₁ c₂ : Nat}
    {a₁ a₂ : List Nat} (hc : c₁ = c₂) (ha : a₁ = a₂) (r₁ r₂ : List Nat) :
    Scan.Agree count ⟨s₁.buf, c₁, a₁, r₁⟩ ⟨s₂.buf, c₂, a₂, r₂⟩ :=
  ⟨h.take_eq, h.length_eq, hc, ha⟩

/-- So does writing the same NUL in both. -/
theorem Scan.Agree.set {s₁ s₂ : Scan} (h : Scan.Agree count s₁ s₂) {i₁ i₂ c₁ c₂ : Nat}
    {a₁ a₂ : List Nat} (hi : i₁ = i₂) (hc : c₁ = c₂) (ha : a₁ = a₂) (r₁ r₂ : List Nat) :
    Scan.Agree count ⟨s₁.buf.set i₁ 0, c₁, a₁, r₁⟩ ⟨s₂.buf.set i₂ 0, c₂, a₂, r₂⟩ := by
  subst hi
  exact ⟨by rw [List.set_take, List.set_take, h.take_eq], by simp [h.length_eq], hc, ha⟩

/-- Both runs take the same round: they read the same byte, write the same NUL and move
alike. -/
theorem round_agree {s₁ s₂ : Scan} (hc : s₁.cmd ≤ count) (h : Scan.Agree count s₁ s₂) :
    Scan.Agree count (round L s₁).1 (round L s₂).1 ∧ (round L s₁).2 = (round L s₂).2 := by
  have hb : s₁.buf[s₁.cmd]? = s₂.buf[s₂.cmd]? := h.cmd_eq ▸ h.getElem?_eq hc
  have hcmd := h.cmd_eq
  have harg := h.arg_eq
  cases hb₂ : s₂.buf[s₂.cmd]? with
  | none =>
    rw [round_of_none (hb.trans hb₂), round_of_none hb₂]
    exact ⟨h.keep hcmd harg _ _, rfl⟩
  | some b =>
    have hb₁ := hb.trans hb₂
    by_cases h0 : b = 0
    · subst h0
      rw [round_of_nul hb₁, round_of_nul hb₂]
      exact ⟨h.keep hcmd harg _ _, rfl⟩
    by_cases hD : b = L.CMD_DELIMITER
    · subst hD
      by_cases hn : s₂.arg.length = L.TOKEN_MAX
      · rw [round_of_delimiter_tooMany hb₁ h0 (harg ▸ hn), round_of_delimiter_tooMany hb₂ h0 hn]
        exact ⟨h.set hcmd (by rw [hcmd]) (by rw [hcmd, harg]) _ _, rfl⟩
      · rw [round_of_delimiter hb₁ h0 (harg ▸ hn), round_of_delimiter hb₂ h0 hn]
        exact ⟨h.set hcmd (by rw [hcmd]) (by rw [hcmd, harg]) _ _, rfl⟩
    · rw [round_of_plain hb₁ ⟨h0, hD⟩, round_of_plain hb₂ ⟨h0, hD⟩]
      exact ⟨h.keep (by rw [hcmd]) harg _ _, rfl⟩

/-- Two runs of the loop from agreeing states inside the same request stay in agreement and
stop for the same reason. -/
theorem scan_agree (hd : L.CMD_DELIMITER ≠ 0) (fuel : Nat) {s₁ s₂ : Scan} {t₁ t₂ : List UInt8}
    (hs₁ : s₁.Inside L count t₁) (hs₂ : s₂.Inside L count t₂) (h : Scan.Agree count s₁ s₂) :
    Scan.Agree count (scan L fuel s₁).1 (scan L fuel s₂).1 ∧ (scan L fuel s₁).2 = (scan L fuel s₂).2 := by
  induction fuel generalizing s₁ s₂ with
  | zero => exact ⟨h, rfl⟩
  | succ fuel ih =>
    obtain ⟨ha, he⟩ := round_agree hs₁.cmd_le h
    rw [scan_succ, scan_succ, ← he]
    split
    · exact ⟨ha, rfl⟩
    · exact ih (round_inside hd hs₁).1 (round_inside hd hs₂).1 ha

end Agree

theorem cstr_of_getElem? {buf : List UInt8} {p : Nat} {b : UInt8} (h : buf[p]? = some b) :
    cstr buf p = if b = 0 then [] else b :: cstr buf (p + 1) := by
  obtain ⟨hlt, hb⟩ := List.getElem?_eq_some_iff.mp h
  rw [cstr, List.drop_eq_getElem_cons hlt, List.takeWhile_cons, hb]
  by_cases h0 : b = 0 <;> simp [h0, cstr]

/-- A C string that starts at or before a NUL reads nothing after it. -/
theorem cstr_eq_of_getElem?_eq {buf₁ buf₂ : List UInt8} {n : Nat}
    (hget : ∀ i ≤ n, buf₁[i]? = buf₂[i]?) (hn : buf₁[n]? = some 0) (k : Nat) :
    ∀ p, p + k = n → cstr buf₁ p = cstr buf₂ p := by
  induction k with
  | zero =>
    intro p hp
    rw [Nat.add_zero] at hp
    subst hp
    rw [cstr_of_getElem? hn, cstr_of_getElem? ((hget p le_rfl).symm.trans hn)]
    simp
  | succ k ih =>
    intro p hp
    obtain ⟨b, hb⟩ : ∃ b, buf₁[p]? = some b :=
      ⟨_, List.getElem?_eq_getElem (by have := (List.getElem?_eq_some_iff.mp hn).1; omega)⟩
    rw [cstr_of_getElem? hb, cstr_of_getElem? ((hget p (by omega)).symm.trans hb),
      ih (p + 1) (by omega)]

/-- The command lookup and the handlers read the buffer only through the C strings at the
argument positions. -/
theorem dispatch_congr (store : CertStore) {buf₁ buf₂ : List UInt8} {arg : List Nat}
    (h : ∀ p ∈ arg.headD 0 :: arg, cstr buf₁ p = cstr buf₂ p) :
    dispatch store buf₁ arg = dispatch store buf₂ arg := by
  have hmap : (arg.drop 1).map (cstr buf₁) = (arg.drop 1).map (cstr buf₂) :=
    List.map_congr_left fun p hp => h p (List.mem_cons_of_mem _ (List.mem_of_mem_drop hp))
  simp only [dispatch, h _ (List.mem_cons_self _ _), hmap]

/-- `strlcpy` either copies the bytes, after which the buffer from `dst` on holds them, a NUL
and what was there before, or faults where the copy would leave the buffer. -/
theorem strlcpy_cases (buf : List UInt8) (dst : Nat) (src : List UInt8) (size : Nat) :
    (dst + ((src.takeWhile (· ≠ 0)).take (size - 1)).length + 1 ≤ buf.length ∧
      ∃ buf', strlcpy buf dst src size = .ok buf' ∧ buf'.length = buf.length ∧
        buf'.drop dst = (src.takeWhile (· ≠ 0)).take (size - 1) ++
          0 :: buf.drop (dst + ((src.takeWhile (· ≠ 0)).take (size - 1)).length + 1)) ∨
    (buf.length < dst + ((src.takeWhile (· ≠ 0)).take (size - 1)).length + 1 ∧
      strlcpy buf dst src size = .error (max dst buf.length)) := by
  unfold strlcpy
  dsimp only
  simp only [List.length_append, List.length_singleton]
  split_ifs with hfit
  · refine .inl ⟨by omega, _, rfl, ?_, ?_⟩
    · simp only [List.length_append, List.length_take_of_le (show dst ≤ buf.length by omega),
        List.length_drop, List.length_singleton]
      omega
    · have htake : (buf.take dst).length = dst := List.length_take_of_le (by omega)
      rw [List.append_assoc, List.drop_append_of_le_length htake.ge,
        List.drop_of_length_le htake.le]
      simp [Nat.add_assoc]
  · exact .inr ⟨by omega, rfl⟩

/-- What `strlcpy(cmd, reply, BUFFER_MAX)` copies: the reply up to its NUL, at most
`BUFFER_MAX - 1` bytes. -/
def replyCopy (L : Limits) (reply : List UInt8) : List UInt8 :=
  (reply.takeWhile (· ≠ 0)).take (L.BUFFER_MAX - 1)

theorem replyCopy_eq_nil {L : Limits} {reply : List UInt8} (hr : reply.headD 0 = 0) :
    replyCopy L reply = [] := by
  cases reply with
  | nil => simp [replyCopy]
  | cons b reply => simp_all [replyCopy]

theorem ne_zero_of_mem_copy {src : List UInt8} {size : Nat} {b : UInt8}
    (hb : b ∈ (src.takeWhile (· ≠ 0)).take size) : b ≠ 0 := by
  simpa using List.mem_takeWhile_imp (List.mem_of_mem_take hb)

/-- The bytes `strlcpy` copies hold no NUL, so the C string at the copy ends at the NUL after it. -/
theorem takeWhile_copy (src : List UInt8) (size : Nat) (rest : List UInt8) :
    ((src.takeWhile (· ≠ 0)).take size ++ 0 :: rest).takeWhile (· ≠ 0) =
      (src.takeWhile (· ≠ 0)).take size := by
  rw [List.takeWhile_append_of_pos fun b hb => by simpa using ne_zero_of_mem_copy hb]
  simp

/-- What `done` sends: `ret` and, when it is `0`, as many bytes of the copy as the `unsigned short`
`count` says; a reply that does not start with a NUL is sent only when its copy fits after
`cmd`. -/
theorem done_sent {L : Limits} {buf buf' : List UInt8} {cmd : Nat} {ret : Int} {reply : List UInt8}
    {response : Response} (h : done L buf cmd ret reply = .sent buf' response) :
    response = ⟨ret, if ret = 0 then some ((replyCopy L reply).length % 65536,
        (replyCopy L reply).take ((replyCopy L reply).length % 65536)) else none⟩ ∧
      (reply.headD 0 ≠ 0 → cmd + (replyCopy L reply).length + 1 ≤ buf.length) := by
  unfold done at h
  dsimp only at h
  by_cases hr : reply.headD 0 = 0
  · simp only [hr, ne_eq, not_true_eq_false, ↓reduceIte, Outcome.sent.injEq] at h
    exact ⟨by simp [← h.2, replyCopy_eq_nil hr], fun h' => absurd hr h'⟩
  · simp only [hr, ne_eq, not_false_eq_true, ↓reduceIte] at h
    rcases strlcpy_cases buf cmd reply L.BUFFER_MAX with ⟨hfit, b, hb, -, hd⟩ | ⟨-, hb⟩ <;>
      simp only [hb, Outcome.sent.injEq, reduceCtorEq] at h
    refine ⟨?_, fun _ => hfit⟩
    rw [← h.2, cstr, hd, takeWhile_copy, List.take_append_of_le_length (Nat.mod_le _ 65536)]
    rfl

/-- `done` sends whenever the copy of a reply fits after `cmd`. -/
theorem done_sent_of_fits {L : Limits} {buf : List UInt8} {cmd : Nat} {ret : Int}
    {reply : List UInt8} (hfit : reply.headD 0 ≠ 0 → cmd + (replyCopy L reply).length + 1 ≤ buf.length) :
    ∃ buf' response, done L buf cmd ret reply = .sent buf' response := by
  unfold done
  dsimp only
  by_cases hr : reply.headD 0 ≠ 0
  · rw [if_pos hr]
    rcases strlcpy_cases buf cmd reply L.BUFFER_MAX with ⟨-, b, hb, -⟩ | ⟨hno, -⟩
    · exact ⟨_, _, by rw [hb]⟩
    · exact absurd (hfit hr) (by unfold replyCopy; omega)
  · exact ⟨_, _, by rw [if_neg hr]⟩

/-- What `done` sends depends on the buffer only through its size. -/
theorem done_response_eq (L : Limits) {buf₁ buf₂ : List UInt8} (hlen : buf₁.length = buf₂.length)
    (cmd : Nat) (ret : Int) (reply : List UInt8) :
    (done L buf₁ cmd ret reply).response = (done L buf₂ cmd ret reply).response := by
  by_cases hr : reply.headD 0 = 0
  · simp only [done, hr, ne_eq, not_true_eq_false, ↓reduceIte, Outcome.response_sent,
      List.take_zero]
  simp only [done, ne_eq, hr, not_false_eq_true, ↓reduceIte]
  rcases strlcpy_cases buf₁ cmd reply L.BUFFER_MAX with ⟨hfit₁, buf₁', h₁, -, hd₁⟩ | ⟨hfit₁, h₁⟩ <;>
    rcases strlcpy_cases buf₂ cmd reply L.BUFFER_MAX with ⟨hfit₂, buf₂', h₂, -, hd₂⟩ | ⟨hfit₂, h₂⟩
  · simp only [h₁, h₂, Outcome.response_sent, cstr, hd₁, hd₂, takeWhile_copy,
      List.take_append_of_le_length (Nat.mod_le _ 65536)]
  · omega
  · omega
  · simp only [h₁, h₂, Outcome.response_fault]

theorem scan_buf_length (L : Limits) (fuel : Nat) (s : Scan) :
    (scan L fuel s).1.buf.length = s.buf.length := by
  induction fuel generalizing s with
  | zero => rfl
  | succ fuel ih =>
    rw [scan_succ]
    split
    · exact round_buf_length s
    · rw [ih, round_buf_length]

theorem done_length {L : Limits} {buf buf' : List UInt8} {cmd : Nat} {ret : Int}
    {reply : List UInt8} {response : Response} (h : done L buf cmd ret reply = .sent buf' response) :
    buf'.length = buf.length := by
  unfold done at h
  dsimp only at h
  by_cases hr : reply.headD 0 = 0
  · simp only [hr, ne_eq, not_true_eq_false, ↓reduceIte, Outcome.sent.injEq] at h
    rw [← h.1]
  · simp only [hr, ne_eq, not_false_eq_true, ↓reduceIte] at h
    rcases strlcpy_cases buf cmd reply L.BUFFER_MAX with ⟨-, b, hb, hl, -⟩ | ⟨-, hb⟩ <;>
      simp only [hb, Outcome.sent.injEq, reduceCtorEq] at h
    rw [← h.1, hl]

/-- `execute` leaves a buffer of the size it was given. -/
theorem execute_length {L : Limits} {store : CertStore} {buf buf' : List UInt8}
    {response : Response} (h : execute L store buf = .sent buf' response) :
    buf'.length = buf.length := by
  have hl : (tokenize L buf).1.buf.length = buf.length := scan_buf_length L _ _
  unfold execute at h
  rcases ht : tokenize L buf with ⟨s, e⟩
  rw [ht] at h hl
  cases e with
  | fault => cases h
  | tooMany => exact (done_length h).trans hl
  | nul =>
    dsimp only at h
    rcases hd : dispatch store s.buf s.arg with ⟨ret, reply⟩
    rw [hd] at h
    exact (done_length h).trans hl

/-- The C strings at the arguments of two agreeing runs inside a request are the same. -/
theorem Scan.Agree.cstr_eq {L : Limits} {count : Nat} {tail : List UInt8} {s₁ s₂ : Scan}
    (h : Scan.Agree count s₁ s₂) (hs : s₁.Inside L count tail) :
    ∀ p ∈ s₁.arg.headD 0 :: s₁.arg, cstr s₁.buf p = cstr s₂.buf p := by
  intro p hp
  have hle : p ≤ count := by
    rcases List.mem_cons.mp hp with rfl | hp
    · cases harg : s₁.arg with
      | nil => exact Nat.zero_le _
      | cons a rest => exact hs.arg_le a (by simp [harg])
    · exact hs.arg_le p hp
  exact cstr_eq_of_getElem?_eq (fun i hi => h.getElem?_eq hi) hs.nul (count - p) p (by omega)

/-- The splitting loop on one request behind two different leftovers: the runs end in
agreement, for the same reason, inside the request and without a fault. -/
theorem tokenize_receive_agree (L : Limits) (hdelim : L.CMD_DELIMITER ≠ 0)
    (request old₁ old₂ : List UInt8) (hold₁ : old₁.length = L.BUFFER_MAX)
    (hold₂ : old₂.length = L.BUFFER_MAX) (haccept : L.accepts request = true)
    (hlast : request.getLast? ≠ some L.CMD_DELIMITER) :
    Scan.Agree request.length (tokenize L (receive old₁ request)).1
        (tokenize L (receive old₂ request)).1 ∧
      (tokenize L (receive old₁ request)).2 = (tokenize L (receive old₂ request)).2 ∧
      (tokenize L (receive old₁ request)).1.Inside L request.length (old₁.drop (request.length + 1)) ∧
      (tokenize L (receive old₁ request)).2 ≠ .fault := by
  have hc := one_le_length_of_accepts haccept
  have hfit : request.length < L.BUFFER_MAX := ((L.accepts_eq_true request).mp haccept).2
  have hi₁ := receive_inside L request old₁ hc hlast
  have hl₁ : (receive old₁ request).length = L.BUFFER_MAX := (receive_length (by omega)).trans hold₁
  have hl₂ : (receive old₂ request).length = L.BUFFER_MAX := (receive_length (by omega)).trans hold₂
  have hagree : Scan.Agree request.length ⟨receive old₁ request, 0, [0], []⟩
      ⟨receive old₂ request, 0, [0], []⟩ :=
    ⟨by rw [receive, receive, List.take_left' (by simp), List.take_left' (by simp)],
      hl₁.trans hl₂.symm, rfl, rfl⟩
  rw [tokenize, tokenize, hl₁, hl₂]
  obtain ⟨hrun, hend⟩ := scan_agree hdelim _ hi₁ (receive_inside L request old₂ hc hlast) hagree
  exact ⟨hrun, hend, scan_inside hdelim _ hi₁ (by omega)⟩

/-- A request that does not end in the delimiter is answered the same whatever earlier requests
left behind it in the buffer. -/
theorem execute_response_eq (L : Limits) (hdelim : L.CMD_DELIMITER ≠ 0) (store : CertStore)
    (request old₁ old₂ : List UInt8) (hold₁ : old₁.length = L.BUFFER_MAX)
    (hold₂ : old₂.length = L.BUFFER_MAX) (haccept : L.accepts request = true)
    (hlast : request.getLast? ≠ some L.CMD_DELIMITER) :
    (execute L store (receive old₁ request)).response =
      (execute L store (receive old₂ request)).response := by
  obtain ⟨hrun, hend, hin, hnf⟩ :=
    tokenize_receive_agree L hdelim request old₁ old₂ hold₁ hold₂ haccept hlast
  unfold execute
  rcases ht₁ : tokenize L (receive old₁ request) with ⟨s₁, e⟩
  rcases ht₂ : tokenize L (receive old₂ request) with ⟨s₂, e₂⟩
  rw [ht₁, ht₂] at hrun hend
  rw [ht₁] at hin hnf
  dsimp only at hrun hend hin hnf
  subst hend
  cases e with
  | fault => exact absurd rfl hnf
  | tooMany =>
    dsimp only
    rw [hrun.cmd_eq]
    exact done_response_eq L hrun.length_eq _ _ _
  | nul =>
    dsimp only
    rw [dispatch_congr store (hrun.cstr_eq hin), hrun.arg_eq, hrun.cmd_eq]
    cases dispatch store s₂.buf s₂.arg
    exact done_response_eq L hrun.length_eq _ _ _

/-- A fresh daemon's answer to one request, on a zeroed buffer of `BUFFER_MAX` bytes. -/
def respond (L : Limits) (store : CertStore) (request : List UInt8) : Option Response :=
  (execute L store (receive (List.replicate L.BUFFER_MAX 0) request)).response

/-- The daemon as a stateless server: each accepted request answered by a fresh daemon, up to
the first request `main` rejects or that makes it fault. -/
def statelessServe (L : Limits) (store : CertStore) : List (List UInt8) → List Response
  | [] => []
  | request :: rest =>
    if !L.accepts request then [] else
    match respond L store request with
    | none => []
    | some response => response :: statelessServe L store rest

/-- Reusing one buffer for all the requests of a connection is invisible to its client as long
as no request ends in the delimiter: `main` sends for each exactly what a fresh daemon would. -/
theorem serve_eq_statelessServe (L : Limits) (hdelim : L.CMD_DELIMITER ≠ 0) (store : CertStore)
    (requests : List (List UInt8)) (hlast : ∀ r ∈ requests, r.getLast? ≠ some L.CMD_DELIMITER)
    (buf : List UInt8) (hbuf : buf.length = L.BUFFER_MAX) :
    (serve L store buf requests).1 = statelessServe L store requests := by
  induction requests generalizing buf with
  | nil => rfl
  | cons request rest ih =>
    by_cases ha : L.accepts request = true
    · have heq := execute_response_eq L hdelim store request buf (List.replicate L.BUFFER_MAX 0)
        hbuf (by simp) ha (hlast request (List.mem_cons_self _ _))
      simp only [serve, statelessServe, ha, Bool.not_true, Bool.false_eq_true, ↓reduceIte, respond,
        ← heq]
      cases hx : execute L store (receive buf request) with
      | fault i => rfl
      | sent buf' response =>
        have hfit : request.length < buf.length :=
          hbuf ▸ ((L.accepts_eq_true request).mp ha).2
        have hlen : buf'.length = L.BUFFER_MAX :=
          (execute_length hx).trans ((receive_length hfit).trans hbuf)
        simp only [Outcome.response_sent]
        rw [ih (fun r hr => hlast r (List.mem_cons_of_mem _ hr)) buf' hlen]
    · simp [serve, statelessServe, ha]

end Cmds.Keystore
