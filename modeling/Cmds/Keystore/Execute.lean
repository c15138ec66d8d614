import Mathlib.Data.List.Basic

/-!
# keystore's request loop

`main` reads each request into the one `BUFFER_MAX`-byte buffer; `execute` splits it in place on
`CMD_DELIMITER`, dispatches it through `cmds` and copies the reply over the buffer. An access
outside `buf` is a fault. `keystore.h` and `commands.c` are not in the source: `Limits` and
`CertStore` stand for them, and every result holds for all their values.
-/

namespace Cmds.Keystore

/-- The constants of `keystore.h`. -/
structure Limits where
  BUFFER_MAX : Nat
  TOKEN_MAX : Nat
  REPLY_MAX : Nat
  CMD_DELIMITER : UInt8
  deriving DecidableEq, Repr

/-- The state of `execute`'s splitting loop: the buffer as rewritten so far, the index `cmd`
points at, `arg[0..n]` as indices, and the index of every `*cmd` read so far. -/
structure Scan where
  buf : List UInt8
  cmd : Nat
  arg : List Nat
  reads : List Nat
  deriving DecidableEq, Repr

/-- Why the splitting loop stopped. -/
inductive ScanEnd
  /-- `*cmd == 0`. -/
  | nul
  /-- `n == TOKEN_MAX`, `goto done`. -/
  | tooMany
  /-- `*cmd` read outside the buffer. -/
  | fault
  deriving DecidableEq, Repr

/-- One round of the `while (*cmd)` loop of `execute`: the state after it, and why the loop
stops there, if it does. -/
def round (L : Limits) (s : Scan) : Scan × Option ScanEnd :=
  let s := { s with reads := s.reads ++ [s.cmd] }
  match s.buf[s.cmd]? with
  | none => (s, some .fault)
  | some b =>
    if b = 0 then (s, some .nul)
    else if b = L.CMD_DELIMITER then
      let s := { s with buf := s.buf.set s.cmd 0, cmd := s.cmd + 1, arg := s.arg ++ [s.cmd + 1] }
      if s.arg.length - 1 = L.TOKEN_MAX then (s, some .tooMany)
      else ({ s with cmd := s.cmd + 1 }, none)
    else ({ s with cmd := s.cmd + 1 }, none)

/-- The loop, for at most `fuel` rounds. -/
def scan (L : Limits) : Nat → Scan → Scan × ScanEnd
  | 0, s => (s, .fault)
  | fuel + 1, s =>
    match round L s with
    | (s, some e) => (s, e)
    | (s, none) => scan L fuel s

/-- The loop from `arg[0] = cmd` on the buffer as `main` hands it over; every round advances
`cmd` inside the buffer, so `buf.length + 1` rounds always suffice (`scan_fuel`). -/
def tokenize (L : Limits) (buf : List UInt8) : Scan × ScanEnd :=
  scan L (buf.length + 1) ⟨buf, 0, [0], []⟩

/-- The C string at an index: the bytes before the next NUL. -/
def cstr (buf : List UInt8) (i : Nat) : List UInt8 :=
  (buf.drop i).takeWhile (· ≠ 0)

/-- What the handlers call in `commands.c`: `run` for the functions that only answer with a
status, `query` for those that also fill `reply`; each gets its arguments. -/
structure CertStore where
  run : String → List (List UInt8) → Int
  query : String → List (List UInt8) → Int × List UInt8

/-- `has_whitespace`: `strrchr(name, ' ') != NULL`. -/
def hasWhitespace (name : List UInt8) : Bool := name.contains 32

/-- A handler that passes its `numargs` arguments to a function filling `reply`. -/
def doQuery (f : String) (numargs : Nat) (store : CertStore) (arg : List (List UInt8)) :
    Int × List UInt8 :=
  store.query f (arg.take numargs)

/-- A handler that rejects a first argument with a space, then passes its arguments to a
function that leaves `reply` empty. -/
def doChecked (f : String) (numargs : Nat) (store : CertStore) (arg : List (List UInt8)) :
    Int × List UInt8 :=
  if hasWhitespace (arg.headD []) then (-1, []) else (store.run f (arg.take numargs), [])

/-- A handler that passes its arguments to a function that leaves `reply` empty. -/
def doRun (f : String) (numargs : Nat) (store : CertStore) (arg : List (List UInt8)) :
    Int × List UInt8 :=
  (store.run f (arg.take numargs), [])

/-- `do_list_user_certs`. -/
def doListUserCerts := doQuery "list_user_certs" 0
/-- `do_list_ca_certs`. -/
def doListCaCerts := doQuery "list_ca_certs" 0
/-- `do_install_user_cert`. -/
def doInstallUserCert := doChecked "install_user_cert" 3
/-- `do_install_p12_cert`. -/
def doInstallP12Cert := doChecked "install_p12_cert" 2
/-- `do_install_ca_cert`. -/
def doInstallCaCert := doChecked "install_ca_cert" 2
/-- `do_add_ca_cert`. -/
def doAddCaCert := doChecked "add_ca_cert" 2
/-- `do_add_user_cert`. -/
def doAddUserCert := doChecked "add_user_cert" 2
/-- `do_add_user_key`. -/
def doAddUserKey := doChecked "add_user_key" 2
/-- `do_get_ca_cert`. -/
def doGetCaCert := doQuery "get_ca_cert" 1
/-- `do_get_user_cert`. -/
def doGetUserCert := doQuery "get_user_cert" 1
/-- `do_get_user_key`. -/
def doGetUserKey := doQuery "get_user_key" 1
/-- `do_remove_user_cert`. -/
def doRemoveUserCert := doRun "remove_user_cert" 1
/-- `do_remove_ca_cert`. -/
def doRemoveCaCert := doRun "remove_ca_cert" 1

/-- `struct cmdinfo`. -/
structure CmdInfo where
  name : String
  numargs : Nat
  func : CertStore → List (List UInt8) → Int × List UInt8

/-- The bytes of an ASCII name. -/
def bytesOf (s : String) : List UInt8 := s.toList.map fun c => c.toNat.toUInt8

/-- `cmds[]`. -/
def cmds : List CmdInfo :=
  [⟨"listcacerts", 0, doListCaCerts⟩,
   ⟨"listusercerts", 0, doListUserCerts⟩,
   ⟨"installusercert", 3, doInstallUserCert⟩,
   ⟨"installcacert", 2, doInstallCaCert⟩,
   ⟨"installp12cert", 2, doInstallP12Cert⟩,
   ⟨"addusercert", 2, doAddUserCert⟩,
   ⟨"adduserkey", 2, doAddUserKey⟩,
   ⟨"addcacert", 2, doAddCaCert⟩,
   ⟨"getusercert", 1, doGetUserCert⟩,
   ⟨"getuserkey", 1, doGetUserKey⟩,
   ⟨"getcacert", 1, doGetCaCert⟩,
   ⟨"removecacert", 1, doRemoveCaCert⟩,
   ⟨"removeusercert", 1, doRemoveUserCert⟩]

/-- `(short)`: an `int` taken to 16 bits, two's complement. -/
def shortOf (x : Int) : Int := x.bmod 65536

/-- The `for` loop over `cmds` after splitting: `ret` and the reply. A name no entry has, or
the wrong number of arguments, leaves `ret = -1` and the reply empty. -/
def dispatch (store : CertStore) (buf : List UInt8) (arg : List Nat) : Int × List UInt8 :=
  match cmds.find? fun c => bytesOf c.name = cstr buf (arg.headD 0) with
  | none => (-1, [])
  | some c =>
    if arg.length - 1 ≠ c.numargs then (-1, [])
    else
      let (ret, reply) := c.func store ((arg.drop 1).map (cstr buf))
      (shortOf ret, reply)

/-- `strlcpy(dst, src, size)` into the buffer at index `dst`: at most `size - 1` bytes of the C
string `src` and a NUL. A write outside the buffer is a fault at the first such index. -/
def strlcpy (buf : List UInt8) (dst : Nat) (src : List UInt8) (size : Nat) :
    Except Nat (List UInt8) :=
  let bytes := (src.takeWhile (· ≠ 0)).take (size - 1) ++ [0]
  if dst + bytes.length ≤ buf.length then .ok (buf.take dst ++ bytes ++ buf.drop (dst + bytes.length))
  else .error (max dst buf.length)

/-- What `execute` writes to the socket: `ret`, and when it is `0`, `count` and that many
bytes. -/
structure Response where
  ret : Int
  reply : Option (Nat × List UInt8)
  deriving DecidableEq, Repr

/-- How `execute` ends: the buffer it leaves and what it sent, or a fault at an index. -/
inductive Outcome
  | sent (buf : List UInt8) (response : Response)
  | fault (i : Nat)
  deriving DecidableEq, Repr

/-- The `done:` block, with `cmd` where splitting left it. -/
def done (L : Limits) (buf : List UInt8) (cmd : Nat) (ret : Int) (reply : List UInt8) : Outcome :=
  let send := fun (buf : List UInt8) (count : Nat) =>
    Outcome.sent buf ⟨ret, if ret = 0 then some (count, (buf.drop cmd).take count) else none⟩
  if reply.headD 0 ≠ 0 then
    match strlcpy buf cmd reply L.BUFFER_MAX with
    | .error i => .fault i
    | .ok buf => send buf ((cstr buf cmd).length % 65536)
  else send buf 0

/-- `execute`. -/
def execute (L : Limits) (store : CertStore) (buf : List UInt8) : Outcome :=
  match tokenize L buf with
  | (s, .fault) => .fault s.cmd
  | (s, .tooMany) => done L s.buf s.cmd (-1) []
  | (s, .nul) =>
    let (ret, reply) := dispatch store s.buf s.arg
    done L s.buf s.cmd ret reply

/-- `readx(s, buf, count); buf[count] = 0`: the buffer holding a request of `count` bytes, the
bytes of earlier requests after its NUL. -/
def receive (buf request : List UInt8) : List UInt8 :=
  request ++ [0] ++ buf.drop (request.length + 1)

/-- `main`'s framing check: `1 <= count < BUFFER_MAX`. -/
def Limits.accepts (L : Limits) (request : List UInt8) : Bool :=
  1 ≤ request.length && request.length < L.BUFFER_MAX

@[simp] theorem Limits.accepts_eq_true (L : Limits) (request : List UInt8) :
    L.accepts request = true ↔ 1 ≤ request.length ∧ request.length < L.BUFFER_MAX := by
  simp [Limits.accepts]

/-- The inner loop of `main` over the requests of one connection: the responses sent, and how
the connection ended (`none` when it was closed, `some i` at a fault). -/
def serve (L : Limits) (store : CertStore) (buf : List UInt8) :
    List (List UInt8) → List Response × Option Nat
  | [] => ([], none)
  | request :: rest =>
    if !L.accepts request then ([], none) else
    match execute L store (receive buf request) with
    | .fault i => ([], some i)
    | .sent buf response =>
      let (responses, e) := serve L store buf rest
      (response :: responses, e)

section Rounds

variable {L : Limits}

/-- A byte the loop steps over: neither the end of the request nor a delimiter. -/
def Limits.Plain (L : Limits) (b : UInt8) : Prop := b ≠ 0 ∧ b ≠ L.CMD_DELIMITER

instance (L : Limits) (b : UInt8) : Decidable (L.Plain b) := inferInstanceAs (Decidable (_ ∧ _))

@[simp] theorem round_reads (s : Scan) : (round L s).1.reads = s.reads ++ [s.cmd] := by
  unfold round
  dsimp only
  split
  · rfl
  · split_ifs <;> rfl

@[simp] theorem round_buf_length (s : Scan) : (round L s).1.buf.length = s.buf.length := by
  unfold round
  dsimp only
  split
  · rfl
  · split_ifs <;> simp

/-- A round that does not stop read inside the buffer and moved `cmd` on. -/
theorem round_cmd {s : Scan} (hs : (round L s).2 = none) :
    s.cmd < s.buf.length ∧ s.cmd < (round L s).1.cmd := by
  unfold round at hs ⊢
  dsimp only at hs ⊢
  split at hs
  · simp at hs
  · next b hb =>
    refine ⟨(List.getElem?_eq_some_iff.mp hb).1, ?_⟩
    split_ifs at hs ⊢ <;> simp_all
    omega

theorem scan_succ (fuel : Nat) (s : Scan) : scan L (fuel + 1) s =
    match (round L s).2 with
    | some e => ((round L s).1, e)
    | none => scan L fuel (round L s).1 := by
  simp only [scan]
  split <;> simp_all

theorem round_of_none {s : Scan} (hs : s.buf[s.cmd]? = none) :
    round L s = ({ s with reads := s.reads ++ [s.cmd] }, some .fault) := by
  simp [round, hs]

theorem round_of_plain {s : Scan} {b : UInt8} (hs : s.buf[s.cmd]? = some b) (hb : L.Plain b) :
    round L s = ({ s with cmd := s.cmd + 1, reads := s.reads ++ [s.cmd] }, none) := by
  simp [round, hs, hb.1, hb.2]

theorem round_of_nul {s : Scan} (hs : s.buf[s.cmd]? = some 0) :
    round L s = ({ s with reads := s.reads ++ [s.cmd] }, some .nul) := by
  simp [round, hs]

/-- At a delimiter the loop writes the NUL, records the next argument, and then steps over the
byte after the delimiter as well. -/
theorem round_of_delimiter {s : Scan} (hs : s.buf[s.cmd]? = some L.CMD_DELIMITER)
    (hd : L.CMD_DELIMITER ≠ 0) (hn : s.arg.length ≠ L.TOKEN_MAX) :
    round L s = (⟨s.buf.set s.cmd 0, s.cmd + 2, s.arg ++ [s.cmd + 1], s.reads ++ [s.cmd]⟩, none) := by
  simp [round, hs, hd, hn]

/-- Over a run of plain bytes the loop only advances and reads. -/
theorem scan_plain (fuel : Nat) (pre seg post : List UInt8) (s : Scan)
    (hbuf : s.buf = pre ++ seg ++ post) (hcmd : s.cmd = pre.length) (hseg : ∀ b ∈ seg, L.Plain b) :
    scan L (fuel + seg.length) s =
      scan L fuel { s with cmd := s.cmd + seg.length, reads := s.reads ++ List.range' s.cmd seg.length } := by
  induction seg generalizing pre s with
  | nil => simp
  | cons b seg ih =>
    have hb : s.buf[s.cmd]? = some b := by
      rw [hbuf, hcmd, List.append_assoc, List.getElem?_append_right (le_refl _)]
      simp
    rw [show fuel + (b :: seg).length = fuel + seg.length + 1 by simp; omega, scan_succ,
      round_of_plain hb (hseg b (List.mem_cons_self _ _))]
    dsimp only
    rw [ih (pre ++ [b]) _ (by simpa using hbuf) (by simp [hcmd])
      fun x hx => hseg x (List.mem_cons_of_mem _ hx)]
    simp only [List.length_cons, List.range'_succ, List.append_assoc, List.singleton_append]
    congr 2
    omega

theorem scan_reads_prefix (fuel : Nat) (s : Scan) :
    ∃ more, (scan L fuel s).1.reads = s.reads ++ more := by
  induction fuel generalizing s with
  | zero => exact ⟨[], by simp [scan]⟩
  | succ fuel ih =>
    rw [scan_succ]
    split
    · exact ⟨[s.cmd], round_reads s⟩
    · obtain ⟨more, hm⟩ := ih (round L s).1
      exact ⟨s.cmd :: more, by simp [hm]⟩

/-- A run records the index of its first read first. -/
theorem scan_reads (fuel : Nat) (s : Scan) :
    ∃ more, (scan L (fuel + 1) s).1.reads = s.reads ++ s.cmd :: more := by
  rw [scan_succ]
  split
  · exact ⟨[], round_reads s⟩
  · obtain ⟨more, hm⟩ := scan_reads_prefix fuel (round L s).1
    exact ⟨more, by rw [hm, round_reads]; simp⟩

theorem mem_reads_scan_succ (fuel : Nat) (s : Scan) : s.cmd ∈ (scan L (fuel + 1) s).1.reads := by
  obtain ⟨more, hm⟩ := scan_reads (L := L) fuel s
  simp [hm]

/-- Every round that does not stop reads inside the buffer and moves on, so rounds beyond the
bytes left change nothing: `tokenize` never stops for want of rounds. -/
theorem scan_fuel (fuel : Nat) (s : Scan) (hfuel : s.buf.length - s.cmd < fuel) :
    scan L (fuel + 1) s = scan L fuel s := by
  induction fuel generalizing s with
  | zero => omega
  | succ fuel ih =>
    rw [scan_succ (fuel + 1), scan_succ fuel s]
    split
    · rfl
    · next hs =>
      obtain ⟨hlt, hmove⟩ := round_cmd hs
      exact ih (round L s).1 (by rw [round_buf_length]; omega)

/-- A token and the delimiter after it: the loop writes the NUL over the delimiter, records the
next argument, and goes on two bytes after the delimiter. -/
theorem scan_token (fuel : Nat) (pre seg post : List UInt8) (s : Scan)
    (hbuf : s.buf = pre ++ seg ++ L.CMD_DELIMITER :: post) (hcmd : s.cmd = pre.length)
    (hseg : ∀ b ∈ seg, L.Plain b) (hd : L.CMD_DELIMITER ≠ 0) (hn : s.arg.length ≠ L.TOKEN_MAX) :
    scan L (fuel + seg.length + 1) s =
      scan L fuel ⟨pre ++ seg ++ 0 :: post, pre.length + seg.length + 2,
        s.arg ++ [pre.length + seg.length + 1], s.reads ++ List.range' pre.length (seg.length + 1)⟩ := by
  have hb : ({ s with cmd := s.cmd + seg.length, reads := s.reads ++ List.range' s.cmd seg.length }
      : Scan).buf[s.cmd + seg.length]? = some L.CMD_DELIMITER := by
    rw [hbuf, hcmd, List.getElem?_append_right (by simp)]
    simp
  rw [Nat.add_right_comm, scan_plain (fuel + 1) pre seg _ s hbuf hcmd hseg, scan_succ,
    round_of_delimiter hb hd hn]
  dsimp only
  rw [hbuf, hcmd, List.set_append_right _ _ (by simp)]
  simp only [List.length_append, Nat.sub_self, List.set_cons_zero, List.range'_concat,
    List.append_assoc, List.singleton_append, Nat.one_mul]

end Rounds

theorem receive_length {old request : List UInt8} (h : request.length < old.length) :
    (receive old request).length = old.length := by
  simp [receive]
  omega

/-- Limits small enough to follow by hand: a 16-byte buffer and a tab as delimiter. -/
def smallLimits : Limits := ⟨16, 8, 16, 9⟩

/-- A request that ends in the delimiter: after it the loop steps over the request's NUL and
goes on reading at `count + 1`, where the bytes of an earlier request are, or past the end of
the buffer. -/
theorem tokenize_reads_past_request (L : Limits) (hdelim : L.CMD_DELIMITER ≠ 0)
    (htoken : L.TOKEN_MAX ≠ 1) (body : List UInt8) (hbody : ∀ b ∈ body, L.Plain b)
    (old : List UInt8) (hold : old.length = L.BUFFER_MAX)
    (haccept : L.accepts (body ++ [L.CMD_DELIMITER]) = true) :
    (body ++ [L.CMD_DELIMITER]).length + 1 ∈
        (tokenize L (receive old (body ++ [L.CMD_DELIMITER]))).1.reads ∧
      ((body ++ [L.CMD_DELIMITER]).length + 1 = L.BUFFER_MAX →
        (tokenize L (receive old (body ++ [L.CMD_DELIMITER]))).2 = .fault) := by
  have hcount : body.length + 2 ≤ L.BUFFER_MAX := by
    simp at haccept
    omega
  have hlen : (receive old (body ++ [L.CMD_DELIMITER])).length = L.BUFFER_MAX := by
    rw [receive_length (by simp; omega), hold]
  have hscan := scan_token (L.BUFFER_MAX - body.length - 1 + 1) [] body
    (0 :: old.drop (body.length + 2)) ⟨receive old (body ++ [L.CMD_DELIMITER]), 0, [0], []⟩
    (by simp [receive]) rfl hbody hdelim (by simpa using htoken.symm)
  rw [show L.BUFFER_MAX - body.length - 1 + 1 + body.length + 1 =
    (receive old (body ++ [L.CMD_DELIMITER])).length + 1 by rw [hlen]; omega] at hscan
  rw [tokenize, hscan]
  simp only [List.length_append, List.length_singleton, List.length_nil, Nat.zero_add]
  refine ⟨mem_reads_scan_succ _ _, fun hend => ?_⟩
  rw [scan_succ, round_of_none (by simp; omega)]

theorem tokenize_reads_past_request_listcacerts :
    (smallLimits.CMD_DELIMITER ≠ 0 ∧ smallLimits.TOKEN_MAX ≠ 1 ∧
      (∀ b ∈ bytesOf "listcacerts", smallLimits.Plain b) ∧
      (List.replicate 16 (0 : UInt8)).length = smallLimits.BUFFER_MAX ∧
      smallLimits.accepts (bytesOf "listcacerts" ++ [smallLimits.CMD_DELIMITER]) = true) ∧
    ((bytesOf "listcacerts" ++ [smallLimits.CMD_DELIMITER]).length + 1 ∈
        (tokenize smallLimits (receive (List.replicate 16 0)
          (bytesOf "listcacerts" ++ [smallLimits.CMD_DELIMITER]))).1.reads ∧
      ((bytesOf "listcacerts" ++ [smallLimits.CMD_DELIMITER]).length + 1 = smallLimits.BUFFER_MAX →
        (tokenize smallLimits (receive (List.replicate 16 0)
          (bytesOf "listcacerts" ++ [smallLimits.CMD_DELIMITER]))).2 = .fault)) :=
  ⟨⟨by decide, by decide, by decide, rfl, by decide⟩,
    tokenize_reads_past_request smallLimits (by decide) (by decide) _ (by decide) _ rfl (by decide)⟩

theorem cstr_of_nul (pre seg post : List UInt8) (hseg : ∀ b ∈ seg, b ≠ 0) :
    cstr (pre ++ seg ++ 0 :: post) pre.length = seg := by
  rw [cstr, List.append_assoc, List.drop_left,
    List.takeWhile_append_of_pos fun b hb => by simpa using hseg b hb]
  simp

theorem getElem?_length_append {α : Type} (l r : List α) (a : α) : (l ++ a :: r)[l.length]? = some a := by
  rw [List.getElem?_append_right (le_refl _)]
  simp

theorem execute_of_nul {L : Limits} {store : CertStore} {buf : List UInt8} {s : Scan}
    (hs : tokenize L buf = (s, .nul)) :
    execute L store buf = done L s.buf s.cmd (dispatch store s.buf s.arg).1 (dispatch store s.buf s.arg).2 := by
  rw [execute, hs]

theorem dispatch_getusercert (store : CertStore) {buf : List UInt8} (i : Nat)
    (hname : cstr buf 0 = bytesOf "getusercert") :
    dispatch store buf [0, i] =
      (shortOf (store.query "get_user_cert" [cstr buf i]).1, (store.query "get_user_cert" [cstr buf i]).2) := by
  simp only [dispatch, List.headD_cons, hname]
  rfl

/-- A reply that does not fit between `cmd` and the end of the buffer makes `strlcpy` write
past it. -/
theorem done_of_reply_past_end (L : Limits) (buf : List UInt8) (cmd : Nat) (ret : Int)
    (reply : List UInt8) (hreply : ∀ b ∈ reply, b ≠ 0) (hcmd : cmd < buf.length)
    (hlong : buf.length ≤ cmd + min reply.length (L.BUFFER_MAX - 1)) :
    done L buf cmd ret reply = .fault buf.length := by
  cases reply with
  | nil => simp at hlong; omega
  | cons r reply =>
    have hself : (r :: reply).takeWhile (· ≠ 0) = r :: reply :=
      List.takeWhile_eq_self_iff.mpr fun b hb => by simpa using hreply b hb
    simp only [List.length_cons] at hlong
    simp only [done, List.headD_cons, ne_eq, hreply r (List.mem_cons_self _ _), not_false_eq_true,
      ↓reduceIte, strlcpy, hself]
    rw [if_neg (by simp; omega)]
    simp [hcmd.le]

/-- `getusercert` with a name splits into the name: the loop stops at the request's NUL. -/
theorem tokenize_getusercert (L : Limits) (hdelim : L.CMD_DELIMITER ≠ 0) (htoken : L.TOKEN_MAX ≠ 1)
    (hcmd : ∀ b ∈ bytesOf "getusercert", L.Plain b) (x : UInt8) (name rest : List UInt8)
    (hname : ∀ b ∈ x :: name, L.Plain b) :
    tokenize L (bytesOf "getusercert" ++ L.CMD_DELIMITER :: x :: name ++ 0 :: rest) =
      (⟨bytesOf "getusercert" ++ [0, x] ++ name ++ 0 :: rest, 13 + name.length, [0, 12],
        List.range' 0 12 ++ List.range' 13 name.length ++ [13 + name.length]⟩, .nul) := by
  have hlen : (bytesOf "getusercert").length = 11 := rfl
  have hlength : (bytesOf "getusercert" ++ L.CMD_DELIMITER :: x :: name ++ 0 :: rest).length + 1 =
      rest.length + 2 + 1 + name.length + (bytesOf "getusercert").length + 1 := by
    simp
    omega
  rw [tokenize, hlength, scan_token _ [] (bytesOf "getusercert") (x :: name ++ 0 :: rest)
    ⟨bytesOf "getusercert" ++ L.CMD_DELIMITER :: x :: name ++ 0 :: rest, 0, [0], []⟩ (by simp) rfl hcmd
    hdelim (by simpa using htoken.symm)]
  change scan L (rest.length + 2 + 1 + name.length)
    ⟨bytesOf "getusercert" ++ [0, x] ++ name ++ 0 :: rest, 13, [0, 12], List.range' 0 12⟩ = _
  rw [scan_plain _ (bytesOf "getusercert" ++ [0, x]) name (0 :: rest) _ rfl rfl
    fun b hb => hname b (List.mem_cons_of_mem _ hb), scan_succ]
  have hnul := getElem?_length_append (bytesOf "getusercert" ++ [0, x] ++ name) rest 0
  rw [show (bytesOf "getusercert" ++ [0, x] ++ name).length = 13 + name.length by simp [hlen]; omega]
    at hnul
  rw [round_of_nul hnul]

/-- `getusercert` answered with a reply that does not fit behind the request: `strlcpy` copies
it to where splitting stopped, the end of the request, and writes past the buffer. -/
theorem execute_getusercert_reply_past_buffer (L : Limits) (hdelim : L.CMD_DELIMITER ≠ 0)
    (htoken : L.TOKEN_MAX ≠ 1) (hcmd : ∀ b ∈ bytesOf "getusercert", L.Plain b) (x : UInt8)
    (name : List UInt8) (hname : ∀ b ∈ x :: name, L.Plain b) (store : CertStore)
    (reply : List UInt8) (hreply : ∀ b ∈ reply, b ≠ 0)
    (hq : store.query "get_user_cert" [x :: name] = (0, reply)) (old : List UInt8)
    (hold : old.length = L.BUFFER_MAX)
    (haccept : L.accepts (bytesOf "getusercert" ++ L.CMD_DELIMITER :: x :: name) = true)
    (hlong : L.BUFFER_MAX ≤
      (bytesOf "getusercert" ++ L.CMD_DELIMITER :: x :: name).length + min reply.length (L.BUFFER_MAX - 1)) :
    execute L store (receive old (bytesOf "getusercert" ++ L.CMD_DELIMITER :: x :: name)) =
      .fault L.BUFFER_MAX := by
  have hlen : (bytesOf "getusercert").length = 11 := rfl
  have hcount : name.length + 14 ≤ L.BUFFER_MAX := by
    simp [hlen] at haccept
    omega
  simp only [List.length_append, List.length_cons, hlen] at hlong
  rw [receive, List.append_assoc, List.singleton_append]
  set rest := old.drop ((bytesOf "getusercert" ++ L.CMD_DELIMITER :: x :: name).length + 1)
  have hbl : (bytesOf "getusercert" ++ [0, x] ++ name ++ 0 :: rest).length = L.BUFFER_MAX := by
    simp [rest, hlen, hold]
    omega
  have hname₀ : cstr (bytesOf "getusercert" ++ [0, x] ++ name ++ 0 :: rest) 0 = bytesOf "getusercert" := by
    simpa using cstr_of_nul [] (bytesOf "getusercert") (x :: name ++ 0 :: rest) fun b hb => (hcmd b hb).1
  have hname₁ : cstr (bytesOf "getusercert" ++ [0, x] ++ name ++ 0 :: rest) 12 = x :: name := by
    simpa [hlen] using cstr_of_nul (bytesOf "getusercert" ++ [0]) (x :: name) rest fun b hb => (hname b hb).1
  rw [execute_of_nul (tokenize_getusercert L hdelim htoken hcmd x name rest hname)]
  dsimp only
  rw [dispatch_getusercert store 12 hname₀, hname₁, hq, ← hbl]
  exact done_of_reply_past_end L _ _ _ reply hreply (by omega) (by rw [hbl]; omega)

/-- A store whose every query succeeds with the reply `AAA`. -/
def replyAAA : CertStore := ⟨fun _ _ => 0, fun _ _ => (0, [65, 65, 65])⟩

theorem execute_getusercert_reply_past_buffer_small :
    (smallLimits.CMD_DELIMITER ≠ 0 ∧ smallLimits.TOKEN_MAX ≠ 1 ∧
      (∀ b ∈ bytesOf "getusercert", smallLimits.Plain b) ∧ (∀ b ∈ ([] : List UInt8), smallLimits.Plain b) ∧
      smallLimits.Plain 107 ∧ (∀ b ∈ [65, 65, 65], b ≠ (0 : UInt8)) ∧
      replyAAA.query "get_user_cert" [[107]] = (0, [65, 65, 65]) ∧
      (List.replicate 16 (0 : UInt8)).length = smallLimits.BUFFER_MAX ∧
      smallLimits.accepts (bytesOf "getusercert" ++ [smallLimits.CMD_DELIMITER, 107]) = true ∧
      smallLimits.BUFFER_MAX ≤ (bytesOf "getusercert" ++ [smallLimits.CMD_DELIMITER, 107]).length +
        min [65, 65, 65].length (smallLimits.BUFFER_MAX - 1)) ∧
    execute smallLimits replyAAA (receive (List.replicate 16 0)
      (bytesOf "getusercert" ++ [smallLimits.CMD_DELIMITER, 107])) = .fault smallLimits.BUFFER_MAX :=
  ⟨⟨by decide, by decide, by decide, by decide, by decide, by decide, rfl, rfl, by decide, by decide⟩,
    execute_getusercert_reply_past_buffer smallLimits (by decide) (by decide) (by decide) 107 []
      (by decide) replyAAA [65, 65, 65] (by decide) rfl _ rfl (by decide) (by decide)⟩

end Cmds.Keystore
