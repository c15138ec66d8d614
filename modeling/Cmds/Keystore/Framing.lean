import Mathlib.Data.List.Infix
import Cmds.Keystore.Connection

/-!
# The bytes of a connection

`shell_command` frames a request as an `unsigned short` count and that many bytes, and `readx`
reads them through short reads, `EINTR`s, failures and the end of the stream; a read that fails
halfway leaves its bytes in `buf`. The count is taken low byte first, and a `write` never fails.
-/

namespace Cmds.Keystore

/-- What one `read(s, buf + n, count - n)` does: return at least one and at most `n + 1` of the
bytes asked for that are waiting, fail with `EINTR`, or fail with another error. -/
inductive ReadAnswer
  | upTo (n : Nat)
  | eintr
  | error
  deriving DecidableEq, Repr

/-- `readx(s, buf, count)`, `left` being `count - n`, the bytes still to read: the bytes it wrote
to `buf`, and what is left of the answers and of the stream, or `none` when it returns `-1` at an
error or at the end of the stream. Once the answers are used up, each `read` returns all it asks
for that is waiting. -/
def readx : Nat → List ReadAnswer → List UInt8 → List UInt8 × Option (List ReadAnswer × List UInt8)
  | 0, answers, stream => ([], some (answers, stream))
  | left + 1, [], stream =>
    if left + 1 ≤ stream.length then (stream.take (left + 1), some ([], stream.drop (left + 1)))
    else (stream, none)
  | left + 1, .eintr :: answers, stream => readx (left + 1) answers stream
  | _ + 1, .error :: _, _ => ([], none)
  | left + 1, .upTo n :: answers, stream =>
    if stream = [] then ([], none) else
    let r := min (n + 1) (min (left + 1) stream.length)
    let next := readx (left + 1 - r) answers (stream.drop r)
    (stream.take r ++ next.1, next.2)

example : readx 3 [.upTo 0, .eintr, .error] [1, 2, 3, 4] = ([1], none) := by decide

/-- Reading `r` bytes and then `k - r` more reads the first `k`. -/
theorem take_append_take_drop {α : Type} (l : List α) {r k : Nat} (h : r ≤ k) :
    l.take r ++ (l.drop r).take (k - r) = l.take k ∧ (l.drop r).drop (k - r) = l.drop k :=
  ⟨by rw [← List.take_add, Nat.add_sub_cancel' h], by rw [List.drop_drop, Nat.add_sub_cancel' h]⟩

/-- `readx` succeeds only with the first `count` bytes of the stream. -/
theorem readx_some {count : Nat} {answers answers' : List ReadAnswer}
    {stream got stream' : List UInt8}
    (h : readx count answers stream = (got, some (answers', stream'))) :
    count ≤ stream.length ∧ got = stream.take count ∧ stream' = stream.drop count := by
  induction count, answers, stream using readx.induct generalizing got answers' stream' with
  | case1 answers stream =>
    simp only [readx, Prod.mk.injEq, Option.some.injEq] at h
    obtain ⟨rfl, -, rfl⟩ := h
    simp
  | case2 left stream hle =>
    simp only [readx, if_pos hle, Prod.mk.injEq, Option.some.injEq] at h
    exact ⟨hle, h.1.symm, h.2.2.symm⟩
  | case3 left stream hlt => simp [readx, hlt] at h
  | case4 left answers stream ih => exact ih h
  | case5 => simp [readx] at h
  | case6 => simp [readx] at h
  | case7 left n answers stream hne r =>
    rename_i ih
    rcases hx : readx (left + 1 - r) answers (stream.drop r) with ⟨got', rest⟩
    simp only [readx, if_neg hne, hx, Prod.mk.injEq] at h
    obtain ⟨rfl, rfl⟩ := h
    obtain ⟨hle, rfl, rfl⟩ := ih hx
    obtain ⟨ht, hd⟩ := take_append_take_drop stream
      (show r ≤ left + 1 from (Nat.min_le_right _ _).trans (Nat.min_le_left _ _))
    refine ⟨?_, ht, hd⟩
    simp only [List.length_drop] at hle
    omega

/-- `readx` writes at most the `count` bytes it is asked for, whether it succeeds or not. -/
theorem readx_length_le (count : Nat) (answers : List ReadAnswer) (stream : List UInt8) :
    (readx count answers stream).1.length ≤ count := by
  induction count, answers, stream using readx.induct with
  | case1 => simp [readx]
  | case2 left stream hle => simp [readx, hle]
  | case3 left stream hlt =>
    simp only [readx, if_neg hlt]
    omega
  | case4 left answers stream ih => simpa [readx] using ih
  | case5 => simp [readx]
  | case6 => simp [readx]
  | case7 left n answers stream hne r =>
    rename_i ih
    have hr : r ≤ left + 1 := (Nat.min_le_right _ _).trans (Nat.min_le_left _ _)
    have hx : (readx (left + 1) (.upTo n :: answers) stream).1 =
        stream.take r ++ (readx (left + 1 - r) answers (stream.drop r)).1 := by
      rw [readx, if_neg hne]
    rw [hx, List.length_append, List.length_take]
    omega

/-- With no read failing for good, `readx` reads any `count` bytes the stream holds, whatever
the sizes of the reads and however often they are interrupted. -/
theorem readx_live {count : Nat} {answers : List ReadAnswer} {stream : List UInt8}
    (herror : ∀ a ∈ answers, a ≠ .error) (hle : count ≤ stream.length) :
    ∃ answers', answers' <:+ answers ∧
      readx count answers stream = (stream.take count, some (answers', stream.drop count)) := by
  induction count, answers, stream using readx.induct with
  | case1 answers stream => exact ⟨answers, List.suffix_refl _, by simp [readx]⟩
  | case2 left stream hle => exact ⟨[], List.suffix_refl _, by simp [readx, hle]⟩
  | case3 left stream hlt => exact absurd hle hlt
  | case4 left answers stream ih =>
    obtain ⟨a', hs, h⟩ := ih (fun a ha => herror a (List.mem_cons_of_mem _ ha)) hle
    exact ⟨a', hs.trans (List.suffix_cons _ _), by rw [readx, h]⟩
  | case5 => exact absurd rfl (herror _ (List.mem_cons_self _ _))
  | case6 left n answers => simp at hle
  | case7 left n answers stream hne r =>
    rename_i ih
    obtain ⟨a', hs, h⟩ := ih (fun a ha => herror a (List.mem_cons_of_mem _ ha)) (by simp; omega)
    obtain ⟨ht, hd⟩ := take_append_take_drop stream
      (show r ≤ left + 1 from (Nat.min_le_right _ _).trans (Nat.min_le_left _ _))
    refine ⟨a', hs.trans (List.suffix_cons _ _), ?_⟩
    simp only [readx, if_neg hne, h, ht, hd]

/-- With no read failing for good, `readx` reads the bytes at the head of the stream whole. -/
theorem readx_append {count : Nat} {answers : List ReadAnswer} {got : List UInt8}
    (rest : List UInt8) (herror : ∀ a ∈ answers, a ≠ .error) (hlen : got.length = count) :
    ∃ answers', answers' <:+ answers ∧ readx count answers (got ++ rest) = (got, some (answers', rest)) := by
  obtain ⟨a, hs, h⟩ := readx_live herror (show count ≤ (got ++ rest).length by simp [hlen])
  exact ⟨a, hs, by rw [h, List.take_left' hlen, List.drop_left' hlen]⟩

/-- An `unsigned short` as it lies in memory, low byte first. -/
def shortBytes (n : Nat) : List UInt8 := [n.toUInt8, (n / 256).toUInt8]

/-- The `unsigned short` the two bytes read into `&count` hold. -/
def shortValue (b : List UInt8) : Nat := (b.getD 0 0).toNat + 256 * (b.getD 1 0).toNat

theorem shortValue_shortBytes {n : Nat} (h : n < 65536) : shortValue (shortBytes n) = n := by
  have hbyte : ∀ m : Nat, m.toUInt8.toNat = m % 256 := fun _ => rfl
  simp only [shortValue, shortBytes, List.getD_cons_zero, List.getD_cons_succ, hbyte]
  omega

@[simp] theorem length_shortBytes (n : Nat) : (shortBytes n).length = 2 := rfl

theorem shortBytes_take_drop (n : Nat) (rest : List UInt8) :
    (shortBytes n ++ rest).take 2 = shortBytes n ∧ (shortBytes n ++ rest).drop 2 = rest :=
  ⟨List.take_left' rfl, List.drop_left' rfl⟩

/-- What `shell_command` writes: `count = strlen(buf)` as an `unsigned short`, then the bytes of
the request, which holds no NUL. -/
def frame (request : List UInt8) : List UInt8 := shortBytes request.length ++ request

/-- The two reads that begin each pass of `main`'s inner loop, of the count into `count` and of
the request into `buf`: the bytes written to `buf`, and what is left of the answers and of the
stream, or `none` where the loop breaks before `execute`: a `readx` fails or the count is out of
range. -/
def readRequest (L : Limits) (answers : List ReadAnswer) (stream : List UInt8) :
    List UInt8 × Option (List ReadAnswer × List UInt8) :=
  match readx 2 answers stream with
  | (_, none) => ([], none)
  | (size, some (answers, stream)) =>
    let count := shortValue size
    if count < 1 ∨ count ≥ L.BUFFER_MAX then ([], none) else readx count answers stream

/-- The inner `for (;;)` of `main` on the bytes a client sent, for at most `fuel` passes: the
responses sent and how the connection ended, as `serve` gives them, and the buffer left for the
next connection. A fault ends the model; the buffer it gives then is the one the request was
read into. -/
def connection (L : Limits) (store : CertStore) (buf : List UInt8) :
    Nat → List ReadAnswer → List UInt8 → (List Response × Option Nat) × List UInt8
  | 0, _, _ => (([], none), buf)
  | fuel + 1, answers, stream =>
    match readRequest L answers stream with
    | (written, none) => (([], none), written ++ buf.drop written.length)
    | (request, some (answers, stream)) =>
      match execute L store (receive buf request) with
      | .fault i => (([], some i), receive buf request)
      | .sent buf response =>
        let next := connection L store buf fuel answers stream
        ((response :: next.1.1, next.1.2), next.2)

/-- At the end of the stream the loop breaks. -/
theorem readRequest_nil (L : Limits) (answers : List ReadAnswer) :
    (readRequest L answers []).2 = none := by
  rcases h : readx 2 answers [] with ⟨size, _ | x⟩
  · simp [readRequest, h]
  · simpa using (readx_some h).1

/-- A request `main` goes on to `execute` is one whose size it accepts. -/
theorem readRequest_accepts {L : Limits} {answers answers' : List ReadAnswer}
    {stream request stream' : List UInt8}
    (h : readRequest L answers stream = (request, some (answers', stream'))) :
    L.accepts request = true := by
  unfold readRequest at h
  rcases hsize : readx 2 answers stream with ⟨size, _ | ⟨a, s⟩⟩
  · simp [hsize] at h
  · simp only [hsize] at h
    split_ifs at h with hrange
    · simp at h
    · obtain ⟨hle, rfl, -⟩ := readx_some h
      simp only [Limits.accepts_eq_true, List.length_take]
      omega

/-- The reads of one pass write fewer than `BUFFER_MAX` bytes to `buf`. -/
theorem readRequest_length_le (L : Limits) (answers : List ReadAnswer) (stream : List UInt8) :
    (readRequest L answers stream).1.length ≤ L.BUFFER_MAX := by
  unfold readRequest
  rcases readx 2 answers stream with ⟨size, _ | ⟨a, s⟩⟩
  · exact Nat.zero_le _
  · dsimp only
    split_ifs with hrange
    · exact Nat.zero_le _
    · have := readx_length_le (shortValue size) a s
      omega

/-- Reading a frame gives back its request, and only when `main` accepts its size. -/
theorem readRequest_frame {L : Limits} {answers answers' : List ReadAnswer}
    {request rest got stream' : List UInt8} (hshort : request.length < 65536)
    (h : readRequest L answers (frame request ++ rest) = (got, some (answers', stream'))) :
    got = request ∧ stream' = rest ∧ L.accepts request = true := by
  have haccept := readRequest_accepts h
  rw [frame, List.append_assoc, readRequest] at h
  rcases hsize : readx 2 answers (shortBytes request.length ++ (request ++ rest)) with
    ⟨size, _ | ⟨a, s⟩⟩
  · simp [hsize] at h
  · obtain ⟨-, rfl, rfl⟩ := readx_some hsize
    simp only [hsize, shortBytes_take_drop, shortValue_shortBytes hshort] at h
    split_ifs at h with hrange
    · simp at h
    · obtain ⟨hle, rfl, rfl⟩ := readx_some h
      simpa only [List.take_left, List.drop_left, true_and] using haccept

/-- With no read failing for good, an accepted request is read whole, whatever the sizes of the
reads and however often they are interrupted. -/
theorem readRequest_frame_live {L : Limits} {answers : List ReadAnswer} {request : List UInt8}
    (rest : List UInt8) (herror : ∀ a ∈ answers, a ≠ .error) (hshort : request.length < 65536)
    (haccept : L.accepts request = true) :
    ∃ answers', answers' <:+ answers ∧
      readRequest L answers (frame request ++ rest) = (request, some (answers', rest)) := by
  have hrange := (L.accepts_eq_true request).mp haccept
  obtain ⟨a, hsa, hsize⟩ := readx_append (request ++ rest) herror (length_shortBytes request.length)
  obtain ⟨a', hsa', hreq⟩ := readx_append rest (fun x hx => herror x (hsa.subset hx)) rfl
  refine ⟨a', hsa'.trans hsa, ?_⟩
  simp only [frame, List.append_assoc, readRequest, hsize, shortValue_shortBytes hshort]
  rw [if_neg (by omega), hreq]

/-- A response as `execute` sends it: `ret` a `short`, a reply exactly when `ret` is `0`, and a
reply of `count` bytes, none of them NUL, with `count` an `unsigned short` below `BUFFER_MAX`. -/
structure Response.WellFormed (L : Limits) (response : Response) : Prop where
  ret_ge : -32768 ≤ response.ret
  ret_lt : response.ret < 32768
  reply_eq_none : response.reply = none ↔ response.ret ≠ 0
  reply_some : ∀ count bytes, response.reply = some (count, bytes) →
    bytes.length = count ∧ count < 65536 ∧ count < L.BUFFER_MAX ∧ ∀ b ∈ bytes, b ≠ 0

theorem Response.wellFormed_mk {L : Limits} {ret : Int} {count : Nat} {bytes : List UInt8}
    (hge : -32768 ≤ ret) (hlt : ret < 32768) (hlen : bytes.length = count) (hshort : count < 65536)
    (hbuf : count < L.BUFFER_MAX) (hnul : ∀ b ∈ bytes, b ≠ 0) :
    (Response.mk ret (if ret = 0 then some (count, bytes) else none)).WellFormed L := by
  refine ⟨hge, hlt, by by_cases h0 : ret = 0 <;> simp [h0], fun c b h => ?_⟩
  by_cases h0 : ret = 0 <;>
    simp only [h0, ↓reduceIte, Option.some.injEq, Prod.mk.injEq, reduceCtorEq] at h
  obtain ⟨rfl, rfl⟩ := h
  exact ⟨hlen, hshort, hbuf, hnul⟩

theorem shortOf_range (x : Int) : -32768 ≤ shortOf x ∧ shortOf x < 32768 :=
  ⟨Int.le_bmod (by decide), Int.bmod_lt (by decide)⟩

theorem dispatch_ret_range (store : CertStore) (buf : List UInt8) (arg : List Nat) :
    -32768 ≤ (dispatch store buf arg).1 ∧ (dispatch store buf arg).1 < 32768 := by
  unfold dispatch
  split
  · decide
  · split
    · decide
    · exact shortOf_range _

/-- `done` sends a well-formed response for any `ret` that is a `short`. -/
theorem done_wellFormed {L : Limits} {buf buf' : List UInt8} {cmd : Nat} {ret : Int}
    {reply : List UInt8} {response : Response} (h : done L buf cmd ret reply = .sent buf' response)
    (hbuf : buf.length = L.BUFFER_MAX) (hpos : 0 < L.BUFFER_MAX) (hge : -32768 ≤ ret)
    (hlt : ret < 32768) : response.WellFormed L := by
  obtain ⟨rfl, hfit⟩ := done_sent h
  have hcopy : (replyCopy L reply).length < L.BUFFER_MAX := by
    by_cases hr : reply.headD 0 = 0
    · rw [replyCopy_eq_nil hr]
      exact hpos
    · have := hfit hr
      omega
  have hmod := Nat.mod_le (replyCopy L reply).length 65536
  exact Response.wellFormed_mk hge hlt (List.length_take_of_le hmod) (Nat.mod_lt _ (by omega))
    (by omega) fun x hx => ne_zero_of_mem_copy (List.mem_of_mem_take hx)

/-- `execute` on a buffer of `BUFFER_MAX` bytes sends only well-formed responses. -/
theorem execute_wellFormed {L : Limits} {store : CertStore} {buf buf' : List UInt8}
    {response : Response} (h : execute L store buf = .sent buf' response)
    (hbuf : buf.length = L.BUFFER_MAX) (hpos : 0 < L.BUFFER_MAX) : response.WellFormed L := by
  have hl : (tokenize L buf).1.buf.length = buf.length := scan_buf_length L _ _
  unfold execute at h
  rcases ht : tokenize L buf with ⟨s, e⟩
  rw [ht] at h hl
  cases e with
  | fault => cases h
  | tooMany => exact done_wellFormed h (hl.trans hbuf) hpos (by omega) (by omega)
  | nul =>
    dsimp only at h
    have hr := dispatch_ret_range store s.buf s.arg
    rcases hd : dispatch store s.buf s.arg with ⟨ret, reply⟩
    rw [hd] at h hr
    exact done_wellFormed h (hl.trans hbuf) hpos hr.1 hr.2

/-- At the end of the stream a connection sends nothing and is closed. -/
theorem connection_nil (L : Limits) (store : CertStore) (buf : List UInt8) (fuel : Nat)
    (answers : List ReadAnswer) : (connection L store buf fuel answers []).1 = ([], none) := by
  cases fuel with
  | zero => rfl
  | succ fuel =>
    rcases h : readRequest L answers [] with ⟨written, res⟩
    have hres := readRequest_nil L answers
    rw [h] at hres
    subst hres
    simp only [connection, h]

/-- The request of a pass is received into a buffer of `BUFFER_MAX` bytes. -/
theorem readRequest_receive_length {L : Limits} {answers answers' : List ReadAnswer}
    {stream request stream' buf : List UInt8}
    (h : readRequest L answers stream = (request, some (answers', stream')))
    (hbuf : buf.length = L.BUFFER_MAX) : (receive buf request).length = L.BUFFER_MAX := by
  have hrange := (L.accepts_eq_true request).mp (readRequest_accepts h)
  exact (receive_length (by omega)).trans hbuf

/-- Whatever `read` does and whatever the client sends, a connection keeps a buffer of
`BUFFER_MAX` bytes, the bytes a failed read wrote staying inside it, and sends only responses
that `execute` sends on such a buffer. -/
theorem connection_invariant (L : Limits) (store : CertStore) {P : Response → Prop}
    (hexec : ∀ buf buf' response, buf.length = L.BUFFER_MAX → 0 < L.BUFFER_MAX →
      execute L store buf = .sent buf' response → P response)
    (buf : List UInt8) (hbuf : buf.length = L.BUFFER_MAX) (fuel : Nat) (answers : List ReadAnswer)
    (stream : List UInt8) :
    (connection L store buf fuel answers stream).2.length = L.BUFFER_MAX ∧
      ∀ r ∈ (connection L store buf fuel answers stream).1.1, P r := by
  induction fuel generalizing buf answers stream with
  | zero => exact ⟨hbuf, by simp [connection]⟩
  | succ fuel ih =>
    have hw := readRequest_length_le L answers stream
    rcases h : readRequest L answers stream with ⟨request, _ | ⟨a, s⟩⟩
    · simp only [h] at hw
      simp only [connection, h, List.length_append, List.length_drop, List.not_mem_nil]
      exact ⟨by omega, fun _ => False.elim⟩
    · have hrecv := readRequest_receive_length h hbuf
      have hpos := (L.accepts_eq_true request).mp (readRequest_accepts h)
      cases hx : execute L store (receive buf request) with
      | fault i => simpa [connection, h, hx] using hrecv
      | sent buf' response =>
        obtain ⟨hlen, hall⟩ := ih buf' ((execute_length hx).trans hrecv) a s
        simp only [connection, h, hx, List.forall_mem_cons]
        exact ⟨hlen, hexec _ _ _ hrecv (by omega) hx, hall⟩

theorem connection_length (L : Limits) (store : CertStore) (buf : List UInt8)
    (hbuf : buf.length = L.BUFFER_MAX) (fuel : Nat) (answers : List ReadAnswer)
    (stream : List UInt8) : (connection L store buf fuel answers stream).2.length = L.BUFFER_MAX :=
  (connection_invariant L store (P := fun _ => True) (fun _ _ _ _ _ _ => trivial) buf hbuf fuel
    answers stream).1

/-- Whatever `read` does and whatever the client sends, every response the daemon sends on a
connection is well formed. -/
theorem connection_wellFormed (L : Limits) (store : CertStore) (buf : List UInt8)
    (hbuf : buf.length = L.BUFFER_MAX) (fuel : Nat) (answers : List ReadAnswer)
    (stream : List UInt8) :
    ∀ r ∈ (connection L store buf fuel answers stream).1.1, r.WellFormed L :=
  (connection_invariant L store (fun _ _ _ hb hpos hx => execute_wellFormed hx hb hpos) buf hbuf
    fuel answers stream).2

/-- Whatever `read` does, a connection answers a prefix of the requests the client framed, each
as `serve` answers it. -/
theorem connection_eq_serve_take (L : Limits) (store : CertStore) (requests : List (List UInt8))
    (hshort : ∀ r ∈ requests, r.length < 65536) (buf : List UInt8) (fuel : Nat)
    (answers : List ReadAnswer) :
    ∃ k ≤ requests.length,
      (connection L store buf fuel answers (requests.flatMap frame)).1 = serve L store buf (requests.take k) := by
  induction requests generalizing buf fuel answers with
  | nil => exact ⟨0, le_rfl, connection_nil L store buf fuel answers⟩
  | cons request rest ih =>
    cases fuel with
    | zero => exact ⟨0, Nat.zero_le _, rfl⟩
    | succ fuel =>
      have hr := hshort request (List.mem_cons_self _ _)
      rw [List.flatMap_cons]
      rcases h : readRequest L answers (frame request ++ rest.flatMap frame) with ⟨got, _ | ⟨a, s⟩⟩
      · exact ⟨0, Nat.zero_le _, by simp [connection, h, serve]⟩
      · obtain ⟨rfl, rfl, ha⟩ := readRequest_frame hr h
        cases hx : execute L store (receive buf got) with
        | fault i => exact ⟨1, by simp, by simp [connection, h, hx, serve, ha]⟩
        | sent buf' response =>
          obtain ⟨k, hk, heq⟩ := ih (fun r hr => hshort r (List.mem_cons_of_mem _ hr)) buf' fuel a
          exact ⟨k + 1, by simpa using hk, by simp [connection, h, hx, serve, ha, heq]⟩

theorem connection_eq_serve_take_listcacerts :
    (∀ r ∈ [bytesOf "listcacerts", bytesOf "getcacert"], r.length < 65536) ∧
      (∃ k ≤ [bytesOf "listcacerts", bytesOf "getcacert"].length,
        (connection smallLimits replyAAA (List.replicate 16 0) 3 [.upTo 0, .eintr, .upTo 4]
            ([bytesOf "listcacerts", bytesOf "getcacert"].flatMap frame)).1 =
          serve smallLimits replyAAA (List.replicate 16 0)
            ([bytesOf "listcacerts", bytesOf "getcacert"].take k)) ∧
      (connection smallLimits replyAAA (List.replicate 16 0) 3 [.upTo 0, .eintr, .upTo 4]
        ([bytesOf "listcacerts", bytesOf "getcacert"].flatMap frame)).1.1.length = 2 :=
  ⟨by decide, connection_eq_serve_take smallLimits replyAAA _ (by decide) _ 3 _, by decide⟩

/-- With no read failing for good and a pass for each request and for the end of the stream, a
connection answers the requests exactly as `serve` does. -/
theorem connection_eq_serve (L : Limits) (store : CertStore) (requests : List (List UInt8))
    (hshort : ∀ r ∈ requests, r.length < 65536) (buf : List UInt8) (fuel : Nat)
    (hfuel : requests.length < fuel) (answers : List ReadAnswer)
    (herror : ∀ a ∈ answers, a ≠ .error) :
    (connection L store buf fuel answers (requests.flatMap frame)).1 = serve L store buf requests := by
  induction requests generalizing buf fuel answers with
  | nil => exact connection_nil L store buf fuel answers
  | cons request rest ih =>
    obtain ⟨fuel, rfl⟩ := Nat.exists_eq_add_one_of_ne_zero (show fuel ≠ 0 by simp at hfuel; omega)
    have hr := hshort request (List.mem_cons_self _ _)
    rw [List.flatMap_cons]
    by_cases ha : L.accepts request = true
    · obtain ⟨a, hsa, h⟩ := readRequest_frame_live (rest.flatMap frame) herror hr ha
      cases hx : execute L store (receive buf request) with
      | fault i => simp [connection, h, hx, serve, ha]
      | sent buf' response =>
        have hrest := ih (fun r hr => hshort r (List.mem_cons_of_mem _ hr)) buf' fuel
          (by simpa using hfuel) a (fun x hx => herror x (hsa.subset hx))
        simp [connection, h, hx, serve, ha, hrest]
    · rcases h : readRequest L answers (frame request ++ rest.flatMap frame) with ⟨got, _ | x⟩
      · simp [connection, h, serve, ha]
      · exact absurd (readRequest_frame hr h).2.2 ha

/-- From the bytes `shell_command` sends to what its client sees: under any sizes of the reads
and any `EINTR`s, and with no request ending in the delimiter, the daemon answers each request
of a connection as a fresh daemon would. -/
theorem connection_eq_statelessServe (L : Limits) (hdelim : L.CMD_DELIMITER ≠ 0) (store : CertStore)
    (requests : List (List UInt8)) (hshort : ∀ r ∈ requests, r.length < 65536)
    (hlast : ∀ r ∈ requests, r.getLast? ≠ some L.CMD_DELIMITER) (buf : List UInt8)
    (hbuf : buf.length = L.BUFFER_MAX) (fuel : Nat) (hfuel : requests.length < fuel)
    (answers : List ReadAnswer) (herror : ∀ a ∈ answers, a ≠ .error) :
    (connection L store buf fuel answers (requests.flatMap frame)).1.1 = statelessServe L store requests := by
  rw [connection_eq_serve L store requests hshort buf fuel hfuel answers herror,
    serve_eq_statelessServe L hdelim store requests hlast buf hbuf]

/-- What `execute` writes for a response: `ret` as a `short`, then, when it is `0`, `count` as
an `unsigned short` and the `count` bytes at `cmd`. -/
def responseBytes (response : Response) : List UInt8 :=
  shortBytes (response.ret % 65536).toNat ++
    match response.reply with
    | some (count, bytes) => shortBytes count ++ bytes
    | none => []

/-- The `short` two bytes hold. -/
def shortSigned (b : List UInt8) : Int :=
  if shortValue b < 32768 then shortValue b else shortValue b - 65536

theorem shortSigned_shortBytes {x : Int} (hge : -32768 ≤ x) (hlt : x < 32768) :
    shortSigned (shortBytes (x % 65536).toNat) = x := by
  rw [shortSigned, shortValue_shortBytes (by omega)]
  split <;> omega

/-- How `shell_command` ends once its request is sent: a line on standard output or on standard
error, `-1` at a failed read, or a fault past the end of its buffer. -/
inductive ShellEnd
  | stdout (line : List UInt8)
  | stderr (line : List UInt8)
  | readFailed
  | fault (i : Nat)
  deriving DecidableEq, Repr

/-- The end of `shell_command`: it reads `ret` and, when it is `0`, `count` and the reply into its
`BUFFER_MAX`-byte `buf`, which it prints up to the first NUL. A `count` of `BUFFER_MAX` or more
writes past `buf`, by `readx` or by `buf[count] = 0`: the model faults at the first byte past it. -/
def shellReply (L : Limits) (answers : List ReadAnswer) (stream : List UInt8) : ShellEnd :=
  match readx 2 answers stream with
  | (_, none) => .readFailed
  | (ret, some (answers, stream)) =>
    if shortSigned ret ≠ 0 then .stderr (bytesOf "Failed, please check log!\n") else
    match readx 2 answers stream with
    | (_, none) => .readFailed
    | (count, some (answers, stream)) =>
      let (buf, rest) := readx (shortValue count) answers stream
      if L.BUFFER_MAX < buf.length then .fault L.BUFFER_MAX else
      match rest with
      | none => .readFailed
      | some _ =>
        if shortValue count < L.BUFFER_MAX then .stdout (buf.takeWhile (· ≠ 0) ++ bytesOf "\n")
        else .fault L.BUFFER_MAX

/-- `shell_command` prints the reply of a well-formed response exactly, whatever the sizes of the
reads and however often they are interrupted, as long as none fails for good. -/
theorem shellReply_responseBytes {L : Limits} {response : Response} (hwf : response.WellFormed L)
    (rest : List UInt8) (answers : List ReadAnswer) (herror : ∀ a ∈ answers, a ≠ .error) :
    shellReply L answers (responseBytes response ++ rest) =
      match response.reply with
      | some (_, bytes) => .stdout (bytes ++ bytesOf "\n")
      | none => .stderr (bytesOf "Failed, please check log!\n") := by
  have hret := shortSigned_shortBytes hwf.ret_ge hwf.ret_lt
  cases hreply : response.reply with
  | none =>
    obtain ⟨a, -, h₁⟩ := readx_append rest herror (length_shortBytes (response.ret % 65536).toNat)
    simp only [responseBytes, hreply, List.append_nil, shellReply, h₁, hret, ne_eq,
      hwf.reply_eq_none.mp hreply, not_false_eq_true, ↓reduceIte]
  | some p =>
    obtain ⟨count, bytes⟩ := p
    obtain ⟨hlen, hshort, hlt, hnul⟩ := hwf.reply_some count bytes hreply
    have h0 : response.ret = 0 := not_not.mp fun h => by simp [hwf.reply_eq_none.mpr h] at hreply
    rw [h0] at hret
    obtain ⟨a₁, hs₁, h₁⟩ := readx_append (shortBytes count ++ (bytes ++ rest)) herror
      (length_shortBytes ((0 : Int) % 65536).toNat)
    obtain ⟨a₂, hs₂, h₂⟩ := readx_append (bytes ++ rest) (fun x hx => herror x (hs₁.subset hx))
      (length_shortBytes count)
    obtain ⟨a₃, -, h₃⟩ := readx_append rest (fun x hx => herror x (hs₁.subset (hs₂.subset hx))) hlen
    simp only [responseBytes, hreply, h0, List.append_assoc, shellReply, h₁, hret, h₂,
      shortValue_shortBytes hshort, h₃, hlen, Nat.not_lt.mpr hlt.le, hlt, ne_eq, not_true_eq_false,
      ↓reduceIte]
    rw [List.takeWhile_eq_self_iff.mpr (by simpa using hnul)]

end Cmds.Keystore
