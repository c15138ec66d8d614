import Cmds.Keystore.Client
import Cmds.Keystore.Framing

/-!
# One `keystore` command, end to end

`keystore` run with arguments is `shellCommand`: it joins them, sends the framed request and
prints the reply the daemon writes back. With plain arguments, all after the first non-empty,
and a reply that fits, it prints the handler's reply exactly (`session_eq`).
-/

namespace Cmds.Keystore

/-- What the command table makes of the client's arguments: the handler the first one names,
run on the others when their number is right, and `ret = -1` with no reply otherwise. -/
def dispatchArgs (store : CertStore) (argv : List (List UInt8)) : Int × List UInt8 :=
  match cmds.find? fun c => bytesOf c.name = argv.headD [] with
  | none => (-1, [])
  | some c =>
    if argv.length - 1 ≠ c.numargs then (-1, [])
    else
      let (ret, reply) := c.func store (argv.drop 1)
      (shortOf ret, reply)

/-- The command table reads the split buffer only through the C strings at the arguments. -/
theorem dispatch_eq_dispatchArgs (store : CertStore) (buf : List UInt8) {arg : List Nat}
    (harg : arg ≠ []) : dispatch store buf arg = dispatchArgs store (arg.map (cstr buf)) := by
  cases arg with
  | nil => exact absurd rfl harg
  | cons p rest =>
    simp only [dispatch, dispatchArgs, List.headD_cons, List.map_cons]
    cases h : cmds.find? fun c => bytesOf c.name = cstr buf p <;> simp [h]

/-- Splitting writes a NUL over each delimiter, so the request keeps its length. -/
theorem length_flatMap_cons {α : Type} (x y : α) (l : List (List α)) :
    (l.flatMap (x :: ·)).length = (l.flatMap (y :: ·)).length := by
  induction l with
  | nil => rfl
  | cons r l ih => simp [ih]

/-- The daemon on the request `shell_command` joins: when the handler's reply fits behind the
request it sends `ret` and, when it is `0`, the reply. -/
theorem execute_shellRequest (L : Limits) (hdelim : L.CMD_DELIMITER ≠ 0)
    (hmax : L.BUFFER_MAX ≤ 65536) (store : CertStore) (a : List UInt8) (rest : List (List UInt8))
    (ha : ∀ b ∈ a, L.Plain b) (hrest : ∀ r ∈ rest, r ≠ [] ∧ ∀ b ∈ r, L.Plain b)
    (htoken : rest.length < L.TOKEN_MAX) {ret : Int} {reply : List UInt8}
    (hd : dispatchArgs store (a :: rest) = (ret, reply))
    (hfit : (a ++ rest.flatMap (L.CMD_DELIMITER :: ·)).length + (replyCopy L reply).length + 1 ≤
      L.BUFFER_MAX) (old : List UInt8) (hold : old.length = L.BUFFER_MAX) :
    ∃ buf', execute L store (receive old (a ++ rest.flatMap (L.CMD_DELIMITER :: ·))) =
      .sent buf' ⟨ret, if ret = 0 then some ((replyCopy L reply).length, replyCopy L reply) else none⟩ := by
  obtain ⟨reads, htok⟩ := tokenize_receive_join L hdelim a rest ha hrest htoken old
  rw [execute_of_nul htok]
  dsimp only
  rw [dispatch_eq_dispatchArgs store _ (List.cons_ne_nil _ _), map_cstr_join L a rest _ ha hrest, hd]
  have hlen : (a ++ rest.flatMap (0 :: ·) ++
      0 :: old.drop ((a ++ rest.flatMap (L.CMD_DELIMITER :: ·)).length + 1)).length = L.BUFFER_MAX := by
    simp only [List.length_append, List.length_cons, List.length_drop] at hfit ⊢
    rw [length_flatMap_cons 0 L.CMD_DELIMITER]
    omega
  obtain ⟨buf', response, hsent⟩ := @done_sent_of_fits L _ _ ret _
    fun _ => show _ ≤ (a ++ rest.flatMap (0 :: ·) ++ 0 :: old.drop _).length by rw [hlen]; exact hfit
  obtain ⟨rfl, -⟩ := done_sent hsent
  refine ⟨buf', ?_⟩
  rw [hsent, Nat.mod_eq_of_lt (by omega), List.take_length]

/-- `shell_command` once connected, `respond` giving the bytes the daemon sends back for the bytes
written to it: "Arguments are too long" when the join does not fit, otherwise the framed request
is written and the response read. -/
def shellCommand (L : Limits) (argv : List (List UInt8)) (answers : List ReadAnswer)
    (respond : List UInt8 → List UInt8) : ShellEnd :=
  match shellRequest L argv with
  | none => .stderr (bytesOf "Arguments are too long\n")
  | some request => shellReply L answers (respond (frame request))

/-- One run of `keystore` with the arguments `argv`: `shellCommand` talks to the daemon, which
serves the connection on its buffer `old` and writes its responses; `none` when the arguments
are too long to send. -/
def session (L : Limits) (store : CertStore) (old : List UInt8) (fuel : Nat)
    (daemonReads clientReads : List ReadAnswer) (argv : List (List UInt8)) : Option ShellEnd :=
  (shellRequest L argv).map fun _ => shellCommand L argv clientReads fun sent =>
    (connection L store old fuel daemonReads sent).1.1.flatMap responseBytes

/-- A whole `keystore` command: with plain arguments, all after the first non-empty, and a reply
that fits behind the request in the daemon's buffer, the client prints the handler's reply when
`ret` is `0` and the failure line otherwise, whatever the sizes of the reads on either side and
however often they are interrupted, as long as none fails for good. -/
theorem session_eq (L : Limits) (hdelim : L.CMD_DELIMITER ≠ 0) (hmax : L.BUFFER_MAX ≤ 65536)
    (store : CertStore) (a : List UInt8) (rest : List (List UInt8)) (ha : ∀ b ∈ a, L.Plain b)
    (hrest : ∀ r ∈ rest, r ≠ [] ∧ ∀ b ∈ r, L.Plain b) (htoken : rest.length < L.TOKEN_MAX)
    (hne : a ++ rest.flatMap (L.CMD_DELIMITER :: ·) ≠ []) {ret : Int} {reply : List UInt8}
    (hd : dispatchArgs store (a :: rest) = (ret, reply))
    (hfit : (a ++ rest.flatMap (L.CMD_DELIMITER :: ·)).length + (replyCopy L reply).length + 1 ≤
      L.BUFFER_MAX)
    (old : List UInt8) (hold : old.length = L.BUFFER_MAX) (fuel : Nat) (hfuel : 1 < fuel)
    (daemonReads clientReads : List ReadAnswer) (hdaemon : ∀ x ∈ daemonReads, x ≠ .error)
    (hclient : ∀ x ∈ clientReads, x ≠ .error) :
    session L store old fuel daemonReads clientReads (a :: rest) =
      some (if ret = 0 then .stdout (replyCopy L reply ++ bytesOf "\n")
        else .stderr (bytesOf "Failed, please check log!\n")) := by
  have hlen := List.length_append a (rest.flatMap (L.CMD_DELIMITER :: ·))
  have haccept : L.accepts (a ++ rest.flatMap (L.CMD_DELIMITER :: ·)) = true :=
    (L.accepts_eq_true _).mpr ⟨List.length_pos.mpr hne, by omega⟩
  obtain ⟨buf', hexec⟩ := execute_shellRequest L hdelim hmax store a rest ha hrest htoken hd hfit old hold
  have hwf := execute_wellFormed hexec ((receive_length (by omega)).trans hold) (by omega)
  have hconn := connection_eq_serve L store [a ++ rest.flatMap (L.CMD_DELIMITER :: ·)]
    (by simp only [List.mem_singleton, forall_eq]; omega) old fuel (by simpa using hfuel) daemonReads
    hdaemon
  simp only [List.flatMap_cons, List.flatMap_nil, List.append_nil, serve, haccept, hexec,
    Bool.not_true, Bool.false_eq_true, ↓reduceIte] at hconn
  simp only [session, shellCommand, shellRequest_of_fits L a rest (by omega), Option.map_some',
    hconn, List.flatMap_cons, List.flatMap_nil, List.append_nil]
  rw [← List.append_nil (responseBytes _), shellReply_responseBytes hwf [] clientReads hclient]
  by_cases h0 : ret = 0 <;> simp [h0]

theorem session_eq_listcacerts :
    (smallLimits.CMD_DELIMITER ≠ 0 ∧ smallLimits.BUFFER_MAX ≤ 65536 ∧
      (∀ b ∈ bytesOf "listcacerts", smallLimits.Plain b) ∧
      (∀ r ∈ ([] : List (List UInt8)), r ≠ [] ∧ ∀ b ∈ r, smallLimits.Plain b) ∧
      ([] : List (List UInt8)).length < smallLimits.TOKEN_MAX ∧
      bytesOf "listcacerts" ++ ([] : List (List UInt8)).flatMap (smallLimits.CMD_DELIMITER :: ·) ≠ [] ∧
      dispatchArgs replyAAA [bytesOf "listcacerts"] = (0, [65, 65, 65]) ∧
      (bytesOf "listcacerts" ++ ([] : List (List UInt8)).flatMap (smallLimits.CMD_DELIMITER :: ·)).length +
        (replyCopy smallLimits [65, 65, 65]).length + 1 ≤ smallLimits.BUFFER_MAX ∧
      (List.replicate 16 (0 : UInt8)).length = smallLimits.BUFFER_MAX ∧ 1 < 2 ∧
      (∀ x ∈ ([] : List ReadAnswer), x ≠ .error)) ∧
    session smallLimits replyAAA (List.replicate 16 0) 2 [] [] [bytesOf "listcacerts"] =
      some (if (0 : Int) = 0 then .stdout (replyCopy smallLimits [65, 65, 65] ++ bytesOf "\n")
        else .stderr (bytesOf "Failed, please check log!\n")) :=
  ⟨⟨by decide, by decide, by decide, by decide, by decide, by decide, rfl, by decide, rfl, by decide,
      by decide⟩,
    session_eq smallLimits (by decide) (by decide) replyAAA (bytesOf "listcacerts") [] (by decide)
      (by decide) (by decide) (by decide) rfl (by decide) (List.replicate 16 0) rfl 2 (by decide) [] []
      (by decide) (by decide)⟩

end Cmds.Keystore
