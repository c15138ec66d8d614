import Cmds.Keystore.Framing

/-!
# The daemon across connections

`main` serves connection after connection on one `BUFFER_MAX`-byte buffer it never clears, so
a connection starts from whatever the ones before it left. Still every response is well formed,
and a connection whose requests do not end in the delimiter is answered as a fresh daemon would.
-/

namespace Cmds.Keystore

/-- One accepted connection: the answers of the store while it is served, how its `read`s
answer, and the bytes its client sends before it closes the socket. -/
structure Accepted where
  store : CertStore
  answers : List ReadAnswer
  stream : List UInt8

/-- `main` run without arguments (with arguments it is `shellCommand`): its outer `for (;;)` from
the buffer `buf`, each accepted connection served on the buffer the one before it left, for at
most `fuel` passes; the responses sent on each. A fault ends the model. -/
def main (L : Limits) (fuel : Nat) : List UInt8 → List Accepted → List (List Response)
  | _, [] => []
  | buf, conn :: conns =>
    let r := connection L conn.store buf fuel conn.answers conn.stream
    r.1.1 :: if r.1.2.isSome then [] else main L fuel r.2 conns

/-- A connection whose client framed `requests`, each shorter than 65536 bytes and none ending
in the delimiter, whose reads never fail for good, and which `fuel` passes cover. -/
def Accepted.Clean (L : Limits) (fuel : Nat) (conn : Accepted) (requests : List (List UInt8)) :
    Prop :=
  conn.stream = requests.flatMap frame ∧
    (∀ r ∈ requests, r.length < 65536 ∧ r.getLast? ≠ some L.CMD_DELIMITER) ∧
    requests.length < fuel ∧ ∀ a ∈ conn.answers, a ≠ .error

/-- The connections a run of the daemon served, in order, each with the responses sent on it,
related by `R`. -/
theorem daemon_forall₂ {L : Limits} {fuel : Nat} {R : Accepted → List Response → Prop}
    (hstep : ∀ buf, buf.length = L.BUFFER_MAX → ∀ conn : Accepted,
      R conn (connection L conn.store buf fuel conn.answers conn.stream).1.1)
    (buf : List UInt8) (hbuf : buf.length = L.BUFFER_MAX) (conns : List Accepted) :
    ∃ served, served <+: conns ∧ List.Forall₂ R served (main L fuel buf conns) := by
  induction conns generalizing buf with
  | nil => exact ⟨[], List.prefix_refl _, .nil⟩
  | cons conn conns ih =>
    have hlen := connection_length L conn.store buf hbuf fuel conn.answers conn.stream
    cases hf : (connection L conn.store buf fuel conn.answers conn.stream).1.2.isSome
    · obtain ⟨served, hp, hr⟩ := ih _ hlen
      refine ⟨conn :: served, List.prefix_cons_inj conn |>.mpr hp, ?_⟩
      simp only [main, hf]
      exact .cons (hstep buf hbuf conn) hr
    · refine ⟨[conn], List.prefix_cons_inj conn |>.mpr List.nil_prefix, ?_⟩
      simp only [main, hf]
      exact .cons (hstep buf hbuf conn) .nil

theorem forall_mem_of_forall₂ {α β : Type} {P : β → Prop} {l₁ : List α} {l₂ : List β}
    (h : List.Forall₂ (fun _ b => P b) l₁ l₂) : ∀ b ∈ l₂, P b := by
  induction h with
  | nil => simp
  | cons hb _ ih => exact List.forall_mem_cons.mpr ⟨hb, ih⟩

/-- Whatever every client sends and however every read goes, each response of each connection
the daemon serves is well formed. -/
theorem daemon_wellFormed (L : Limits) (fuel : Nat) (buf : List UInt8)
    (hbuf : buf.length = L.BUFFER_MAX) (conns : List Accepted) :
    ∀ responses ∈ main L fuel buf conns, ∀ r ∈ responses, r.WellFormed L := by
  obtain ⟨served, -, hr⟩ := daemon_forall₂ (R := fun _ responses => ∀ r ∈ responses, r.WellFormed L)
    (fun buf hbuf conn => connection_wellFormed L conn.store buf hbuf fuel conn.answers conn.stream)
    buf hbuf conns
  exact forall_mem_of_forall₂ hr

theorem daemon_wellFormed_small :
    (List.replicate 16 (0 : UInt8)).length = smallLimits.BUFFER_MAX ∧
      ∀ responses ∈ main smallLimits 2 (List.replicate 16 0)
          [⟨replyAAA, [.upTo 0], frame (bytesOf "listcacerts")⟩],
        ∀ r ∈ responses, r.WellFormed smallLimits :=
  ⟨rfl, daemon_wellFormed smallLimits 2 (List.replicate 16 0) rfl _⟩

/-- Clients are isolated from one another through the shared buffer: the daemon serves a prefix
of the accepted connections, in order, and answers each connection whose requests do not end in
the delimiter exactly as a fresh daemon would, whatever the connections before it sent, however
their reads went, and whatever they left in the buffer. -/
theorem daemon_eq_statelessServe (L : Limits) (hdelim : L.CMD_DELIMITER ≠ 0) (fuel : Nat)
    (buf : List UInt8) (hbuf : buf.length = L.BUFFER_MAX) (conns : List Accepted) :
    ∃ served, served <+: conns ∧ List.Forall₂ (fun conn responses => ∀ requests,
      conn.Clean L fuel requests → responses = statelessServe L conn.store requests)
      served (main L fuel buf conns) := by
  refine daemon_forall₂ (fun buf hbuf conn requests hclean => ?_) buf hbuf conns
  obtain ⟨hstream, hreq, hfuel, herror⟩ := hclean
  rw [hstream]
  exact connection_eq_statelessServe L hdelim conn.store requests (fun r hr => (hreq r hr).1)
    (fun r hr => (hreq r hr).2) buf hbuf fuel hfuel conn.answers herror

/-- The first client sends a request and then a frame cut off mid-request, leaving the bytes
of both in `buf`; the second is answered as a fresh daemon answers it. -/
def staleConnections : List Accepted :=
  [⟨replyAAA, [.upTo 2], frame (bytesOf "getcacert") ++ [12, 0] ++ bytesOf "getus"⟩,
    ⟨replyAAA, [.eintr, .upTo 0], frame (bytesOf "listcacerts")⟩]

theorem daemon_eq_statelessServe_stale :
    smallLimits.CMD_DELIMITER ≠ 0 ∧ (List.replicate 16 (0 : UInt8)).length = smallLimits.BUFFER_MAX ∧
      (∃ served : List Accepted, served <+: staleConnections ∧
        List.Forall₂ (fun conn responses => ∀ requests,
          conn.Clean smallLimits 2 requests → responses = statelessServe smallLimits conn.store requests)
          served (main smallLimits 2 (List.replicate 16 0) staleConnections)) ∧
      (main smallLimits 2 (List.replicate 16 0) staleConnections)[1]? =
        some (statelessServe smallLimits replyAAA [bytesOf "listcacerts"]) :=
  ⟨by decide, rfl, daemon_eq_statelessServe smallLimits (by decide) 2 (List.replicate 16 0) rfl _,
    by decide⟩

end Cmds.Keystore
