import VrxServer.Base.Ends
import VrxServer.WebSocket.Request
import VrxServer.WebSocket.Send

/-! The sockets of `connect`.

The addresses are tried one after the other, each on a socket of its own, which is made
non-blocking for the time of the attempt; the first that connects is kept for the handshake,
and that can fail too. What the system's calls return is a parameter. Whatever they do, no
socket is left behind, and the one that is kept blocks and has no time limit, as the read
loop needs it (`connect_sockets`). -/
namespace VrxServer.WebSocket
open Base

/-- A socket the client has open. -/
structure Socket where
  fd : ℕ
  nonblocking : Bool
  connected : Bool
  /-- `SO_RCVTIMEO` in seconds, 0 for none. -/
  rcvTimeout : ℕ
  sent : List UInt8

/-- The client, its open sockets and the calls that open and close them. -/
structure Dialing where
  sockets : List Socket
  /-- `none` for -1. -/
  fd_ : Option ℕ
  pendingBytes : List UInt8
  created : List ℕ
  closed : List ℕ

def Dialing.fresh : Dialing := ⟨[], none, [], [], []⟩

/-- What `connect` throws is a text. -/
abbrev Dial (T : Type) := EStateM (List UInt8) Dialing T

/-! ### The calls -/

/-- How `select` and `getsockopt` end an attempt that is in progress. -/
inductive Waited where
  | timedOut
  | failed (errno : List UInt8)
  | ready (soErr : Option (List UInt8))

/-- How `::connect` ends. -/
inductive Connected where
  | done
  | failed (errno : List UInt8)
  | inProgress (waited : Waited)

/-- The calls at one address. -/
structure Attempt where
  socket : Except (List UInt8) ℕ
  connect : Connected

namespace Dial

def socket (fd : ℕ) : Dial Unit :=
  modify fun s => {s with sockets := ⟨fd, false, false, 0, []⟩ :: s.sockets, created := s.created ++ [fd]}

def close (fd : ℕ) : Dial Unit :=
  modify fun s => {s with sockets := s.sockets.filter fun k => k.fd != fd, closed := s.closed ++ [fd]}

/-- A call that changes the socket at `fd`, if there is one. -/
def change (fd : ℕ) (f : Socket → Socket) : Dial Unit :=
  modify fun s => {s with sockets := s.sockets.map fun k => if k.fd = fd then f k else k}

end Dial

/-! ### Connecting -/

def kConnectTimeoutSec : ℕ := 5

def kHandshakeTimeoutSec : ℕ := 5

/-- `none` for success; otherwise the text `err` is set to. -/
def connectWithTimeout (fd : ℕ) (result : Connected) : Dial (Option (List UInt8)) := do
  let flags := (← get).sockets.any fun k => k.fd = fd && k.nonblocking
  Dial.change fd fun k => {k with nonblocking := true}
  match result with
  | .done | .inProgress (.ready none) => do
    Dial.change fd fun k => {k with connected := true}
    Dial.change fd fun k => {k with nonblocking := flags}
    return none
  | .failed errno | .inProgress (.failed errno) | .inProgress (.ready (some errno)) => return some errno
  | .inProgress .timedOut => return some (ascii "timed out after " ++ decimal kConnectTimeoutSec ++ ascii "s")

/-- The loop over the addresses: the descriptor it ends with, if any, and `lastError`. -/
def tryAddresses : List Attempt → List UInt8 → Dial (Option ℕ × List UInt8)
  | [], lastError => return (none, lastError)
  | a :: attempts, lastError =>
    match a.socket with
    | .error errno => tryAddresses attempts errno
    | .ok fd => do
      Dial.socket fd
      match ← connectWithTimeout fd a.connect with
      | none => return (some fd, lastError)
      | some err => do
        Dial.close fd
        tryAddresses attempts err

/-- What the calls of `connect` return. -/
structure Network where
  /-- `getaddrinfo`: what `gai_strerror` says of its error, or the addresses. -/
  getaddrinfo : Except (List UInt8) (List Attempt)
  /-- The bytes drawn for the key. -/
  raw : Fin 16 → UInt8
  /-- What the calls of `send` return, and the error's text. -/
  results : ℕ → ℤ
  sendErrno : List UInt8
  reads : List (List UInt8)
  last : LastRead

variable (N : Network)

/-- The body of the `try`: the reads it leaves to the read loop. -/
def upgrade (fd : ℕ) (host : List UInt8) (port : UInt16) : Dial (List (List UInt8)) := do
  let key := generateWebSocketKey N.raw
  Dial.change fd fun k => {k with rcvTimeout := kHandshakeTimeoutSec}
  match sendAll (requestText host port key) N.results with
  | none => throw []
  | some sent => do
    Dial.change fd fun k => {k with sent := k.sent ++ sent.wire}
    if !sent.returned then throw (ascii "send() failed: " ++ N.sendErrno)
  match recvResponse [] N.reads with
  | none => throw N.last.error
  | some (response, left) => do
    Dial.change fd fun k => {k with rcvTimeout := 0}
    match checkResponse key response with
    | none => throw []
    | some (.error e) => throw e
    | some (.ok ()) => do
      modify fun s => {s with pendingBytes := afterHeader response}
      return left

/-- `catch (...)` and `throw`: what was done stays done. -/
def rethrowAfter {T : Type} (body : Dial T) (handler : Dial Unit) : Dial T := fun s =>
  match body s with
  | .error e t => (handler >>= fun _ => throw e) t
  | r => r

def connect (host : List UInt8) (port : UInt16) : Dial (List (List UInt8)) := do
  match N.getaddrinfo with
  | .error err => throw (ascii "getaddrinfo(\"" ++ host ++ ascii "\") failed: " ++ err)
  | .ok attempts => do
    let (fd, lastError) ← tryAddresses attempts []
    match fd with
    | none => throw (ascii "connect() to " ++ host ++ ascii ":" ++ decimal port.toNat ++ ascii " failed: " ++ lastError)
    | some fd => do
      modify fun s => {s with fd_ := some fd}
      rethrowAfter (upgrade N fd host port) do
        Dial.close fd
        modify fun s => {s with fd_ := none}

/-! ### What each part leaves -/

namespace Dial
variable {s : Dialing} {Q : Unit → Dialing → Prop} {X : List UInt8 → Dialing → Prop}

@[simp] theorem ends_modify {f : Dialing → Dialing} :
    Ends (modify f : Dial Unit) s Q X ↔ Q () (f s) := Iff.rfl

@[simp] theorem ends_socket {fd : ℕ} : Ends (socket fd) s Q X ↔
    Q () {s with sockets := ⟨fd, false, false, 0, []⟩ :: s.sockets, created := s.created ++ [fd]} := Iff.rfl

@[simp] theorem ends_close {fd : ℕ} : Ends (close fd) s Q X ↔
    Q () {s with sockets := s.sockets.filter fun k => k.fd != fd, closed := s.closed ++ [fd]} := Iff.rfl

@[simp] theorem ends_change {fd : ℕ} {f : Socket → Socket} : Ends (change fd f) s Q X ↔
    Q () {s with sockets := s.sockets.map fun k => if k.fd = fd then f k else k} := Iff.rfl

end Dial

theorem ends_rethrowAfter {T : Type} {body : Dial T} {handler : Dial Unit} {s : Dialing} {Q : T → Dialing → Prop}
    {X Y : List UInt8 → Dialing → Prop} (hbody : Ends body s Q Y)
    (hhandler : ∀ e t, Y e t → Ends handler t (fun _ u => X e u) X) : Ends (rethrowAfter body handler) s Q X := by
  unfold Ends at hbody ⊢
  unfold rethrowAfter
  cases hs : body s with
  | ok a t =>
    rw [hs] at hbody
    exact hbody
  | error e t =>
    rw [hs] at hbody
    have hthrown : Ends (handler >>= fun _ => (throw e : Dial T)) t Q X := by
      rw [ends_bind]
      exact (hhandler e t hbody).mono (fun _ _ hu => hu) fun _ _ hu => hu
    exact hthrown

/-- An attempt that ends with a socket that is connected. -/
def Connected.succeeds : Connected → Bool
  | .done | .inProgress (.ready none) => true
  | _ => false

/-- The socket of the first address that connects. -/
def firstConnected (attempts : List Attempt) : Option ℕ :=
  attempts.findSome? fun a =>
    match a.socket with
    | .ok fd => if a.connect.succeeds then some fd else none
    | .error _ => none

theorem connectWithTimeout_spec {s : Dialing} {fd : ℕ} (h : s.sockets = [⟨fd, false, false, 0, []⟩])
    (result : Connected) :
    Ends (connectWithTimeout fd result) s
      (fun err t => (err = none ↔ result.succeeds = true) ∧
        ∃ k, t = {s with sockets := [k]} ∧ k.fd = fd ∧ (err = none → k = ⟨fd, false, true, 0, []⟩))
      (fun _ _ => False) := by
  have hflags : ((s.sockets.any fun k => k.fd = fd && k.nonblocking) : Bool) = false := by simp [h]
  simp only [connectWithTimeout, ends_bind, ends_get, Dial.ends_change, hflags]
  cases result with
  | done =>
    simp only [ends_bind, Dial.ends_change, ends_pure]
    simp [h, Connected.succeeds]
  | failed errno => simp [h, Connected.succeeds]
  | inProgress waited =>
    cases waited with
    | timedOut => simp [h, Connected.succeeds]
    | failed errno => simp [h, Connected.succeeds]
    | ready soErr =>
      cases soErr with
      | none =>
        simp only [ends_bind, Dial.ends_change, ends_pure]
        simp [h, Connected.succeeds]
      | some errno => simp [h, Connected.succeeds]

/-- Every socket that was created is closed, but for the last if the loop keeps it. -/
theorem tryAddresses_spec (attempts : List Attempt) (lastError : List UInt8) {s : Dialing} (hnone : s.sockets = [])
    (hclosed : s.created = s.closed) :
    Ends (tryAddresses attempts lastError) s
      (fun r t => r.1 = firstConnected attempts ∧ t.fd_ = s.fd_ ∧ t.pendingBytes = s.pendingBytes ∧
        (r.1 = none → t.sockets = [] ∧ t.created = t.closed) ∧
        ∀ fd, r.1 = some fd → t.sockets = [⟨fd, false, true, 0, []⟩] ∧ t.created = t.closed ++ [fd])
      (fun _ _ => False) := by
  induction attempts generalizing lastError s with
  | nil => exact ⟨rfl, rfl, rfl, fun _ => ⟨hnone, hclosed⟩, fun _ hfd => by cases hfd⟩
  | cons a attempts ih =>
    rw [tryAddresses]
    cases hsocket : a.socket with
    | error errno =>
      have hskip : firstConnected (a :: attempts) = firstConnected attempts := by
        rw [firstConnected, List.findSome?_cons, hsocket]
        rfl
      rw [hskip]
      exact ih errno hnone hclosed
    | ok fd =>
      have hfirst : firstConnected (a :: attempts) =
          if a.connect.succeeds then some fd else firstConnected attempts := by
        rw [firstConnected, List.findSome?_cons, hsocket]
        cases a.connect.succeeds <;> rfl
      simp only [ends_bind, Dial.ends_socket, hnone]
      refine (connectWithTimeout_spec rfl a.connect).mono ?_ fun _ _ hfalse => hfalse
      rintro err _ ⟨hsucceeds, k, rfl, rfl, hk⟩
      cases err with
      | none =>
        rw [hfirst, if_pos (hsucceeds.mp rfl)]
        refine ⟨rfl, rfl, rfl, fun hfd => (by cases hfd), ?_⟩
        intro fd hfd
        obtain rfl := Option.some.inj hfd
        have hcreated : s.created ++ [k.fd] = s.closed ++ [k.fd] := by rw [hclosed]
        refine ⟨?_, hcreated⟩
        conv_lhs => rw [hk rfl]
      | some err =>
        have hfailed : a.connect.succeeds = false := by
          rw [Bool.eq_false_iff]
          intro hdone
          cases hsucceeds.mpr hdone
        rw [hfirst, hfailed, if_neg Bool.false_ne_true]
        rw [ends_bind, Dial.ends_close]
        refine (ih err ?_ ?_).mono (fun _ _ h => h) fun _ _ hfalse => hfalse
        · simp
        · simp [hclosed]

/-- The request is sent to its end, and the reply is taken. -/
def Network.Upgraded (host : List UInt8) (port : UInt16) : Prop :=
  let key := generateWebSocketKey N.raw
  (∃ sent, sendAll (requestText host port key) N.results = some sent ∧ sent.returned = true) ∧ Accepts key N.reads N.last

theorem upgrade_spec {fd : ℕ} (host : List UInt8) (port : UInt16) {s : Dialing}
    (h : s.sockets = [⟨fd, false, true, 0, []⟩]) :
    Ends (upgrade N fd host port) s
      (fun left t => N.Upgraded host port ∧ ∃ saved,
        t = {s with
          sockets := [⟨fd, false, true, 0, requestText host port (generateWebSocketKey N.raw)⟩], pendingBytes := saved} ∧
        handshake (generateWebSocketKey N.raw) N.reads N.last = some (.ok (saved, left)))
      (fun _ t => ¬ N.Upgraded host port ∧ ∃ k, t = {s with sockets := [k]} ∧ k.fd = fd) := by
  obtain ⟨sent, hsent, -, hall, -⟩ := sendLoop_spec (requestText host port (generateWebSocketKey N.raw)) N.results
    ((requestText host port (generateWebSocketKey N.raw)).length + 1) 0 0 (by omega)
  have hsendAll : sendAll (requestText host port (generateWebSocketKey N.raw)) N.results = some sent := hsent
  have hupgraded : N.Upgraded host port ↔
      sent.returned = true ∧ Accepts (generateWebSocketKey N.raw) N.reads N.last := by
    simp only [Network.Upgraded, hsendAll, Option.some.injEq, exists_eq_left']
  rw [hupgraded]
  simp only [upgrade, ends_bind, Dial.ends_change, hsendAll, h, List.map_cons, List.map_nil, if_true, List.nil_append]
  cases hreturned : sent.returned with
  | false => simp
  | true =>
    have hwire : sent.wire = requestText host port (generateWebSocketKey N.raw) := hall.mp hreturned
    simp only [Bool.not_true, Bool.false_eq_true, if_false, true_and, hwire]
    cases hrecv : recvResponse [] N.reads with
    | none =>
      have hrefused : ¬ Accepts (generateWebSocketKey N.raw) N.reads N.last := by
        simp [Accepts, handshake, hrecv]
      simp [hrefused]
    | some r =>
      obtain ⟨response, left⟩ := r
      obtain ⟨checked, hchecked, -⟩ := checkResponse_ok (generateWebSocketKey N.raw) response
      cases checked with
      | error e =>
        have hrefused : ¬ Accepts (generateWebSocketKey N.raw) N.reads N.last := by
          simp [Accepts, handshake, hrecv, hchecked]
        simp [hrefused, hchecked]
      | ok u =>
        have hrun : handshake (generateWebSocketKey N.raw) N.reads N.last = some (.ok (afterHeader response, left)) := by
          simp [handshake, hrecv, hchecked]
        have haccepts : Accepts (generateWebSocketKey N.raw) N.reads N.last := ⟨_, hrun⟩
        simp only [ends_bind, Dial.ends_change, hchecked, Dial.ends_modify, ends_pure, List.map_cons, List.map_nil, if_true]
        exact ⟨haccepts, afterHeader response, rfl, hrun⟩

/-- There is an address that connects, and the handshake succeeds on its socket. -/
def Network.Succeeds (host : List UInt8) (port : UInt16) (fd : ℕ) : Prop :=
  ∃ attempts, N.getaddrinfo = .ok attempts ∧ firstConnected attempts = some fd ∧ N.Upgraded host port

/-- **`connect` leaves one socket where it returns, and none where it throws.** It returns exactly
if the handshake succeeds on the first address that connects; then the client has that
address's socket, blocking and without a time limit, with all of the request sent on it and
nothing else. Every other socket it created it has closed, in order, and so all of them where it throws. -/
theorem connect_sockets (host : List UInt8) (port : UInt16) :
    Ends (connect N host port) .fresh
      (fun left t => ∃ fd, N.Succeeds host port fd ∧ t.fd_ = some fd ∧
        t.sockets = [⟨fd, false, true, 0, requestText host port (generateWebSocketKey N.raw)⟩] ∧
        t.created = t.closed ++ [fd] ∧
        handshake (generateWebSocketKey N.raw) N.reads N.last = some (.ok (t.pendingBytes, left)))
      (fun _ t => (∀ fd, ¬ N.Succeeds host port fd) ∧ t.fd_ = none ∧ t.sockets = [] ∧ t.created = t.closed ∧
        t.pendingBytes = []) := by
  unfold connect
  cases hresolved : N.getaddrinfo with
  | error err =>
    refine ⟨?_, rfl, rfl, rfl, rfl⟩
    rintro fd ⟨attempts, hattempts, -⟩
    cases hresolved.symm.trans hattempts
  | ok attempts =>
    rw [ends_bind]
    refine (tryAddresses_spec attempts [] rfl rfl).mono ?_ fun _ _ hfalse => hfalse.elim
    rintro ⟨fd, lastError⟩ t ⟨hfirst, hfd_, hpending, hlost, hkept⟩
    have hsucceeds : ∀ g, N.Succeeds host port g ↔ fd = some g ∧ N.Upgraded host port := by
      intro g
      constructor
      · rintro ⟨attempts', hattempts, hg, hupgraded⟩
        cases hresolved.symm.trans hattempts
        exact ⟨hfirst.trans hg, hupgraded⟩
      · exact fun hg => ⟨attempts, hresolved, hfirst.symm.trans hg.1, hg.2⟩
    cases fd with
    | none =>
      obtain ⟨hsockets, hclosed⟩ := hlost rfl
      have hfailed : ∀ g, ¬ N.Succeeds host port g := by
        intro g hg
        cases ((hsucceeds g).mp hg).1
      exact ⟨hfailed, hfd_, hsockets, hclosed, hpending⟩
    | some fd =>
      obtain ⟨hsockets, hclosed⟩ := hkept fd rfl
      rw [ends_bind, Dial.ends_modify]
      have hbody := upgrade_spec N host port (s := {t with fd_ := some fd}) hsockets
      refine ends_rethrowAfter (hbody.mono ?_ fun _ _ hu => hu) ?_
      · rintro left u ⟨hupgraded, saved, rfl, hsaved⟩
        exact ⟨fd, (hsucceeds fd).mpr ⟨rfl, hupgraded⟩, rfl, rfl, hclosed, hsaved⟩
      · rintro e u ⟨hrefused, k, rfl, rfl⟩
        rw [ends_bind, Dial.ends_close, Dial.ends_modify]
        exact ⟨fun g hg => hrefused ((hsucceeds g).mp hg).2, rfl, by simp, hclosed, hpending⟩

end VrxServer.WebSocket
