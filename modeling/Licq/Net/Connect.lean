import Mathlib.Data.List.Perm.Subperm
import Mathlib.Data.List.Range

/-!
# Net/Connect — connecting to a host

`connectDirect` resolves a name and tries the addresses one by one until a socket can be connected.
It returns the descriptor of this socket, and -1 when there is none, except that it returns `false`,
which is a descriptor too, when the name cannot be resolved: `connectDirect_iff`.
-/

namespace Licq.Net

open List

/-! ## Descriptors -/

inductive Family
  | inet
  | inet6
  | other
  deriving DecidableEq

/-- `sockaddr` -/
structure Sockaddr where
  family : Family
  addr : List UInt8
  port : UInt16
  deriving DecidableEq

/-- An open descriptor. -/
structure File where
  fd : ℕ
  isSocket : Bool
  peer : Option Sockaddr
  deriving DecidableEq

/-- The open descriptors of the process. -/
abbrev Files := List File

namespace Files

variable (files : Files)

def IsOpen (fd : ℕ) : Prop := fd ∈ files.map (·.fd)

/-- The lowest descriptor that is not open. -/
def lowest : ℕ := ((List.range (files.length + 1)).find? (· ∉ files.map (·.fd))).getD 0

/-- `socket`, when it does not fail. -/
def socket : ℕ × Files := (files.lowest, files ++ [⟨files.lowest, true, none⟩])

/-- `connect`, when it does not fail. -/
def connect (fd : ℕ) (addr : Sockaddr) : Files :=
  files.map fun f => if f.fd = fd then { f with peer := some addr } else f

def close (fd : ℕ) : Files := files.filter (·.fd ≠ fd)

/-- `getsockname` does not fail. -/
def getsockname (fd : ℕ) : Bool := files.any fun f => f.fd = fd ∧ f.isSocket

variable {files}

/-- **The descriptor of a new socket** was not open. -/
theorem lowest_not_open (files : Files) : ¬ files.IsOpen files.lowest := by
  rw [lowest, IsOpen]
  cases h : (range (files.length + 1)).find? (· ∉ files.map (·.fd)) with
  | some fd =>
    have hfd := find?_some h
    exact of_decide_eq_true hfd
  | none =>
    have hall : range (files.length + 1) ⊆ files.map (·.fd) := by
      intro fd hfd
      simpa using find?_eq_none.mp h fd hfd
    have hle := (nodup_range.subperm hall).length_le
    rw [length_range, length_map] at hle
    omega

theorem close_of_not_open {fd : ℕ} (h : ¬ files.IsOpen fd) : files.close fd = files := by
  refine filter_eq_self.mpr fun f hf => decide_eq_true fun heq => ?_
  exact h (mem_map.mpr ⟨f, hf, heq⟩)

/-- What `close` leaves of a descriptor that has just been opened. -/
theorem close_append {fd : ℕ} (h : ¬ files.IsOpen fd) (isSocket : Bool) (peer : Option Sockaddr) :
    close (files ++ [⟨fd, isSocket, peer⟩]) fd = files := by
  have hfiles := close_of_not_open h
  rw [close] at hfiles ⊢
  rw [filter_append, hfiles, filter_cons_of_neg (by simp), filter_nil,
    append_nil]

theorem connect_append {fd : ℕ} (h : ¬ files.IsOpen fd) (addr : Sockaddr) :
    connect (files ++ [⟨fd, true, none⟩]) fd addr = files ++ [⟨fd, true, some addr⟩] := by
  have hfiles : files.map (fun f => if f.fd = fd then { f with peer := some addr } else f) = files := by
    refine (map_congr_left fun f hf => ?_).trans (map_id _)
    exact if_neg fun heq => h (mem_map.mpr ⟨f, hf, heq⟩)
  rw [connect, map_append, hfiles, map_singleton, if_pos rfl]

end Files

/-! ## Trying addresses -/

/-- An address that a name resolves to, and what happens when it is tried: a socket is created, its
port range is set, and the connection is accepted. -/
structure Try where
  addr : Sockaddr
  socket : Bool
  portRange : Bool
  accepts : Bool
  deriving DecidableEq

/-- The port is not looked up. -/
def Sockaddr.withPort (addr : Sockaddr) (remotePort : UInt16) : Sockaddr :=
  match addr.family with
  | .inet | .inet6 => { addr with port := remotePort }
  | .other => addr

/-- The loop of `connectDirect`; the port range is set where there is `IP_PORTRANGE`. -/
def tryAll (ipPortrange : Bool) (remotePort : UInt16) : List Try → Files → ℤ × Files
  | [], files => (-1, files)
  | t :: ts, files =>
    if t.socket = false then tryAll ipPortrange remotePort ts files
    else
      let (sock, files) := files.socket
      if ipPortrange = true ∧ t.portRange = false then
        tryAll ipPortrange remotePort ts (files.close sock)
      else if t.accepts then (sock, files.connect sock (t.addr.withPort remotePort))
      else tryAll ipPortrange remotePort ts (files.close sock)

/-- `connectDirect`, of a name that resolves to these addresses, or that cannot be resolved. -/
def connectDirect (ipPortrange : Bool) (resolved : Option (List Try)) (remotePort : UInt16)
    (files : Files) : ℤ × Files :=
  match resolved with
  -- `return false`
  | none => (0, files)
  | some ts => tryAll ipPortrange remotePort ts files

/-- The address accepts a connection. -/
def Try.Works (ipPortrange : Bool) (t : Try) : Prop :=
  t.socket = true ∧ (ipPortrange = true → t.portRange = true) ∧ t.accepts = true

instance (ipPortrange : Bool) (t : Try) : Decidable (t.Works ipPortrange) :=
  inferInstanceAs (Decidable (_ ∧ _))

/-- The first address that accepts a connection. -/
def firstAccepting (ipPortrange : Bool) (resolved : Option (List Try)) (remotePort : UInt16) :
    Option Sockaddr :=
  resolved.bind fun ts => (ts.find? (·.Works ipPortrange)).map (·.addr.withPort remotePort)

/-- **What connecting shall give**: the descriptor of a new socket that is connected to the first
address that accepts, and -1 when there is none; no other descriptor is opened or closed. -/
def Connects (files : Files) (addr : Option Sockaddr) (result : ℤ × Files) : Prop :=
  match addr with
  | none => result = (-1, files)
  | some addr => ∃ fd : ℕ, ¬ files.IsOpen fd ∧ result = ((fd : ℤ), files ++ [⟨fd, true, some addr⟩])

variable (ipPortrange : Bool) (remotePort : UInt16)

/-- **All patterns of failures** of a list of addresses. -/
theorem tryAll_connects (ts : List Try) (files : Files) :
    Connects files (firstAccepting ipPortrange (some ts) remotePort)
      (tryAll ipPortrange remotePort ts files) := by
  induction ts with
  | nil => rfl
  | cons t ts ih =>
    have hfresh := Files.lowest_not_open files
    have hclose : (files.socket.2).close files.socket.1 = files := Files.close_append hfresh true none
    have hskip (h : ¬ t.Works ipPortrange) : firstAccepting ipPortrange (some (t :: ts)) remotePort =
        firstAccepting ipPortrange (some ts) remotePort := by
      rw [firstAccepting, firstAccepting, Option.bind_some, Option.bind_some,
        find?_cons_of_neg (by simpa using h)]
    by_cases hsocket : t.socket = false
    · rw [tryAll, if_pos hsocket, hskip fun h => by rw [h.1] at hsocket; cases hsocket]
      exact ih
    · rw [tryAll, if_neg hsocket]
      simp only
      by_cases hrange : ipPortrange = true ∧ t.portRange = false
      · rw [if_pos hrange, hclose, hskip fun h => by rw [h.2.1 hrange.1] at hrange; cases hrange.2]
        exact ih
      · rw [if_neg hrange]
        by_cases haccepts : t.accepts = true
        · have hworks : t.Works ipPortrange := by
            refine ⟨by simpa using hsocket, fun hp => ?_, haccepts⟩
            by_contra hne
            exact hrange ⟨hp, by simpa using hne⟩
          rw [if_pos haccepts, firstAccepting, Option.bind_some,
            find?_cons_of_pos (by simpa using hworks)]
          refine ⟨files.lowest, hfresh, ?_⟩
          exact congrArg (Prod.mk (files.lowest : ℤ)) (Files.connect_append hfresh _)
        · rw [if_neg haccepts, hclose, hskip fun h => haccepts h.2.2]
          exact ih

/-- **Connecting to a name** ends as it shall exactly when the name can be resolved. -/
theorem connectDirect_connects_iff (resolved : Option (List Try)) (files : Files) :
    Connects files (firstAccepting ipPortrange resolved remotePort)
      (connectDirect ipPortrange resolved remotePort files) ↔ resolved.isSome := by
  cases resolved with
  | none => exact iff_of_false (fun h => by cases (Prod.mk.inj h).1) (by decide)
  | some ts => exact iff_of_true (tryAll_connects ipPortrange remotePort ts files) rfl

/-! ## Sockets -/

/-- A proxy: whether it lets a connection through is up to `openProxyConnection`, which closes the
socket when it does not. -/
structure Proxy where
  myProxyName : List Char
  myProxyPort : UInt16
  established : Bool

/-- `openConnection`; the name that is resolved is that of the proxy. -/
def Proxy.openConnection (p : Proxy) (ipPortrange : Bool) (resolved : Option (List Try))
    (files : Files) : ℤ × Files :=
  if p.myProxyName = [] then (-1, files)
  else
    let (sock, files) := connectDirect ipPortrange resolved p.myProxyPort files
    if sock = -1 then (-1, files)
    else if p.established then (sock, files)
    else (-1, files.close sock.toNat)

/-- What `connectTo` leaves: whether it reports success, the descriptor of the socket and the open
descriptors. -/
structure Result where
  success : Bool
  myDescriptor : ℤ
  files : Files

/-- What `connectTo` does with the descriptor it has been given; `SetLocalAddress` fails where
`getsockname` does. -/
def setLocalAddress (result : ℤ × Files) : Result :=
  if result.1 = -1 then ⟨false, result.1, result.2⟩
  else ⟨result.2.getsockname result.1.toNat, result.1, result.2⟩

/-- `connectTo`, without SOCKS; an old connection is closed where there is no proxy. -/
def connectTo (myDescriptor : ℤ) (proxy : Option Proxy) (ipPortrange : Bool)
    (resolved : Option (List Try)) (remotePort : UInt16) (files : Files) : Result :=
  match proxy with
  | some p => setLocalAddress (p.openConnection ipPortrange resolved files)
  | none =>
    setLocalAddress (connectDirect ipPortrange resolved remotePort
      (if myDescriptor ≠ -1 then files.close myDescriptor.toNat else files))

/-- Success is reported only with a socket that is connected to the address. -/
def Result.Honest (addr : Option Sockaddr) (r : Result) : Prop :=
  r.success = true → ∃ a ∈ addr, ∃ fd : ℕ, r.myDescriptor = fd ∧ ⟨fd, true, some a⟩ ∈ r.files

/-- The port that a connection goes to. -/
def portOf (proxy : Option Proxy) (remotePort : UInt16) : UInt16 :=
  proxy.elim remotePort (·.myProxyPort)

/-- Descriptor zero is a socket of another connection, which is taken for the new one. -/
def ZeroTaken (myDescriptor : ℤ) (proxy : Option Proxy) (files : Files) : Prop :=
  match proxy with
  | some p => p.myProxyName ≠ [] ∧ p.established = true ∧ files.getsockname 0 = true
  | none =>
    (if myDescriptor ≠ -1 then files.close myDescriptor.toNat else files).getsockname 0 = true

theorem honest_of_failed {addr : Option Sockaddr} {result : ℤ × Files} (h : result.1 = -1) :
    (setLocalAddress result).Honest addr := by
  intro hsuccess
  rw [setLocalAddress, if_pos h] at hsuccess
  cases hsuccess

/-- What has been opened for an address is a socket with this peer. -/
theorem honest_of_connects {files : Files} {addr : Option Sockaddr} {result : ℤ × Files}
    (h : Connects files addr result) : (setLocalAddress result).Honest addr := by
  cases addr with
  | none => exact honest_of_failed (congrArg Prod.fst h)
  | some a =>
    obtain ⟨fd, -, rfl⟩ := h
    rw [setLocalAddress, if_neg (by simp)]
    exact fun _ => ⟨a, rfl, fd, rfl, mem_append_right _ mem_cons_self⟩

/-- **Resolved**: a socket reports success only when it is connected. -/
theorem honest_of_resolved (myDescriptor : ℤ) (proxy : Option Proxy) (ts : List Try)
    (files : Files) :
    (connectTo myDescriptor proxy ipPortrange (some ts) remotePort files).Honest
      (firstAccepting ipPortrange (some ts) (portOf proxy remotePort)) := by
  cases proxy with
  | none => exact honest_of_connects (tryAll_connects ipPortrange remotePort ts _)
  | some p =>
    have hconnects : Connects files (firstAccepting ipPortrange (some ts) p.myProxyPort)
        (connectDirect ipPortrange (some ts) p.myProxyPort files) :=
      tryAll_connects ipPortrange p.myProxyPort ts files
    simp only [connectTo, Proxy.openConnection]
    generalize connectDirect ipPortrange (some ts) p.myProxyPort files = result at hconnects ⊢
    by_cases hname : p.myProxyName = []
    · rw [if_pos hname]
      exact honest_of_failed rfl
    · rw [if_neg hname]
      by_cases hfailed : result.1 = -1
      · rw [if_pos hfailed]
        exact honest_of_failed rfl
      · rw [if_neg hfailed]
        cases p.established
        · exact honest_of_failed rfl
        · exact honest_of_connects hconnects

/-- **Not resolved**: a socket reports success exactly when descriptor zero is another one. -/
theorem success_of_unresolved (myDescriptor : ℤ) (proxy : Option Proxy) (files : Files) :
    (connectTo myDescriptor proxy ipPortrange none remotePort files).success = true ↔
      ZeroTaken myDescriptor proxy files := by
  cases proxy with
  | none => exact Iff.rfl
  | some p =>
    simp only [connectTo, Proxy.openConnection, connectDirect, ZeroTaken]
    by_cases hname : p.myProxyName = []
    · simp [hname, setLocalAddress]
    · cases hestablished : p.established <;> simp [hname, setLocalAddress]

/-- **Connecting**: what `connectDirect` gives is right exactly when the name can be resolved, and
then a socket reports success only when it is connected; when the name cannot be resolved it does so
exactly when descriptor zero is the socket of another connection. -/
theorem connect_iff (ipPortrange : Bool) (resolved : Option (List Try)) (remotePort : UInt16)
    (files : Files) (myDescriptor : ℤ) (proxy : Option Proxy) :
    (Connects files (firstAccepting ipPortrange resolved remotePort)
        (connectDirect ipPortrange resolved remotePort files) ↔ resolved.isSome) ∧
      ((connectTo myDescriptor proxy ipPortrange resolved remotePort files).Honest
          (firstAccepting ipPortrange resolved (portOf proxy remotePort)) ↔
        resolved.isSome ∨ ¬ ZeroTaken myDescriptor proxy files) := by
  refine ⟨connectDirect_connects_iff ipPortrange remotePort resolved files, ?_⟩
  cases resolved with
  | some ts => 
    exact iff_of_true (honest_of_resolved ipPortrange remotePort myDescriptor proxy ts files) (.inl rfl)
  | none =>
    have hsuccess := success_of_unresolved ipPortrange remotePort myDescriptor proxy files
    constructor
    · intro h
      refine .inr fun hzero => ?_
      obtain ⟨a, ha, -⟩ := h (hsuccess.mpr hzero)
      cases ha
    · rintro (hresolved | hzero) htrue
      · cases hresolved
      · exact absurd (hsuccess.mp htrue) hzero

/-- **A name that cannot be resolved** while descriptor zero is the socket of another connection. -/
theorem not_connects_unresolved :
    ¬ Connects [⟨0, true, some ⟨.inet, [10, 0, 0, 1], 80⟩⟩] none
        (connectDirect false none 5190 [⟨0, true, some ⟨.inet, [10, 0, 0, 1], 80⟩⟩]) ∧
      (connectTo (-1) none false none 5190 [⟨0, true, some ⟨.inet, [10, 0, 0, 1], 80⟩⟩]).success =
        true :=
  ⟨fun h => absurd (congrArg Prod.fst h) (by decide), by decide⟩

end Licq.Net
