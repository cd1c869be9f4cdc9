import Kaelix.Lib.HashMap
import Kaelix.Lib.Text

/-!
# Nodes and their addresses

`NodeId` of `types.rs`; `NodeAddress` of `node/mod.rs`, its text and the parser of that text.

Terms and log indices are `u64` counters that start at zero and grow by one; like readings of the
clocks, which the caller hands in, they are natural numbers throughout.
-/

namespace Kaelix.Cluster

/-- A node is named by a 128-bit UUID, which is only ever compared for equality. -/
structure NodeId where
  uuid : BitVec 128
  deriving DecidableEq, Inhabited

end Kaelix.Cluster

namespace Kaelix.Cluster.Node

open Lib

inductive Error where
  | configuration (message : String)
  | membership (message : String)
  deriving DecidableEq

/-- What `SocketAddr` and `PathBuf` of the standard library offer. -/
structure NetText (Addr Path : Type) where
  displayAddr : Addr → String
  parseAddr : String → Option Addr
  isUnspecified : Addr → Bool
  port : Addr → Nat
  displayPath : Path → String
  pathOf : String → Path
  isEmpty : Path → Bool
  isAbsolute : Path → Bool

/-- Socket addresses and UTF-8 paths are read back from their texts. -/
structure NetText.RoundTrips {Addr Path : Type} (net : NetText Addr Path) : Prop where
  addr : ∀ a, net.parseAddr (net.displayAddr a) = some a
  path : ∀ p, net.pathOf (net.displayPath p) = p

/-- Where a node listens. -/
inductive NodeAddress (Addr Path : Type) where
  | tcp (addr : Addr)
  | udp (addr : Addr)
  | unix (path : Path)
  | quic (addr : Addr) (serverName : Option String)
  deriving DecidableEq

namespace NodeAddress

variable {Addr Path : Type}

variable (net : NetText Addr Path)

def isValid : NodeAddress Addr Path → Bool
  | .tcp addr => !net.isUnspecified addr && net.port addr != 0
  | .udp addr => !net.isUnspecified addr && net.port addr != 0
  | .unix path => !net.isEmpty path && net.isAbsolute path
  | .quic addr _ => !net.isUnspecified addr && net.port addr != 0

section

variable (s : String)

def parse : Except Error (NodeAddress Addr Path) :=
  match stripPrefix "unix:" s with
  | some path => .ok (.unix (net.pathOf path))
  | none =>
    match stripPrefix "tcp://" s with
    | some addrStr =>
      match net.parseAddr addrStr with
      | some addr => .ok (.tcp addr)
      | none => .error (.configuration s!"Invalid TCP address: {addrStr}")
    | none =>
      match stripPrefix "udp://" s with
      | some addrStr =>
        match net.parseAddr addrStr with
        | some addr => .ok (.udp addr)
        | none => .error (.configuration s!"Invalid UDP address: {addrStr}")
      | none =>
        match stripPrefix "quic://" s with
        | some addrStr =>
          match net.parseAddr addrStr with
          | some addr => .ok (.quic addr none)
          | none => .error (.configuration s!"Invalid QUIC address: {addrStr}")
        | none =>
          -- a plain socket address is a TCP address
          match net.parseAddr s with
          | some addr => .ok (.tcp addr)
          | none => .error (.configuration s!"Invalid address format: {s}")

def display : NodeAddress Addr Path → String
  | .tcp addr => "tcp://" ++ net.displayAddr addr
  | .udp addr => "udp://" ++ net.displayAddr addr
  | .unix path => "unix:" ++ net.displayPath path
  | .quic addr (some name) => "quic://" ++ (net.displayAddr addr ++ ("#" ++ name))
  | .quic addr none => "quic://" ++ net.displayAddr addr

def hasServerName : NodeAddress Addr Path → Bool
  | .quic _ (some _) => true
  | _ => false

/-! ## The parser on each kind of text -/

private theorem parse_unix : parse net ("unix:" ++ s) = .ok (.unix (net.pathOf s)) := by
  rw [parse, stripPrefix_append]

private theorem parse_tcp :
    parse net ("tcp://" ++ s) =
      match net.parseAddr s with
      | some addr => .ok (.tcp addr)
      | none => .error (.configuration s!"Invalid TCP address: {s}") := by
  rw [parse, stripPrefix_eq_none (by decide) (by decide), stripPrefix_append]

private theorem parse_udp :
    parse net ("udp://" ++ s) =
      match net.parseAddr s with
      | some addr => .ok (.udp addr)
      | none => .error (.configuration s!"Invalid UDP address: {s}") := by
  rw [parse, stripPrefix_eq_none (by decide) (by decide),
    stripPrefix_eq_none (by decide) (by decide), stripPrefix_append]

theorem parse_quic :
    parse net ("quic://" ++ s) =
      match net.parseAddr s with
      | some addr => .ok (.quic addr none)
      | none => .error (.configuration s!"Invalid QUIC address: {s}") := by
  rw [parse, stripPrefix_eq_none (by decide) (by decide),
    stripPrefix_eq_none (by decide) (by decide), stripPrefix_eq_none (by decide) (by decide),
    stripPrefix_append]

end

/-- An address is read back from its text iff it has no server name. -/
theorem parse_display_iff {net : NetText Addr Path} (hnet : net.RoundTrips)
    (a : NodeAddress Addr Path) : parse net (display net a) = .ok a ↔ a.hasServerName = false := by
  cases a with
  | tcp addr =>
    rw [display, parse_tcp, hnet.addr addr]
    exact iff_of_true rfl rfl
  | udp addr =>
    rw [display, parse_udp, hnet.addr addr]
    exact iff_of_true rfl rfl
  | unix path =>
    rw [display, parse_unix, hnet.path path]
    exact iff_of_true rfl rfl
  | quic addr serverName =>
    cases serverName with
    | none =>
      rw [display, parse_quic, hnet.addr addr]
      exact iff_of_true rfl rfl
    | some name =>
      -- the answer is an error or an address without a name
      rw [display, parse_quic]
      refine iff_of_false ?_ (by simp [hasServerName])
      cases net.parseAddr (net.displayAddr addr ++ ("#" ++ name)) with
      | _ => simp

def loopback : NetText Unit String :=
  { displayAddr := fun _ => "127.0.0.1:4433"
    parseAddr := fun s => if s = "127.0.0.1:4433" then some () else none
    isUnspecified := fun _ => false
    port := fun _ => 4433
    displayPath := id
    pathOf := id
    isEmpty := fun path => path = ""
    isAbsolute := fun path => (stripPrefix "/" path).isSome }

private theorem loopback_roundTrips : loopback.RoundTrips := ⟨fun _ => rfl, fun _ => rfl⟩

/-- Addresses of every kind come back, as long as they have no server name. -/
theorem parse_display_loopback :
    parse loopback (display loopback (.tcp ())) = .ok (.tcp ()) ∧
      parse loopback (display loopback (.udp ())) = .ok (.udp ()) ∧
      parse loopback (display loopback (.unix "/run/kaelix#1")) = .ok (.unix "/run/kaelix#1") ∧
      parse loopback (display loopback (.quic () none)) = .ok (.quic () none) :=
  ⟨(parse_display_iff loopback_roundTrips _).mpr rfl,
    (parse_display_iff loopback_roundTrips _).mpr rfl,
    (parse_display_iff loopback_roundTrips _).mpr rfl,
    (parse_display_iff loopback_roundTrips _).mpr rfl⟩

/-- A server name makes the text unreadable. -/
theorem parse_display_serverName :
    parse loopback (display loopback (.quic () (some "node"))) =
      .error (.configuration "Invalid QUIC address: 127.0.0.1:4433#node") := by
  rw [display, parse_quic]
  decide

end NodeAddress

end Kaelix.Cluster.Node
