/-
# Sentinalysis.Hub.RunHub — the start of the hub, up to the point where it listens.

A guard looks at the host names of the configuration before anything is bound, and lets every
configuration pass that asks for TLS.  The servers are then bound to what the names resolve to, and
serve in plaintext, whatever was asked for.
-/
import Sentinalysis.Error
import Sentinalysis.Hub.Retention
import Sentinalysis.Lib.IpAddr

namespace Sentinalysis.Hub.RunHub

open Lib

structure TlsConfig where
  enabled : Bool := false
  deriving DecidableEq, Repr

/-- `HubConfig`: where the hub listens, besides how long it keeps rows. -/
structure HubConfig extends Hub.HubConfig where
  enabled : Bool := false
  grpcHost : String := "127.0.0.1"
  grpcPort : UInt16 := 50051
  restHost : String := "127.0.0.1"
  restPort : UInt16 := 8080
  tls : TlsConfig := {}

/-- The two servers. -/
inductive Server
  | grpc
  | rest
  deriving DecidableEq, Repr

namespace HubConfig

/-- `parse_host`. -/
def parseHost (host : String) : Option IpAddr :=
  if host = "localhost" then some (.V4 .localhost) else IpAddr.parse host

/-- `is_tailscale`: `100.64.0.0/10`. -/
def isTailscale : IpAddr → Bool
  | .V4 addr => addr.a.val = 100 && (64 ≤ addr.b.val && addr.b.val ≤ 127)
  | .V6 _ => false

/-- One turn of the guard, for the field `name`. -/
def checkHost (name host : String) : Except SentinelError Unit :=
  match parseHost host with
  | none =>
    if host ≠ "localhost" then
      .error (.ConfigError ("hub " ++ name ++ " '" ++ host ++
        "' is not an IP or 'localhost'; refusing to bind without TLS " ++
        "(set hub.tls.enabled or use 127.0.0.1)"))
    else .ok ()
  | some ip =>
    if ip.isLoopback then .ok ()
    else if isTailscale ip then .ok ()
    else .error (.ConfigError ("hub " ++ name ++ " '" ++ host ++
      "' is a public address but hub.tls.enabled is false; " ++
      "keys and payloads would travel in plaintext"))

/-- `validate_bind_security`. -/
def validateBindSecurity (hub : HubConfig) : Except SentinelError Unit :=
  if hub.tls.enabled then .ok ()
  else do
    checkHost "grpc_host" hub.grpcHost
    checkHost "rest_host" hub.restHost

def host (hub : HubConfig) : Server → String
  | .grpc => hub.grpcHost
  | .rest => hub.restHost

end HubConfig

/-! ## Listening -/

inductive Transport
  | plaintext
  | tls
  deriving DecidableEq, Repr

/-- A server that has been spawned, its address, and how it serves. -/
structure Listener where
  server : Server
  addr : IpAddr
  port : UInt16
  transport : Transport
  deriving DecidableEq, Repr

/-- `to_socket_addrs`, asked for each server: the addresses of a host, or what went wrong. -/
abbrev ToSocketAddrs := Server → String → Except String (List IpAddr)

/-- `resolve_addr`: the first address. -/
def resolveAddr (toSocketAddrs : ToSocketAddrs) (server : Server) (host : String) (port : UInt16) :
    Except SentinelError IpAddr :=
  match toSocketAddrs server host with
  | .error e => .error (.ConfigError ("invalid hub address " ++ host ++ ":" ++ toString port.toNat
      ++ ": " ++ e))
  | .ok [] =>
    .error (.ConfigError ("hub address " ++ host ++ ":" ++ toString port.toNat ++ " unresolved"))
  | .ok (addr :: _) => .ok addr

/-- `spawn_grpc`: the builder is given no TLS configuration. -/
def spawnGrpc (addr : IpAddr) (port : UInt16) : Listener := ⟨.grpc, addr, port, .plaintext⟩

/-- `spawn_rest`: `bind`, not `bind_rustls`. -/
def spawnRest (addr : IpAddr) (port : UInt16) : Listener := ⟨.rest, addr, port, .plaintext⟩

/-- `run_hub::run`, up to the point where both servers are spawned; a failure ends the hub, and with
it what was spawned by then. -/
def run (toSocketAddrs : ToSocketAddrs) (migrations : Except SentinelError Unit)
    (hub : HubConfig) : Except SentinelError (List Listener) := do
  if ¬ hub.enabled then
    .error (.ConfigError "hub mode requested but hub.enabled is false in the config")
  else
    hub.validateBindSecurity
    migrations
    let grpcAddr ← resolveAddr toSocketAddrs .grpc hub.grpcHost hub.grpcPort
    let grpc := spawnGrpc grpcAddr hub.grpcPort
    let restAddr ← resolveAddr toSocketAddrs .rest hub.restHost hub.restPort
    let rest := spawnRest restAddr hub.restPort
    return [grpc, rest]

/-! ## Who may be listened to -/

/-- A loopback address, or one of `100.64.0.0/10`. -/
def IsLocal (ip : IpAddr) : Prop := ip.isLoopback = true ∨ HubConfig.isTailscale ip = true

instance (ip : IpAddr) : Decidable (IsLocal ip) := inferInstanceAs (Decidable (_ ∨ _))

/-- What goes to a listener does not travel in plaintext over a public network. -/
def Listener.Protected (listener : Listener) : Prop :=
  IsLocal listener.addr ∨ listener.transport = .tls

instance (listener : Listener) : Decidable listener.Protected :=
  inferInstanceAs (Decidable (_ ∨ _))

/-- What a host resolves to, if it resolves, is local. -/
def ResolvesLocally (toSocketAddrs : ToSocketAddrs) (server : Server) (host : String) : Prop :=
  ∀ ips, toSocketAddrs server host = .ok ips → ∀ ip ∈ ips.head?, IsLocal ip

theorem resolveAddr_eq_ok {toSocketAddrs : ToSocketAddrs} {server : Server} {host : String}
    {port : UInt16} {addr : IpAddr} :
    resolveAddr toSocketAddrs server host port = .ok addr ↔
      ∃ rest, toSocketAddrs server host = .ok (addr :: rest) := by
  unfold resolveAddr
  cases htoAddrs : toSocketAddrs server host with
  | error e => simp
  | ok ips =>
    cases ips with
    | nil => simp
    | cons ip rest => simp

/-- The guard lets a host pass that names a local address. -/
theorem checkHost_eq_ok {name host : String} :
    HubConfig.checkHost name host = .ok () ↔
      ∃ ip, HubConfig.parseHost host = some ip ∧ IsLocal ip := by
  unfold HubConfig.checkHost IsLocal
  cases hparse : HubConfig.parseHost host with
  | none =>
    have hne : host ≠ "localhost" := by
      rintro rfl
      cases hparse
    simp [hne]
  | some ip =>
    simp only [Option.some.injEq, exists_eq_left']
    by_cases hloopback : ip.isLoopback = true
    · simp [hloopback]
    · by_cases htailscale : HubConfig.isTailscale ip = true
      · simp [hloopback, htailscale]
      · simp [hloopback, htailscale]

section Resolution

variable {toSocketAddrs : ToSocketAddrs}
  (hip : ∀ server host ip, IpAddr.parse host = some ip → toSocketAddrs server host = .ok [ip])
  (hlocalhost : ∀ server ips, toSocketAddrs server "localhost" = .ok ips →
    ∀ ip ∈ ips, ip.isLoopback = true)

include hip hlocalhost

/-- A host that the guard lets pass resolves to what the guard looked at, or to another loopback
address. -/
theorem resolvesLocally_of_checkHost {name host : String}
    (hcheck : HubConfig.checkHost name host = .ok ()) (server : Server) :
    ResolvesLocally toSocketAddrs server host := by
  obtain ⟨ip, hparse, hlocal⟩ := checkHost_eq_ok.mp hcheck
  intro ips hresolved addr haddr
  unfold HubConfig.parseHost at hparse
  split at hparse
  · next hname =>
    rw [hname] at hresolved
    exact Or.inl (hlocalhost server ips hresolved addr (List.mem_of_head? haddr))
  · rw [hip server host ip hparse] at hresolved
    obtain rfl := Except.ok.inj hresolved
    obtain rfl := Option.some.inj haddr
    exact hlocal

omit hip hlocalhost in
/-- A hub that listens does so with two servers, in plaintext. -/
theorem run_eq_ok {migrations : Except SentinelError Unit} {hub : HubConfig}
    {listeners : List Listener} (h : run toSocketAddrs migrations hub = .ok listeners) :
    hub.validateBindSecurity = .ok () ∧ ∃ grpcAddr restAddr,
      resolveAddr toSocketAddrs .grpc hub.grpcHost hub.grpcPort = .ok grpcAddr ∧
      resolveAddr toSocketAddrs .rest hub.restHost hub.restPort = .ok restAddr ∧
      listeners = [spawnGrpc grpcAddr hub.grpcPort, spawnRest restAddr hub.restPort] := by
  unfold run at h
  split at h
  · cases h
  · obtain ⟨_, hguard, h⟩ := bind_eq_ok_iff.mp h
    obtain ⟨_, -, h⟩ := bind_eq_ok_iff.mp h
    obtain ⟨grpcAddr, hgrpc, h⟩ := bind_eq_ok_iff.mp h
    obtain ⟨restAddr, hrest, h⟩ := bind_eq_ok_iff.mp h
    exact ⟨hguard, grpcAddr, restAddr, hgrpc, hrest, (Except.ok.inj h).symm⟩

/-- **A hub that listens does not do so in plaintext on a public address** exactly when TLS is not
asked for, or its hosts are local all the same. -/
theorem listeners_protected_iff {migrations : Except SentinelError Unit} {hub : HubConfig}
    {listeners : List Listener} (h : run toSocketAddrs migrations hub = .ok listeners) :
    (∀ listener ∈ listeners, listener.Protected) ↔
      hub.tls.enabled = false ∨
        ∀ server, ResolvesLocally toSocketAddrs server (hub.host server) := by
  obtain ⟨hguard, grpcAddr, restAddr, hgrpc, hrest, rfl⟩ := run_eq_ok h
  have hlocal : (∀ server, ResolvesLocally toSocketAddrs server (hub.host server)) ↔
      IsLocal grpcAddr ∧ IsLocal restAddr := by
    obtain ⟨others, hgrpc⟩ := resolveAddr_eq_ok.mp hgrpc
    obtain ⟨others', hrest⟩ := resolveAddr_eq_ok.mp hrest
    constructor
    · intro hall
      exact ⟨hall .grpc _ hgrpc _ rfl, hall .rest _ hrest _ rfl⟩
    · rintro ⟨hgrpcLocal, hrestLocal⟩ server ips hresolved ip hhead
      cases server with
      | grpc =>
        obtain rfl := Except.ok.inj (hgrpc.symm.trans hresolved)
        exact Option.some.inj hhead ▸ hgrpcLocal
      | rest =>
        obtain rfl := Except.ok.inj (hrest.symm.trans hresolved)
        exact Option.some.inj hhead ▸ hrestLocal
  have hplaintext : (∀ listener ∈ [spawnGrpc grpcAddr hub.grpcPort, spawnRest restAddr hub.restPort],
      listener.Protected) ↔ IsLocal grpcAddr ∧ IsLocal restAddr := by
    simp [Listener.Protected, spawnGrpc, spawnRest]
  rw [hplaintext, hlocal]
  refine ⟨Or.inr, ?_⟩
  rintro (hoff | hboth)
  · -- the guard has looked at both hosts
    unfold HubConfig.validateBindSecurity at hguard
    rw [if_neg (by rw [hoff]; exact Bool.false_ne_true)] at hguard
    obtain ⟨_, hgrpcHost, hrestHost⟩ := bind_eq_ok_iff.mp hguard
    rw [← hlocal]
    intro server
    cases server with
    | grpc => exact resolvesLocally_of_checkHost hip hlocalhost hgrpcHost .grpc
    | rest => exact resolvesLocally_of_checkHost hip hlocalhost hrestHost .rest
  · exact hboth

end Resolution

/-! ## Configurations -/

/-- A resolver that knows no names but `localhost`. -/
def hostsFile : ToSocketAddrs := fun _ host =>
  if host = "localhost" then .ok [.V4 .localhost]
  else match IpAddr.parse host with
    | some ip => .ok [ip]
    | none => .error "failed to lookup address information"

theorem hostsFile_ip (server : Server) (host : String) (ip : IpAddr)
    (hparse : IpAddr.parse host = some ip) : hostsFile server host = .ok [ip] := by
  have hne : host ≠ "localhost" := by
    rintro rfl
    exact absurd hparse (by rw [show IpAddr.parse "localhost" = none by decide +kernel]; simp)
  simp only [hostsFile, if_neg hne, hparse]

theorem hostsFile_localhost (server : Server) (ips : List IpAddr)
    (hresolved : hostsFile server "localhost" = .ok ips) : ∀ ip ∈ ips, ip.isLoopback = true := by
  obtain rfl := Except.ok.inj hresolved
  intro ip hmem
  obtain rfl := List.mem_singleton.mp hmem
  rfl

/-- The servers of the default configuration are protected. -/
theorem listeners_protected_default : ∃ listeners,
    run hostsFile (.ok ()) { enabled := true } = .ok listeners ∧
      ∀ listener ∈ listeners, listener.Protected := by
  have hrun : run hostsFile (.ok ()) { enabled := true } = .ok
      [spawnGrpc (.V4 .localhost) 50051, spawnRest (.V4 .localhost) 8080] := by
    decide +kernel
  exact ⟨_, hrun,
    (listeners_protected_iff hostsFile_ip hostsFile_localhost hrun).mpr (Or.inl rfl)⟩

/-- A hub that is to serve all addresses over TLS. -/
def publicTls : HubConfig where
  enabled := true
  grpcHost := "0.0.0.0"
  restHost := "0.0.0.0"
  tls := { enabled := true }

/-- It serves all addresses in plaintext. -/
theorem not_protected_publicTls :
    (∀ server host ip, IpAddr.parse host = some ip → hostsFile server host = .ok [ip]) ∧
    (∀ server ips, hostsFile server "localhost" = .ok ips → ∀ ip ∈ ips, ip.isLoopback = true) ∧
    ∃ listeners, run hostsFile (.ok ()) publicTls = .ok listeners ∧
      ∀ listener ∈ listeners, ¬ listener.Protected := by
  refine ⟨hostsFile_ip, hostsFile_localhost,
    [spawnGrpc (.V4 (.new 0 0 0 0)) 50051, spawnRest (.V4 (.new 0 0 0 0)) 8080], ?_, ?_⟩
  · decide +kernel
  · decide

end Sentinalysis.Hub.RunHub
