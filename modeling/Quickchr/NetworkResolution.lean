import Quickchr.PortBlocks
import Quickchr.SocketRegistry
import Quickchr.Lib.OptionList

/-!
# Network resolution

What a NIC becomes on the QEMU command line: a `-netdev` that depends on the platform, the
registry and the host's interfaces, and a `-device`. A NIC that has not been resolved falls back
on its specifier.
-/
namespace Quickchr

open PortBlocks SocketRegistry

inductive NetworkSpecifier
  | user | shared | vmnetShared
  | socket (name : String)
  | socketListen (port : ℕ)
  | socketConnect (port : ℕ)
  | socketMcast (group : String) (port : ℕ)
  | bridged (iface : String)
  | vmnetBridged (iface : String)
  | tap (ifname : String)
  deriving DecidableEq

structure ResolvedNetwork where
  qemuNetdevArgs : List String
  wrapper : Option (List String) := none
  /-- What it was, and the reason for the other. -/
  downgraded : Option (String × String) := none

structure NetworkConfig where
  specifier : NetworkSpecifier
  id : String
  mac : Option String := none
  resolved : Option ResolvedNetwork := none

inductive InterfaceAlias
  | wifi | ethernet
  deriving DecidableEq

structure HostInterface where
  device : String
  alias_ : Option InterfaceAlias

structure SocketVmnetInfo where
  client : String
  sharedSocket : Option String
  /-- The property of that name. -/
  bridgedSockets : String → Option String

inductive Os
  | darwin | linux | win32
  deriving DecidableEq

def Os.text : Os → String
  | .darwin => "darwin"
  | .linux => "linux"
  | .win32 => "win32"

structure ResolutionContext where
  os : Os
  platformSocketVmnet : Option SocketVmnetInfo := none
  socketVmnet : Option SocketVmnetInfo := none
  machine : Option String := none
  qemuVersion : Option String := none

/-- What the resolution finds on the host. -/
structure NetworkHost where
  host : Host
  getNamedSocket : String → Option SocketEntry
  interfaces : List HostInterface
  isSocketVmnetDaemonRunning : String → Bool

def networkUnavailable (message : String) : QuickCHRError :=
  { code := .NETWORK_UNAVAILABLE, message := message }

def invalidNetwork (message : String) : QuickCHRError :=
  { code := .INVALID_NETWORK, message := message }

/-- A template shows what is missing as `undefined`. -/
def shown (port : Option ℕ) : String := port.elim "undefined" toString

def forward (p : PortMapping) : String :=
  let proto := match p.proto with
    | .tcp => "tcp"
    | .udp => "udp"
  s!"{proto}::{p.host}-:{p.guest}"

def buildHostfwdString (ports : Record PortMapping) : String :=
  Text.join "," (ports.map fun e => s!"hostfwd={forward e.2}")

/-- Resolve `wifi`, `ethernet` and `auto` to a device. -/
def resolveInterfaceAlias (interfaces : List HostInterface) (alias_ : String) :
    Except QuickCHRError String :=
  let device (kind : InterfaceAlias) := (interfaces.find? (·.alias_ = some kind)).map (·.device)
  let found (kind : Option String) := match kind with
    | some device => .ok device
    | none => .error (networkUnavailable (s!"No interface found for alias '{alias_}' — run " ++
        "'quickchr doctor' to see available interfaces"))
  match alias_ with
  | "auto" =>
      match (device .ethernet).or (device .wifi) with
      | some device => .ok device
      | none => .error (networkUnavailable ("No physical network interface found for 'auto' — " ++
          "no ethernet or wifi detected"))
  | "wifi" => found (device .wifi)
  | "ethernet" => found (device .ethernet)
  | _ => .ok alias_

def deviceArgs (config : NetworkConfig) : List String :=
  let mac := match config.mac with
    | some mac => if mac = "" then "" else s!",mac={mac}"
    | none => ""
  ["-device", s!"virtio-net-pci,netdev={config.id}{mac}"]

def netdevArgs (config : NetworkConfig) (netdev : String) : List String :=
  ["-netdev", netdev] ++ deviceArgs config

def resolveUser (config : NetworkConfig) (hostfwd : String) : ResolvedNetwork :=
  { qemuNetdevArgs := netdevArgs config
      (if hostfwd = "" then s!"user,id={config.id}" else s!"user,id={config.id},{hostfwd}") }

def wrapped (config : NetworkConfig) (svn : SocketVmnetInfo) (socket : String) : ResolvedNetwork :=
  { qemuNetdevArgs := netdevArgs config s!"socket,id={config.id},fd=3"
    wrapper := some [svn.client, socket] }

def ResolutionContext.sharedSocket (ctx : ResolutionContext) : Option (SocketVmnetInfo × String) :=
  (ctx.socketVmnet.or ctx.platformSocketVmnet).bind fun svn =>
    (svn.sharedSocket.filter (· ≠ "")).map (svn, ·)

def ResolutionContext.bridgedSocket (ctx : ResolutionContext) (device : String) :
    Option (SocketVmnetInfo × String) :=
  (ctx.socketVmnet.or ctx.platformSocketVmnet).bind fun svn =>
    ((svn.bridgedSockets device).filter (· ≠ "")).map (svn, ·)

/-- The slot of the machine that is resolved. -/
def ResolutionContext.slot (ctx : ResolutionContext) (entry : SocketEntry) : Option ℕ :=
  (ctx.machine.filter (· ≠ "")).bind (getSocketSlot entry)

section Resolve

variable (around : NetworkHost) (ctx : ResolutionContext) (config : NetworkConfig)

def resolveShared : Except QuickCHRError ResolvedNetwork :=
  if ctx.os = .darwin then
    match ctx.sharedSocket with
    | some (svn, socket) =>
        if around.isSocketVmnetDaemonRunning socket then .ok (wrapped config svn socket)
        else .error (networkUnavailable
          s!"socket_vmnet daemon is not running (socket not found: {socket})")
    | none => .ok
        { qemuNetdevArgs := netdevArgs config s!"vmnet-shared,id={config.id}"
          downgraded := some ("shared (socket_vmnet)", "Requires root — socket_vmnet not available") }
  else .error (networkUnavailable
    s!"\"shared\" network is not yet supported on {ctx.os.text} (TAP support planned)")

def resolveVmnetShared : Except QuickCHRError ResolvedNetwork :=
  if ctx.os ≠ .darwin then .error (networkUnavailable "vmnet-shared is macOS only")
  else .ok { qemuNetdevArgs := netdevArgs config s!"vmnet-shared,id={config.id}" }

def resolveBridged (iface : String) : Except QuickCHRError ResolvedNetwork :=
  if ctx.os = .darwin then
    (resolveInterfaceAlias around.interfaces iface).bind fun resolved =>
      match ctx.bridgedSocket resolved with
      | some (svn, socket) =>
          if around.isSocketVmnetDaemonRunning socket then .ok (wrapped config svn socket)
          else .error (networkUnavailable
            s!"socket_vmnet bridged daemon is not running (socket not found: {socket})")
      | none => .ok
          { qemuNetdevArgs := netdevArgs config s!"vmnet-bridged,id={config.id},ifname={resolved}"
            downgraded := some (s!"bridged:{iface} (socket_vmnet)",
              "Requires root — socket_vmnet not available") }
  else .error (networkUnavailable
    s!"\"bridged\" network is not yet supported on {ctx.os.text} (TAP bridge support planned)")

def resolveVmnetBridged (iface : String) : Except QuickCHRError ResolvedNetwork :=
  if ctx.os ≠ .darwin then .error (networkUnavailable "vmnet-bridged is macOS only")
  else .ok { qemuNetdevArgs := netdevArgs config s!"vmnet-bridged,id={config.id},ifname={iface}" }

/-- `Number.parseInt(p, 10) || 0`; what is negative is as good as 0 here. -/
def versionPart (p : String) : ℕ :=
  match p.toList.dropWhile Text.isSpace with
  | '-' :: _ => 0
  | '+' :: cs => Nat.ofDigitChars 10 (cs.takeWhile Char.isDigit) 0
  | cs => Nat.ofDigitChars 10 (cs.takeWhile Char.isDigit) 0

/-- `-netdev dgram` was added in QEMU 7.2. -/
def qemuSupportsDgram (version : String) : Bool :=
  let parts := (Text.split version '.').map versionPart
  let major := parts[0]?.getD 0
  let minor := parts[1]?.getD 0
  major > 7 || (major = 7 && minor ≥ 2)

def noEndpoint (name : String) (entry : SocketEntry) : QuickCHRError :=
  let held := (entry.endpoints.getD []).filterMap id
  let who := if held = [] then "no machine" else Text.join " and " held
  networkUnavailable <| match ctx.machine.filter (· ≠ "") with
    | some machine =>
        s!"Machine \"{machine}\" holds no endpoint on named socket \"{name}\" — it is a " ++
          s!"{entry.mode.text} link, and its two ends are held by {who}."
    | none =>
        s!"Named socket \"{name}\" is a {entry.mode.text} link, so resolving it needs the " ++
          "machine's name (its endpoint role is per-machine). Pass 'machine' in the resolution context."

def resolveSocketNamed (name : String) : Except QuickCHRError ResolvedNetwork :=
  match around.getNamedSocket name with
  | none => .error (networkUnavailable (s!"Named socket \"{name}\" not found — create it first " ++
      s!"with 'quickchr networks sockets create {name}'"))
  | some entry =>
      if entry.mode = .mcast then
        let group := entry.mcastGroup.getD "undefined"
        .ok { qemuNetdevArgs :=
                netdevArgs config s!"socket,id={config.id},mcast={group}:{shown entry.port}" }
      else
        match ctx.slot entry with
        | none => .error (noEndpoint ctx name entry)
        | some slot =>
            if entry.mode = .dgram then
              if ctx.os = .win32 then .error (networkUnavailable
                (s!"Named socket \"{name}\" is a unix-datagram link, which Windows cannot provide " ++
                  "(AF_UNIX has no SOCK_DGRAM). Recreate it with 'quickchr networks sockets create " ++
                  s!"{name} --mode listen-connect'."))
              else if let some version := ctx.qemuVersion.filter fun version =>
                  version ≠ "" && !qemuSupportsDgram version then .error (networkUnavailable
                (s!"Named socket \"{name}\" is a unix-datagram link, which needs QEMU 7.2 or newer " ++
                  s!"(found {version}). Upgrade QEMU, or recreate the socket with " ++
                  s!"'quickchr networks sockets create {name} --mode listen-connect'."))
              else (assertPathSafeName around.host name "named socket").map fun _ =>
                let local_ := socketEndpointPath around.host name slot
                let remote := socketEndpointPath around.host name (if slot = 0 then 1 else 0)
                { qemuNetdevArgs := netdevArgs config
                    (s!"dgram,id={config.id},local.type=unix,local.path={local_}," ++
                      s!"remote.type=unix,remote.path={remote}") }
            else .ok
              { qemuNetdevArgs := netdevArgs config
                  (if slot = 0 then s!"socket,id={config.id},listen=:{shown entry.port}"
                    else s!"socket,id={config.id},connect=127.0.0.1:{shown entry.port}") }

def resolveSocketListen (port : ℕ) : ResolvedNetwork :=
  { qemuNetdevArgs := netdevArgs config s!"socket,id={config.id},listen=:{port}" }

def resolveSocketConnect (port : ℕ) : ResolvedNetwork :=
  { qemuNetdevArgs := netdevArgs config s!"socket,id={config.id},connect=127.0.0.1:{port}" }

def resolveSocketMcast (group : String) (port : ℕ) : ResolvedNetwork :=
  { qemuNetdevArgs := netdevArgs config s!"socket,id={config.id},mcast={group}:{port}" }

def resolveTap (ifname : String) : Except QuickCHRError ResolvedNetwork :=
  if ctx.os ≠ .linux then .error (networkUnavailable "TAP networking is Linux only")
  else .ok
    { qemuNetdevArgs :=
        netdevArgs config s!"tap,id={config.id},ifname={ifname},script=no,downscript=no" }

def resolveNetworkConfig (hostfwd : String) : Except QuickCHRError NetworkConfig :=
  let resolved : Except QuickCHRError ResolvedNetwork :=
    match config.specifier with
    | .user => .ok (resolveUser config hostfwd)
    | .shared => resolveShared around ctx config
    | .vmnetShared => resolveVmnetShared ctx config
    | .bridged iface => resolveBridged around ctx config iface
    | .vmnetBridged iface => resolveVmnetBridged ctx config iface
    | .socket name => resolveSocketNamed around ctx config name
    | .socketListen port => .ok (resolveSocketListen config port)
    | .socketConnect port => .ok (resolveSocketConnect config port)
    | .socketMcast group port => .ok (resolveSocketMcast config group port)
    | .tap ifname => resolveTap ctx config ifname
  resolved.map fun resolved => { config with resolved := some resolved }

/-- Resolve all NICs, of which one may be in user mode and one wrapped. -/
def resolveAllNetworks (configs : List NetworkConfig) (hostfwd : String) :
    Except QuickCHRError (List NetworkConfig) := do
  let resolved ← configs.mapM fun config => resolveNetworkConfig around ctx config hostfwd
  let userCount := (configs.filter (·.specifier = .user)).length
  if userCount > 1 then
    throw (invalidNetwork (s!"Multiple user-mode NICs ({userCount}) — QEMU only supports one " ++
      "user-mode netdev reliably"))
  if (resolved.filter fun c => (c.resolved.bind (·.wrapper)).isSome).length > 1 then
    throw (invalidNetwork ("Multiple networks require socket_vmnet wrappers — only one wrapper " ++
      "is supported per QEMU process"))
  return resolved

end Resolve

/-- The arguments of a NIC, resolved or not. -/
def nicArgs (ports : Record PortMapping) (net : NetworkConfig) : List String :=
  match net.resolved with
  | some resolved => resolved.qemuNetdevArgs
  | none =>
      match net.specifier with
      | .vmnetShared => netdevArgs net s!"vmnet-shared,id={net.id}"
      | .vmnetBridged iface => netdevArgs net s!"vmnet-bridged,id={net.id},ifname={iface}"
      | .socketListen port => netdevArgs net s!"socket,id={net.id},listen=:{port}"
      | .socketConnect port => netdevArgs net s!"socket,id={net.id},connect=127.0.0.1:{port}"
      | .socketMcast group port => netdevArgs net s!"socket,id={net.id},mcast={group}:{port}"
      | .tap ifname => netdevArgs net s!"tap,id={net.id},ifname={ifname},script=no,downscript=no"
      | .user | .shared | .socket _ | .bridged _ =>
          let hostfwd := buildHostfwdString ports
          netdevArgs net (s!"user,id={net.id}" ++ if hostfwd = "" then "" else "," ++ hostfwd)

def buildNetworkArgs (ports : Record PortMapping) (networks : List NetworkConfig) : List String :=
  networks.flatMap (nicArgs ports)

open OptionList

inductive Netdev
  | user (ports : Record PortMapping)
  | vmnetShared
  | vmnetBridged (ifname : String)
  | descriptor
  | listen (port : Option ℕ)
  | connect (port : Option ℕ)
  | mcast (group : String) (port : Option ℕ)
  | dgram (own peer : String)
  | tap (ifname : String)

def Netdev.items (id : String) : Netdev → List Item
  | .user ports =>
      .word "user" :: .pair "id" id :: ports.map fun e => .pair "hostfwd" (forward e.2)
  | .vmnetShared => [.word "vmnet-shared", .pair "id" id]
  | .vmnetBridged ifname => [.word "vmnet-bridged", .pair "id" id, .pair "ifname" ifname]
  | .descriptor => [.word "socket", .pair "id" id, .pair "fd" "3"]
  | .listen port => [.word "socket", .pair "id" id, .pair "listen" s!":{shown port}"]
  | .connect port => [.word "socket", .pair "id" id, .pair "connect" s!"127.0.0.1:{shown port}"]
  | .mcast group port => [.word "socket", .pair "id" id, .pair "mcast" s!"{group}:{shown port}"]
  | .dgram own peer =>
      [.word "dgram", .pair "id" id, .pair "local.type" "unix", .pair "local.path" own,
        .pair "remote.type" "unix", .pair "remote.path" peer]
  | .tap ifname =>
      [.word "tap", .pair "id" id, .pair "ifname" ifname, .pair "script" "no",
        .pair "downscript" "no"]

/-- The texts in a backend that are not the program's own. -/
def Netdev.texts : Netdev → List String
  | .vmnetBridged ifname | .tap ifname => [ifname]
  | .mcast group _ => [group]
  | .dgram own peer => [own, peer]
  | .user _ | .vmnetShared | .descriptor | .listen _ | .connect _ => []

/-- What a specifier resolves to, where it does. -/
def resolvedNetdev (around : NetworkHost) (ctx : ResolutionContext) (ports : Record PortMapping) :
    NetworkSpecifier → Option Netdev
  | .user => some (.user ports)
  | .shared =>
      some (if ctx.sharedSocket.isSome then .descriptor else .vmnetShared)
  | .vmnetShared => some .vmnetShared
  | .bridged iface =>
      (resolveInterfaceAlias around.interfaces iface).toOption.map fun device =>
        if (ctx.bridgedSocket device).isSome then .descriptor else .vmnetBridged device
  | .vmnetBridged iface => some (.vmnetBridged iface)
  | .socket name =>
      (around.getNamedSocket name).bind fun entry =>
        match entry.mode with
        | .mcast => some (.mcast (entry.mcastGroup.getD "undefined") entry.port)
        | .listenConnect =>
            (ctx.slot entry).map fun slot =>
              if slot = 0 then .listen entry.port else .connect entry.port
        | .dgram =>
            (ctx.slot entry).map fun slot =>
              .dgram (socketEndpointPath around.host name slot)
                (socketEndpointPath around.host name (if slot = 0 then 1 else 0))
  | .socketListen port => some (.listen (some port))
  | .socketConnect port => some (.connect (some port))
  | .socketMcast group port => some (.mcast group (some port))
  | .tap ifname => some (.tap ifname)

/-- What a specifier is without resolution. -/
def fallbackNetdev (ports : Record PortMapping) : NetworkSpecifier → Netdev
  | .vmnetShared => .vmnetShared
  | .vmnetBridged iface => .vmnetBridged iface
  | .socketListen port => .listen (some port)
  | .socketConnect port => .connect (some port)
  | .socketMcast group port => .mcast group (some port)
  | .tap ifname => .tap ifname
  | .user | .shared | .socket _ | .bridged _ => .user ports

theorem buildHostfwdString_eq (ports : Record PortMapping) :
    buildHostfwdString ports = write (ports.map fun e => .pair "hostfwd" (forward e.2)) := by
  induction ports with
  | nil => rfl
  | cons e ports ih =>
      cases ports with
      | nil =>
          apply String.toList_inj.mp
          simp [buildHostfwdString, Text.join, write, join, Item.text, toString]
      | cons e' ports =>
          rw [List.map_cons, write_cons _ (by simp), ← ih]
          apply String.toList_inj.mp
          simp [buildHostfwdString, Text.join, Item.text, toString]

/-- The text of a backend, with nothing doubled. -/
def Netdev.text (id : String) : Netdev → String
  | .user ports =>
      if buildHostfwdString ports = "" then s!"user,id={id}"
      else s!"user,id={id},{buildHostfwdString ports}"
  | .vmnetShared => s!"vmnet-shared,id={id}"
  | .vmnetBridged ifname => s!"vmnet-bridged,id={id},ifname={ifname}"
  | .descriptor => s!"socket,id={id},fd=3"
  | .listen port => s!"socket,id={id},listen=:{shown port}"
  | .connect port => s!"socket,id={id},connect=127.0.0.1:{shown port}"
  | .mcast group port => s!"socket,id={id},mcast={group}:{shown port}"
  | .dgram own peer =>
      s!"dgram,id={id},local.type=unix,local.path={own}," ++ s!"remote.type=unix,remote.path={peer}"
  | .tap ifname => s!"tap,id={id},ifname={ifname},script=no,downscript=no"

theorem write_user (id : String) (ports : Record PortMapping) :
    (if buildHostfwdString ports = "" then s!"user,id={id}"
      else s!"user,id={id},{buildHostfwdString ports}") = write ((Netdev.user ports).items id) := by
  change _ = write (.word "user" :: .pair "id" id :: ports.map fun e => .pair "hostfwd" (forward e.2))
  rw [buildHostfwdString_eq]
  cases ports with
  | nil =>
      apply String.toList_inj.mp
      simp [write, join, Item.text, toString]
  | cons e ports =>
      have some : write ((e :: ports).map fun e => .pair "hostfwd" (forward e.2)) ≠ "" := by
        intro none
        have empty := congrArg String.toList none
        cases ports <;> simp [write, join, Item.text] at empty
      rw [if_neg some, write_cons _ (by simp), write_cons _ (by simp)]
      apply String.toList_inj.mp
      simp [Item.text, toString]

section Templates

variable (id a b : String)

theorem write_vmnetShared : s!"vmnet-shared,id={id}" = write [.word "vmnet-shared", .pair "id" id] := by
  apply String.toList_inj.mp
  simp [write, join, Item.text, toString]

theorem write_bridged : s!"vmnet-bridged,id={id},ifname={a}" =
    write [.word "vmnet-bridged", .pair "id" id, .pair "ifname" a] := by
  apply String.toList_inj.mp
  simp [write, join, Item.text, toString]

theorem write_descriptor :
    s!"socket,id={id},fd=3" = write [.word "socket", .pair "id" id, .pair "fd" "3"] := by
  apply String.toList_inj.mp
  simp [write, join, Item.text, toString]

theorem write_listen : s!"socket,id={id},listen=:{a}" =
    write [.word "socket", .pair "id" id, .pair "listen" s!":{a}"] := by
  apply String.toList_inj.mp
  simp [write, join, Item.text, toString]

theorem write_connect : s!"socket,id={id},connect=127.0.0.1:{a}" =
    write [.word "socket", .pair "id" id, .pair "connect" s!"127.0.0.1:{a}"] := by
  apply String.toList_inj.mp
  simp [write, join, Item.text, toString]

theorem write_mcast : s!"socket,id={id},mcast={a}:{b}" =
    write [.word "socket", .pair "id" id, .pair "mcast" s!"{a}:{b}"] := by
  apply String.toList_inj.mp
  simp [write, join, Item.text, toString]

theorem write_dgram :
    s!"dgram,id={id},local.type=unix,local.path={a}," ++ s!"remote.type=unix,remote.path={b}" =
      write [.word "dgram", .pair "id" id, .pair "local.type" "unix", .pair "local.path" a,
        .pair "remote.type" "unix", .pair "remote.path" b] := by
  apply String.toList_inj.mp
  simp [write, join, Item.text, toString]

theorem write_tap : s!"tap,id={id},ifname={a},script=no,downscript=no" =
    write [.word "tap", .pair "id" id, .pair "ifname" a, .pair "script" "no",
      .pair "downscript" "no"] := by
  apply String.toList_inj.mp
  simp [write, join, Item.text, toString]

end Templates

theorem Netdev.text_eq (id : String) (d : Netdev) : d.text id = write (d.items id) := by
  cases d with
  | user ports => exact write_user id ports
  | vmnetShared => exact write_vmnetShared id
  | vmnetBridged ifname => exact write_bridged id ifname
  | descriptor => exact write_descriptor id
  | listen port => exact write_listen id (shown port)
  | connect port => exact write_connect id (shown port)
  | mcast group port => exact write_mcast id group (shown port)
  | dgram own peer => exact write_dgram id own peer
  | tap ifname => exact write_tap id ifname

def Netdev.args (config : NetworkConfig) (d : Netdev) : List String :=
  netdevArgs config (d.text config.id)

section Resolved

variable {around : NetworkHost} {ctx : ResolutionContext} {config : NetworkConfig}
  {ports : Record PortMapping} {r : ResolvedNetwork}

theorem resolveShared_ok (h : resolveShared around ctx config = .ok r) :
    ∃ d, resolvedNetdev around ctx ports .shared = some d ∧ r.qemuNetdevArgs = d.args config := by
  refine ⟨_, rfl, ?_⟩
  unfold resolveShared at h
  split at h
  · split at h
    · rename_i found
      rw [found]
      split at h
      · cases h; rfl
      · cases h
    · rename_i none
      rw [none]
      cases h; rfl
  · cases h

theorem resolveVmnetShared_ok (h : resolveVmnetShared ctx config = .ok r) :
    r.qemuNetdevArgs = Netdev.vmnetShared.args config := by
  unfold resolveVmnetShared at h
  split at h
  · cases h
  · cases h; rfl

theorem resolveBridged_ok {iface : String} (h : resolveBridged around ctx config iface = .ok r) :
    ∃ d, resolvedNetdev around ctx ports (.bridged iface) = some d ∧
      r.qemuNetdevArgs = d.args config := by
  unfold resolveBridged at h
  split at h
  · obtain ⟨device, alias_, h⟩ := bind_eq_ok.mp h
    refine ⟨if (ctx.bridgedSocket device).isSome then .descriptor else .vmnetBridged device, ?_, ?_⟩
    · rw [resolvedNetdev, alias_]
      rfl
    · split at h
      · rename_i found
        rw [found]
        split at h
        · cases h; rfl
        · cases h
      · rename_i none
        rw [none]
        cases h; rfl
  · cases h

theorem resolveVmnetBridged_ok {iface : String} (h : resolveVmnetBridged ctx config iface = .ok r) :
    r.qemuNetdevArgs = (Netdev.vmnetBridged iface).args config := by
  unfold resolveVmnetBridged at h
  split at h
  · cases h
  · cases h; rfl

theorem resolveTap_ok {ifname : String} (h : resolveTap ctx config ifname = .ok r) :
    r.qemuNetdevArgs = (Netdev.tap ifname).args config := by
  unfold resolveTap at h
  split at h
  · cases h
  · cases h; rfl

theorem resolveSocketNamed_ok {name : String}
    (h : resolveSocketNamed around ctx config name = .ok r) :
    ∃ d, resolvedNetdev around ctx ports (.socket name) = some d ∧
      r.qemuNetdevArgs = d.args config := by
  unfold resolveSocketNamed at h
  split at h
  · cases h
  · rename_i entry found
    rw [resolvedNetdev, found, Option.bind_some]
    cases mode : entry.mode with
    | mcast =>
        rw [if_pos mode] at h
        cases h
        exact ⟨_, rfl, rfl⟩
    | listenConnect =>
        rw [if_neg (by rw [mode]; decide)] at h
        split at h
        · cases h
        · rename_i slot held
          rw [if_neg (by rw [mode]; decide)] at h
          cases h
          rw [held]
          refine ⟨_, rfl, ?_⟩
          dsimp only
          split <;> rfl
    | dgram =>
        rw [if_neg (by rw [mode]; decide)] at h
        split at h
        · cases h
        · rename_i slot held
          rw [if_pos mode, held] at *
          split at h
          · cases h
          · split at h
            · cases h
            · obtain ⟨_, -, rfl⟩ := map_eq_ok.mp h
              exact ⟨_, rfl, rfl⟩

/-- A NIC that was resolved has the arguments of the backend it is meant to be. -/
theorem resolveNetworkConfig_ok {net : NetworkConfig}
    (h : resolveNetworkConfig around ctx config (buildHostfwdString ports) = .ok net) :
    ∃ d, resolvedNetdev around ctx ports config.specifier = some d ∧
      ∃ r, net = { config with resolved := some r } ∧ r.qemuNetdevArgs = d.args config := by
  obtain ⟨r, resolved, rfl⟩ := map_eq_ok.mp h
  suffices ∃ d, resolvedNetdev around ctx ports config.specifier = some d ∧
      r.qemuNetdevArgs = d.args config by
    obtain ⟨d, meant, args⟩ := this
    exact ⟨d, meant, r, rfl, args⟩
  cases spec : config.specifier with
  | user => rw [spec] at resolved; cases resolved; exact ⟨_, rfl, rfl⟩
  | shared => rw [spec] at resolved; exact resolveShared_ok resolved
  | vmnetShared => rw [spec] at resolved; exact ⟨_, rfl, resolveVmnetShared_ok resolved⟩
  | socket name => rw [spec] at resolved; exact resolveSocketNamed_ok resolved
  | socketListen port => rw [spec] at resolved; cases resolved; exact ⟨_, rfl, rfl⟩
  | socketConnect port => rw [spec] at resolved; cases resolved; exact ⟨_, rfl, rfl⟩
  | socketMcast group port => rw [spec] at resolved; cases resolved; exact ⟨_, rfl, rfl⟩
  | bridged iface => rw [spec] at resolved; exact resolveBridged_ok resolved
  | vmnetBridged iface => rw [spec] at resolved; exact ⟨_, rfl, resolveVmnetBridged_ok resolved⟩
  | tap ifname => rw [spec] at resolved; exact ⟨_, rfl, resolveTap_ok resolved⟩

end Resolved

/-- Each result of a `mapM` that succeeds comes from one of the list. -/
theorem exists_of_mapM_ok {ε α β : Type} {f : α → Except ε β} {as : List α} {bs : List β}
    (h : as.mapM f = .ok bs) {b : β} (member : b ∈ bs) : ∃ a ∈ as, f a = .ok b := by
  induction as generalizing bs with
  | nil => cases h; cases member
  | cons a as ih =>
      rw [List.mapM_cons] at h
      obtain ⟨b', is, h⟩ := bind_eq_ok.mp h
      obtain ⟨bs', rest, h⟩ := bind_eq_ok.mp h
      cases h
      rcases List.mem_cons.mp member with rfl | later
      · exact ⟨a, List.mem_cons_self, is⟩
      · obtain ⟨a', member, is⟩ := ih rest later
        exact ⟨a', List.mem_cons_of_mem _ member, is⟩

section Prepared

variable (around : NetworkHost) (ctx : ResolutionContext) (ports : Record PortMapping)

/-- A NIC as a launch has it: not resolved, or resolved with the forwards of the machine. -/
def Prepared (net : NetworkConfig) : Prop :=
  net.resolved = none ∨
    ∃ config, resolveNetworkConfig around ctx config (buildHostfwdString ports) = .ok net

def netdevOf (net : NetworkConfig) : Option Netdev :=
  match net.resolved with
  | none => some (fallbackNetdev ports net.specifier)
  | some _ => resolvedNetdev around ctx ports net.specifier

variable {around ctx ports}

theorem resolveAllNetworks_prepared {configs nets : List NetworkConfig}
    (h : resolveAllNetworks around ctx configs (buildHostfwdString ports) = .ok nets) :
    ∀ net ∈ nets, Prepared around ctx ports net := by
  obtain ⟨resolved, mapped, h⟩ := bind_eq_ok.mp h
  have same : resolved = nets := by
    by_cases users : (configs.filter (·.specifier = .user)).length > 1
    · rw [if_pos users] at h
      cases h
    · rw [if_neg users] at h
      by_cases wrappers : (resolved.filter fun c => (c.resolved.bind (·.wrapper)).isSome).length > 1
      · simp only [wrappers, if_true] at h
        cases h
      · simp only [wrappers, if_false] at h
        exact Except.ok.inj h
  subst same
  intro net member
  obtain ⟨config, _, is⟩ := exists_of_mapM_ok mapped member
  exact .inr ⟨config, is⟩

theorem fallback_user (id : String) :
    (s!"user,id={id}" ++
      if buildHostfwdString ports = "" then "" else "," ++ buildHostfwdString ports) =
      (Netdev.user ports).text id := by
  change _ = if buildHostfwdString ports = "" then _ else _
  split
  · exact String.append_empty
  · apply String.toList_inj.mp
    simp [toString]

theorem Prepared.nicArgs {net : NetworkConfig} (h : Prepared around ctx ports net) :
    ∃ d, netdevOf around ctx ports net = some d ∧ nicArgs ports net = d.args net := by
  rcases h with unresolved | ⟨config, resolved⟩
  · refine ⟨fallbackNetdev ports net.specifier, by rw [netdevOf, unresolved], ?_⟩
    unfold Quickchr.nicArgs
    rw [unresolved]
    cases net.specifier with
    | user | shared | socket | bridged =>
        exact congrArg (netdevArgs net) (fallback_user net.id)
    | _ => rfl
  · obtain ⟨d, meant, r, rfl, args⟩ := resolveNetworkConfig_ok resolved
    exact ⟨d, meant, args⟩

end Prepared

theorem comma_not_mem_toDigits (n : ℕ) : ',' ∉ Nat.toDigits 10 n := by
  intro member
  have digit := Nat.isDigit_of_mem_toDigits (by decide) (by decide) member
  exact absurd digit (by decide)

theorem comma_not_mem_toString (n : ℕ) : ',' ∉ (toString n).toList := by
  change ',' ∉ (String.ofList (Nat.toDigits 10 n)).toList
  rw [String.toList_ofList]
  exact comma_not_mem_toDigits n

theorem comma_not_mem_shown (port : Option ℕ) : ',' ∉ (shown port).toList := by
  cases port with
  | none => decide
  | some port => exact comma_not_mem_toString port

theorem comma_not_mem_forward (p : PortMapping) : ',' ∉ (forward p).toList := by
  have host := comma_not_mem_toString p.host
  have guest := comma_not_mem_toString p.guest
  unfold forward
  cases p.proto <;> simp_all [toString]

theorem Netdev.items_filled (id : String) (d : Netdev) : ∀ i ∈ d.items id, i.text ≠ [] := by
  cases d with
  | user ports =>
      refine List.forall_mem_cons.mpr ⟨by simp [Item.text], ?_⟩
      refine List.forall_mem_cons.mpr ⟨by simp [Item.text], List.forall_mem_map.mpr fun e _ => ?_⟩
      simp [Item.text]
  | _ => simp [Netdev.items, Item.text]

/-- Written with nothing doubled, a backend has to be without commas in its texts. -/
theorem Netdev.items_plain {id : String} {d : Netdev} :
    (∀ i ∈ d.items id, i.Plain) ↔ ',' ∉ id.toList ∧ ∀ s ∈ d.texts, ',' ∉ s.toList := by
  cases d with
  | user ports =>
      have forwards : ∀ i ∈ ports.map fun e => Item.pair "hostfwd" (forward e.2), i.Plain :=
        List.forall_mem_map.mpr fun e _ => ⟨by decide, by decide, comma_not_mem_forward e.2⟩
      constructor
      · intro plain
        have id_ := plain (.pair "id" id) (List.mem_cons_of_mem _ List.mem_cons_self)
        exact ⟨id_.2.2, fun s member => absurd member List.not_mem_nil⟩
      · rintro ⟨id_, -⟩
        refine List.forall_mem_cons.mpr ⟨⟨by decide, by decide⟩, ?_⟩
        exact List.forall_mem_cons.mpr ⟨⟨by decide, by decide, id_⟩, forwards⟩
  | listen port | connect port | mcast group port =>
      have shown := comma_not_mem_shown port
      simp [Netdev.items, Netdev.texts, Item.Plain, toString, shown]
  | _ => simp [Netdev.items, Netdev.texts, Item.Plain]

end Quickchr
