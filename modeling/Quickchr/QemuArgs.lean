import Quickchr.NetworkResolution
import Quickchr.Disks
import Quickchr.Versions

/-!
# The QEMU command line

Drives, NICs, channels and the gdbstub of a launch. Paths, interface names and multicast groups
are put into option lists as they are.
-/
namespace Quickchr

open PortBlocks OptionList

structure QemuDisk where
  path : String
  format : Disks.BootDiskFormat

structure QemuLaunchConfig where
  arch : Arch
  machineDir : String
  bootDisk : QemuDisk
  extraDisks : List QemuDisk := []
  mem : ℕ
  cpu : ℕ
  ports : Record PortMapping
  networks : List NetworkConfig
  background : Bool
  portBase : ℕ
  accel : Option String := none
  /-- Arguments of the user's own. -/
  qemuArgs : List String := []
  frozen : Bool := false

structure EfiFirmwarePaths where
  code : String
  vars : String

structure Launcher where
  requireQemu : Except QuickCHRError String
  requireFirmware : Except QuickCHRError EfiFirmwarePaths
  /-- The variables of the firmware are there, or get prepared. -/
  prepareEfiVars : Except QuickCHRError Unit
  detectAccel : String
  serialLogEnabled : Bool

/-- A file of a directory whose path is normal. -/
def Host.join (host : Host) (dir file : String) : String :=
  if host.win32 then dir ++ "\\" ++ file else dir ++ "/" ++ file

section Args

variable (host : Host) (launcher : Launcher)

def machineArgs (arch : Arch) (mem cpu : ℕ) (accel : String) : List String :=
  ["-M", if arch = .x86 then "pc" else "virt", "-m", toString mem, "-smp", toString cpu,
    "-accel", if accel = "tcg" then "tcg,tb-size=256" else accel] ++
  match arch with
  | .x86 => if accel = "kvm" ∨ accel = "hvf" then ["-cpu", "host"] else []
  | .arm64 => ["-cpu", if accel = "hvf" then "host" else "cortex-a710"]

def firmwareArgs (machineDir : String) : Arch → Except QuickCHRError (List String)
  | .x86 => .ok []
  | .arm64 =>
      launcher.requireFirmware.bind fun fw => launcher.prepareEfiVars.map fun _ =>
        let varsPath := host.join machineDir "efi-vars.qcow2"
        ["-drive", s!"if=pflash,format=raw,readonly=on,unit=0,file={fw.code}",
          "-drive", s!"if=pflash,format=qcow2,unit=1,file={varsPath}"]

def driveArgs (arch : Arch) (number : ℕ) (disk : QemuDisk) : List String :=
  match arch with
  | .arm64 =>
      ["-drive", s!"file={disk.path},format={disk.format.text},if=none,id=drive{number}",
        "-device", s!"virtio-blk-pci,drive=drive{number}"]
  | .x86 => ["-drive", s!"file={disk.path},format={disk.format.text},if=virtio"]

/-- A socket in the machine directory, or a port of the block on Windows. -/
def channelSock (machineDir file : String) (port : ℕ) : String :=
  if host.win32 then s!"host=127.0.0.1,port={port}" else s!"path={host.join machineDir file}"

def buildChannelArgs (arch : Arch) (machineDir : String) (background : Bool) (portBase : ℕ) :
    List String :=
  let monitorSock := channelSock host machineDir "monitor.sock" (portBase + 6)
  let serialSock := channelSock host machineDir "serial.sock" (portBase + 7)
  let qgaSock := channelSock host machineDir "qga.sock" (portBase + 8)
  let logfile := host.join machineDir "serial.log"
  let serialLog := if launcher.serialLogEnabled then s!",logfile={logfile},logappend=on" else ""
  (if background then
    ["-chardev", s!"socket,id=monitor0,{monitorSock},server=on,wait=off",
      "-mon", "chardev=monitor0,mode=readline",
      "-chardev", s!"socket,id=serial0,{serialSock},server=on,wait=off{serialLog}",
      "-serial", "chardev:serial0"]
  else
    ["-chardev", "stdio,id=serial0,mux=on,signal=off",
      "-mon", "chardev=serial0,mode=readline",
      "-serial", "chardev:serial0",
      "-chardev", s!"socket,id=monitor0,{monitorSock},server=on,wait=off",
      "-mon", "chardev=monitor0,mode=readline"]) ++
  match arch with
  | .x86 =>
      ["-device", "virtio-serial-pci,id=virtio-serial-qga",
        "-chardev", s!"socket,id=qga0,{qgaSock},server=on,wait=off",
        "-device", "virtserialport,chardev=qga0,name=org.qemu.guest_agent.0,id=qga-port0"]
  | .arm64 => []

def frozenArgs (machineDir : String) (frozen : Bool) : List String :=
  let socket := host.join machineDir "gdb.sock"
  if frozen then ["-S", "-gdb", s!"unix:{socket},server=on,wait=off"] else []

def ownArgs (config : QemuLaunchConfig) (accel : String) (firmware : List String) : List String :=
  machineArgs config.arch config.mem config.cpu accel ++ firmware ++
    driveArgs config.arch 0 config.bootDisk ++
    (config.extraDisks.mapIdx fun i disk => driveArgs config.arch (i + 1) disk).flatten ++
    buildNetworkArgs config.ports config.networks ++ ["-display", "none"] ++
    buildChannelArgs host launcher config.arch config.machineDir config.background config.portBase ++
    frozenArgs host config.machineDir config.frozen

/-- The user's arguments are passed on after the others, as they are. -/
def buildQemuArgs (config : QemuLaunchConfig) : Except QuickCHRError (List String) := do
  let qemuBin ← launcher.requireQemu
  let firmware ← firmwareArgs host launcher config.machineDir config.arch
  let accel := config.accel.getD launcher.detectAccel
  return qemuBin :: (ownArgs host launcher config accel firmware ++ config.qemuArgs)

end Args

def FLAGS : List String := ["-drive", "-netdev", "-chardev", "-gdb"]

/-- The option lists among the arguments. Every argument but `-S` comes with a value. -/
def optionLists : List String → List (String × String)
  | flag :: value :: rest =>
      if flag = "-S" then optionLists (value :: rest)
      else if flag ∈ FLAGS then (flag, value) :: optionLists rest
      else optionLists rest
  | _ => []

/-- What QEMU takes from the option lists of a command line. -/
def readOptions (args : List String) : List (String × List Item) :=
  (optionLists args).map fun o => (o.1, parse o.2)

section Meant

variable (host : Host) (launcher : Launcher)

def firmwareMeant (machineDir : String) : Arch → List (String × List Item)
  | .x86 => []
  | .arm64 =>
      match launcher.requireFirmware with
      | .error _ => []
      | .ok fw =>
          [("-drive", [.pair "if" "pflash", .pair "format" "raw", .pair "readonly" "on",
            .pair "unit" "0", .pair "file" fw.code]),
            ("-drive", [.pair "if" "pflash", .pair "format" "qcow2", .pair "unit" "1",
              .pair "file" (host.join machineDir "efi-vars.qcow2")])]

def driveMeant (arch : Arch) (number : ℕ) (disk : QemuDisk) : String × List Item :=
  ("-drive", [.pair "file" disk.path, .pair "format" disk.format.text] ++
    match arch with
    | .arm64 => [.pair "if" "none", .pair "id" s!"drive{number}"]
    | .x86 => [.pair "if" "virtio"])

def sockMeant (machineDir file : String) (port : ℕ) : List Item :=
  if host.win32 then [.pair "host" "127.0.0.1", .pair "port" (toString port)]
  else [.pair "path" (host.join machineDir file)]

def chardevMeant (id : String) (sock more : List Item) : String × List Item :=
  ("-chardev", [.word "socket", .pair "id" id] ++ sock ++
    [.pair "server" "on", .pair "wait" "off"] ++ more)

def channelsMeant (arch : Arch) (machineDir : String) (background : Bool) (portBase : ℕ) :
    List (String × List Item) :=
  let monitor := chardevMeant "monitor0" (sockMeant host machineDir "monitor.sock" (portBase + 6)) []
  let logfile : List Item := if launcher.serialLogEnabled then
    [.pair "logfile" (host.join machineDir "serial.log"), .pair "logappend" "on"] else []
  (if background then
    [monitor,
      chardevMeant "serial0" (sockMeant host machineDir "serial.sock" (portBase + 7)) logfile]
  else
    [("-chardev", [.word "stdio", .pair "id" "serial0", .pair "mux" "on", .pair "signal" "off"]),
      monitor]) ++
  match arch with
  | .x86 => [chardevMeant "qga0" (sockMeant host machineDir "qga.sock" (portBase + 8)) []]
  | .arm64 => []

def frozenMeant (machineDir : String) (frozen : Bool) : List (String × List Item) :=
  if frozen then
    [("-gdb", [.word ("unix:" ++ host.join machineDir "gdb.sock"), .pair "server" "on",
      .pair "wait" "off"])]
  else []

def networksMeant (around : NetworkHost) (ctx : ResolutionContext) (ports : Record PortMapping)
    (networks : List NetworkConfig) : List (String × List Item) :=
  networks.filterMap fun net =>
    (netdevOf around ctx ports net).map fun d => ("-netdev", d.items net.id)

/-- Every drive, NIC, channel and gdbstub of a launch, with the options it is meant to have. -/
def launchMeant (around : NetworkHost) (ctx : ResolutionContext) (config : QemuLaunchConfig) :
    List (String × List Item) :=
  firmwareMeant host launcher config.machineDir config.arch ++
    [driveMeant config.arch 0 config.bootDisk] ++
    (config.extraDisks.mapIdx fun i disk => driveMeant config.arch (i + 1) disk) ++
    networksMeant around ctx config.ports config.networks ++
    channelsMeant host launcher config.arch config.machineDir config.background config.portBase ++
    frozenMeant host config.machineDir config.frozen

end Meant

/-- The arguments are these option lists, written with nothing doubled, among others. -/
def Emits (args : List String) (os : List (String × List Item)) : Prop :=
  ∀ rest, optionLists (args ++ rest) = os.map (fun o => (o.1, write o.2)) ++ optionLists rest

theorem Emits.nil : Emits [] [] := fun _ => rfl

theorem Emits.append {args args' : List String} {os os' : List (String × List Item)}
    (h : Emits args os) (h' : Emits args' os') : Emits (args ++ args') (os ++ os') := by
  intro rest
  rw [List.append_assoc, h, h', List.map_append, List.append_assoc]

theorem Emits.other {flag value : String} {args : List String} {os : List (String × List Item)}
    (h : Emits args os) (valued : flag ≠ "-S") (other : flag ∉ FLAGS) :
    Emits (flag :: value :: args) os := by
  intro rest
  rw [List.cons_append, List.cons_append, optionLists, if_neg valued, if_neg other, h]

theorem Emits.option {flag value : String} {items : List Item} {args : List String}
    {os : List (String × List Item)} (h : Emits args os) (valued : flag ≠ "-S")
    (list : flag ∈ FLAGS) (text : value = write items) :
    Emits (flag :: value :: args) ((flag, items) :: os) := by
  intro rest
  rw [List.cons_append, List.cons_append, optionLists, if_neg valued, if_pos list, h, text,
    List.map_cons, List.cons_append]

theorem Emits.drive {value : String} {items : List Item} {args : List String}
    {os : List (String × List Item)} (h : Emits args os) (text : value = write items) :
    Emits ("-drive" :: value :: args) (("-drive", items) :: os) :=
  h.option (by decide) (by decide) text

section Templates

variable (a b : String)

theorem write_firmwareCode : s!"if=pflash,format=raw,readonly=on,unit=0,file={a}" =
    write [.pair "if" "pflash", .pair "format" "raw", .pair "readonly" "on", .pair "unit" "0",
      .pair "file" a] := by
  apply String.toList_inj.mp
  simp [write, join, Item.text, toString]

theorem write_firmwareVars : s!"if=pflash,format=qcow2,unit=1,file={a}" =
    write [.pair "if" "pflash", .pair "format" "qcow2", .pair "unit" "1", .pair "file" a] := by
  apply String.toList_inj.mp
  simp [write, join, Item.text, toString]

theorem write_driveArm64 (number : ℕ) : s!"file={a},format={b},if=none,id=drive{number}" =
    write [.pair "file" a, .pair "format" b, .pair "if" "none", .pair "id" s!"drive{number}"] := by
  apply String.toList_inj.mp
  simp [write, join, Item.text, toString]

theorem write_driveX86 : s!"file={a},format={b},if=virtio" =
    write [.pair "file" a, .pair "format" b, .pair "if" "virtio"] := by
  apply String.toList_inj.mp
  simp [write, join, Item.text, toString]

theorem write_stdio : "stdio,id=serial0,mux=on,signal=off" =
    write [.word "stdio", .pair "id" "serial0", .pair "mux" "on", .pair "signal" "off"] := by
  apply String.toList_inj.mp
  simp [write, join, Item.text]

theorem write_gdb : s!"unix:{a},server=on,wait=off" =
    write [.word ("unix:" ++ a), .pair "server" "on", .pair "wait" "off"] := by
  apply String.toList_inj.mp
  simp [write, join, Item.text, toString]

theorem write_chardev {sock more : List Item} (h : sock ≠ []) : "socket,id=" ++ a ++ "," ++
    write sock ++ ",server=on,wait=off" ++ (if more = [] then "" else "," ++ write more) =
      write (chardevMeant a sock more).2 := by
  have common : "socket,id=" ++ a ++ "," ++ write sock ++ ",server=on,wait=off" =
      write ([.word "socket", .pair "id" a] ++ sock ++ [.pair "server" "on", .pair "wait" "off"]) := by
    rw [write_append (by simp) (by simp), write_append (by simp) h]
    apply String.toList_inj.mp
    simp [write, join, Item.text]
  rw [common, chardevMeant]
  split
  · rename_i none
    rw [none, List.append_nil, String.append_empty]
  · rename_i some
    rw [write_append (by simp) some, String.append_assoc]

end Templates

section Written

variable {host : Host} {launcher : Launcher}

theorem machineArgs_emits (arch : Arch) (mem cpu : ℕ) (accel : String) :
    Emits (machineArgs arch mem cpu accel) [] := by
  refine @Emits.append _ _ [] [] ?_ ?_
  · exact (((Emits.nil.other (by decide) (by decide)).other (by decide) (by decide)).other
      (by decide) (by decide)).other (by decide) (by decide)
  · cases arch with
    | x86 =>
        dsimp only
        split
        · exact Emits.nil.other (by decide) (by decide)
        · exact .nil
    | arm64 => exact Emits.nil.other (by decide) (by decide)

theorem firmwareArgs_emits {machineDir : String} {arch : Arch} {args : List String}
    (h : firmwareArgs host launcher machineDir arch = .ok args) :
    Emits args (firmwareMeant host launcher machineDir arch) := by
  cases arch with
  | x86 => cases h; exact .nil
  | arm64 =>
      obtain ⟨fw, found, h⟩ := bind_eq_ok.mp h
      obtain ⟨_, _, rfl⟩ := map_eq_ok.mp h
      simp only [firmwareMeant, found]
      exact (Emits.nil.drive (write_firmwareVars _)).drive (write_firmwareCode _)

theorem driveArgs_emits (arch : Arch) (number : ℕ) (disk : QemuDisk) :
    Emits (driveArgs arch number disk) [driveMeant arch number disk] := by
  cases arch with
  | x86 => exact Emits.nil.drive (write_driveX86 _ _)
  | arm64 =>
      exact (Emits.nil.other (by decide) (by decide)).drive (write_driveArm64 _ _ _)

theorem frozenArgs_emits (machineDir : String) (frozen : Bool) :
    Emits (frozenArgs host machineDir frozen) (frozenMeant host machineDir frozen) := by
  cases frozen with
  | false => exact .nil
  | true =>
      intro rest
      exact @Emits.option "-gdb" _ _ _ _ Emits.nil (by decide) (by decide) (write_gdb _) rest

theorem channelSock_eq (machineDir file : String) (port : ℕ) :
    channelSock host machineDir file port = write (sockMeant host machineDir file port) := by
  unfold channelSock sockMeant
  split
  · apply String.toList_inj.mp
    simp [write, join, Item.text, toString]
  · apply String.toList_inj.mp
    simp [write, join, Item.text, toString]

theorem sockMeant_ne_nil (machineDir file : String) (port : ℕ) :
    sockMeant host machineDir file port ≠ [] := by
  unfold sockMeant
  split <;> exact List.cons_ne_nil _ _

theorem write_monitor {sock : List Item} (h : sock ≠ []) :
    s!"socket,id=monitor0,{write sock},server=on,wait=off" =
      write (chardevMeant "monitor0" sock []).2 := by
  rw [← write_chardev _ h]
  apply String.toList_inj.mp
  simp [toString]

theorem write_qga {sock : List Item} (h : sock ≠ []) :
    s!"socket,id=qga0,{write sock},server=on,wait=off" = write (chardevMeant "qga0" sock []).2 := by
  rw [← write_chardev _ h]
  apply String.toList_inj.mp
  simp [toString]

theorem write_serial {sock more : List Item} {log : String} (h : sock ≠ [])
    (logged : log = if more = [] then "" else "," ++ write more) :
    s!"socket,id=serial0,{write sock},server=on,wait=off{log}" =
      write (chardevMeant "serial0" sock more).2 := by
  rw [← write_chardev _ h, ← logged]
  apply String.toList_inj.mp
  simp [toString]

theorem write_logfile (path : String) : s!",logfile={path},logappend=on" =
    "," ++ write [.pair "logfile" path, .pair "logappend" "on"] := by
  apply String.toList_inj.mp
  simp [write, join, Item.text, toString]

theorem buildChannelArgs_emits (arch : Arch) (machineDir : String) (background : Bool)
    (portBase : ℕ) : Emits (buildChannelArgs host launcher arch machineDir background portBase)
      (channelsMeant host launcher arch machineDir background portBase) := by
  have filled := @sockMeant_ne_nil host machineDir
  unfold buildChannelArgs channelsMeant
  simp only [channelSock_eq]
  refine Emits.append ?_ ?_
  · cases background with
    | true =>
        refine Emits.option ?_ (by decide) (by decide) (write_monitor (filled _ _))
        refine Emits.other ?_ (by decide) (by decide)
        refine Emits.option ?_ (by decide) (by decide) (write_serial (filled _ _) ?_)
        · exact Emits.nil.other (by decide) (by decide)
        · split
          · exact write_logfile _
          · rfl
    | false =>
        refine Emits.option ?_ (by decide) (by decide) write_stdio
        refine (Emits.other ?_ (by decide) (by decide)).other (by decide) (by decide)
        refine Emits.option ?_ (by decide) (by decide) (write_monitor (filled _ _))
        exact Emits.nil.other (by decide) (by decide)
  · cases arch with
    | x86 =>
        refine Emits.other ?_ (by decide) (by decide)
        refine Emits.option ?_ (by decide) (by decide) (write_qga (filled _ _))
        exact Emits.nil.other (by decide) (by decide)
    | arm64 => exact .nil

variable {around : NetworkHost} {ctx : ResolutionContext} {config : QemuLaunchConfig}

theorem buildNetworkArgs_emits {ports : Record PortMapping} {networks : List NetworkConfig}
    (prepared : ∀ net ∈ networks, Prepared around ctx ports net) :
    Emits (buildNetworkArgs ports networks) (networksMeant around ctx ports networks) := by
  induction networks with
  | nil => exact .nil
  | cons net networks ih =>
      obtain ⟨d, meant, args⟩ := (prepared net List.mem_cons_self).nicArgs
      have rest := ih fun net member => prepared net (List.mem_cons_of_mem _ member)
      rw [buildNetworkArgs, List.flatMap_cons, args, networksMeant,
        List.filterMap_cons_some (by rw [meant]; rfl)]
      refine @Emits.append _ _ [_] _ ?_ rest
      exact (Emits.nil.other (by decide) (by decide)).option (by decide) (by decide)
        (d.text_eq net.id)

theorem extraDisks_emits {α : Type} {args : ℕ → α → List String}
    {meant : ℕ → α → String × List Item} (h : ∀ i a, Emits (args i a) [meant i a]) (as : List α) :
    Emits (as.mapIdx args).flatten (as.mapIdx meant) := by
  induction as generalizing args meant with
  | nil => exact .nil
  | cons a as ih =>
      rw [List.mapIdx_cons, List.mapIdx_cons, List.flatten_cons]
      exact (h 0 a).append (ih fun i a => h (i + 1) a)

theorem ownArgs_emits {accel : String} {firmware : List String}
    (made : firmwareArgs host launcher config.machineDir config.arch = .ok firmware)
    (prepared : ∀ net ∈ config.networks, Prepared around ctx config.ports net) :
    Emits (ownArgs host launcher config accel firmware)
      (launchMeant host launcher around ctx config) := by
  have display : Emits ["-display", "none"] [] := Emits.nil.other (by decide) (by decide)
  have nics := (buildNetworkArgs_emits prepared).append display
  rw [List.append_nil] at nics
  unfold ownArgs launchMeant
  refine Emits.append ?_ (frozenArgs_emits _ _)
  refine Emits.append ?_ (buildChannelArgs_emits _ _ _ _)
  rw [List.append_assoc]
  refine Emits.append ?_ nics
  refine Emits.append ?_ (extraDisks_emits (fun i disk => driveArgs_emits _ (i + 1) disk) _)
  refine Emits.append ?_ (driveArgs_emits _ 0 _)
  exact (machineArgs_emits _ _ _ _).append (firmwareArgs_emits made)

/-- What is read of a command line: the option lists of the launch as they were written, and what
the user's arguments say. -/
theorem readOptions_buildQemuArgs {args : List String}
    (h : buildQemuArgs host launcher config = .ok args)
    (prepared : ∀ net ∈ config.networks, Prepared around ctx config.ports net) :
    readOptions args.tail =
      (launchMeant host launcher around ctx config).map (fun o => (o.1, parse (write o.2))) ++
        readOptions config.qemuArgs := by
  obtain ⟨qemuBin, _, h⟩ := bind_eq_ok.mp h
  obtain ⟨firmware, made, h⟩ := bind_eq_ok.mp h
  cases h
  rw [List.tail_cons, readOptions, ownArgs_emits made prepared, List.map_append, List.map_map]
  rfl

end Written

/-- The options are read as they are meant. -/
def Reads (o : String × List Item) : Prop := parse (write o.2) = o.2

section Reads

variable {host : Host} {launcher : Launcher}

theorem comma_mem_join {dir file : String} (h : ',' ∉ file.toList) :
    ',' ∈ (host.join dir file).toList ↔ ',' ∈ dir.toList := by
  unfold Host.join
  split <;> simp [h]

theorem equals_mem_join {dir file : String} (h : '=' ∉ file.toList) :
    '=' ∈ (host.join dir file).toList ↔ '=' ∈ dir.toList := by
  unfold Host.join
  split <;> simp [h]

theorem reads_drive {arch : Arch} {number : ℕ} {disk : QemuDisk} :
    Reads (driveMeant arch number disk) ↔ ',' ∉ disk.path.toList := by
  have digits := comma_not_mem_toDigits number
  have format : ',' ∉ disk.format.text.toList := by cases disk.format <;> decide
  unfold Reads driveMeant
  rw [parse_write (by simp)]
  · cases arch <;> simp [Item.Plain, format, toString, digits]
  · cases arch <;> simp [Item.text]

theorem reads_gdb {path : String} :
    Reads ("-gdb", [.word ("unix:" ++ path), .pair "server" "on", .pair "wait" "off"]) ↔
      ',' ∉ path.toList ∧ '=' ∉ path.toList := by
  unfold Reads
  rw [parse_write (by simp) (by simp [Item.text])]
  simp [Item.Plain]

theorem reads_firmwareCode {path : String} :
    Reads ("-drive", [.pair "if" "pflash", .pair "format" "raw", .pair "readonly" "on",
      .pair "unit" "0", .pair "file" path]) ↔ ',' ∉ path.toList := by
  unfold Reads
  rw [parse_write (by simp) (by simp [Item.text])]
  simp [Item.Plain]

theorem reads_firmwareVars {path : String} :
    Reads ("-drive", [.pair "if" "pflash", .pair "format" "qcow2", .pair "unit" "1",
      .pair "file" path]) ↔ ',' ∉ path.toList := by
  unfold Reads
  rw [parse_write (by simp) (by simp [Item.text])]
  simp [Item.Plain]

theorem reads_stdio : Reads ("-chardev",
    [.word "stdio", .pair "id" "serial0", .pair "mux" "on", .pair "signal" "off"]) := by
  unfold Reads
  rw [parse_write (by simp) (by simp [Item.text])]
  simp [Item.Plain]

theorem reads_netdev {id : String} {d : Netdev} :
    Reads ("-netdev", d.items id) ↔ ',' ∉ id.toList ∧ ∀ s ∈ d.texts, ',' ∉ s.toList := by
  unfold Reads
  rw [parse_write _ (d.items_filled id), d.items_plain]
  cases d <;> exact List.cons_ne_nil _ _

/-- A channel needs a plain directory for its socket, but on Windows. -/
theorem reads_chardev {id machineDir file : String} {port : ℕ} {more : List Item}
    (plainId : ',' ∉ id.toList) (plainFile : ',' ∉ file.toList)
    (filled : ∀ i ∈ more, i.text ≠ []) :
    Reads (chardevMeant id (sockMeant host machineDir file port) more) ↔
      (host.win32 = false → ',' ∉ machineDir.toList) ∧ ∀ i ∈ more, i.Plain := by
  have digits := comma_not_mem_toDigits port
  unfold Reads chardevMeant sockMeant
  rw [parse_write (by simp)]
  · cases win32 : host.win32 <;>
      simp [Item.Plain, or_imp, forall_and, plainId, comma_mem_join plainFile, digits, toString]
  · split <;> simpa [Item.text] using filled

theorem reads_firmware {machineDir : String} {arch : Arch} {args : List String}
    (made : firmwareArgs host launcher machineDir arch = .ok args) :
    (∀ o ∈ firmwareMeant host launcher machineDir arch, Reads o) ↔
      (arch = .arm64 → (∀ fw, launcher.requireFirmware = .ok fw → ',' ∉ fw.code.toList) ∧
        ',' ∉ machineDir.toList) := by
  cases arch with
  | x86 => simp [firmwareMeant]
  | arm64 =>
      obtain ⟨fw, found, -⟩ := bind_eq_ok.mp made
      simp only [firmwareMeant, found]
      have plainFile : ',' ∉ "efi-vars.qcow2".toList := by decide
      simp [reads_firmwareCode, reads_firmwareVars, comma_mem_join plainFile]

theorem reads_frozen {machineDir : String} {frozen : Bool} :
    (∀ o ∈ frozenMeant host machineDir frozen, Reads o) ↔
      (frozen = true → ',' ∉ machineDir.toList ∧ '=' ∉ machineDir.toList) := by
  cases frozen with
  | false => simp [frozenMeant]
  | true =>
      have noComma : ',' ∉ "gdb.sock".toList := by decide
      have noEquals : '=' ∉ "gdb.sock".toList := by decide
      simp [frozenMeant, reads_gdb, comma_mem_join noComma, equals_mem_join noEquals]

theorem reads_socket {id machineDir file : String} {port : ℕ} (plainId : ',' ∉ id.toList)
    (plainFile : ',' ∉ file.toList) :
    Reads (chardevMeant id (sockMeant host machineDir file port) []) ↔
      (host.win32 = false → ',' ∉ machineDir.toList) := by
  rw [reads_chardev plainId plainFile (by simp)]
  simp

theorem reads_serial {machineDir : String} {port : ℕ} {enabled : Bool} :
    Reads (chardevMeant "serial0" (sockMeant host machineDir "serial.sock" port)
      (if enabled then [.pair "logfile" (host.join machineDir "serial.log"), .pair "logappend" "on"]
        else [])) ↔
      (host.win32 = false ∨ enabled = true → ',' ∉ machineDir.toList) := by
  have plainFile : ',' ∉ "serial.log".toList := by decide
  rw [reads_chardev (by decide) (by decide)]
  · cases enabled <;> simp [Item.Plain, comma_mem_join plainFile]
    tauto
  · cases enabled <;> simp [Item.text]

theorem reads_channels {arch : Arch} {machineDir : String} {background : Bool} {portBase : ℕ} :
    (∀ o ∈ channelsMeant host launcher arch machineDir background portBase, Reads o) ↔
      (host.win32 = false ∨ (launcher.serialLogEnabled = true ∧ background = true) →
        ',' ∉ machineDir.toList) := by
  have monitor : Reads (chardevMeant "monitor0"
      (sockMeant host machineDir "monitor.sock" (portBase + 6)) []) ↔
      (host.win32 = false → ',' ∉ machineDir.toList) := reads_socket (by decide) (by decide)
  have qga : Reads (chardevMeant "qga0" (sockMeant host machineDir "qga.sock" (portBase + 8)) []) ↔
      (host.win32 = false → ',' ∉ machineDir.toList) := reads_socket (by decide) (by decide)
  have last : (∀ o ∈ (match arch with
      | .x86 => [chardevMeant "qga0" (sockMeant host machineDir "qga.sock" (portBase + 8)) []]
      | .arm64 => []), Reads o) ↔
      (arch = .x86 → host.win32 = false → ',' ∉ machineDir.toList) := by
    cases arch <;> simp [qga]
  unfold channelsMeant
  rw [List.forall_mem_append, last]
  cases background with
  | true =>
      simp only [if_true, List.forall_mem_cons, List.not_mem_nil, false_imp_iff, implies_true,
        and_true, monitor, reads_serial]
      exact ⟨fun h => h.1.2, fun h => ⟨⟨fun unix => h (.inl unix), h⟩, fun _ unix => h (.inl unix)⟩⟩
  | false =>
      simp only [Bool.false_eq_true, if_false, List.forall_mem_cons, List.not_mem_nil,
        false_imp_iff, implies_true, and_true, monitor, reads_stdio, true_and, and_false, or_false]
      exact ⟨fun h => h.1, fun h => ⟨h, fun _ => h⟩⟩

variable {around : NetworkHost} {ctx : ResolutionContext} {config : QemuLaunchConfig}

theorem reads_networks {ports : Record PortMapping} {networks : List NetworkConfig} :
    (∀ o ∈ networksMeant around ctx ports networks, Reads o) ↔
      ∀ net ∈ networks, ∀ d, netdevOf around ctx ports net = some d →
        ',' ∉ net.id.toList ∧ ∀ s ∈ d.texts, ',' ∉ s.toList := by
  unfold networksMeant
  simp only [List.mem_filterMap, Option.map_eq_some_iff]
  constructor
  · intro reads net member d meant
    exact reads_netdev.mp (reads _ ⟨net, member, d, meant, rfl⟩)
  · rintro plain o ⟨net, member, d, meant, rfl⟩
    exact reads_netdev.mpr (plain net member d meant)

theorem reads_extraDisks {arch : Arch} {disks : List QemuDisk} :
    (∀ o ∈ disks.mapIdx fun i disk => driveMeant arch (i + 1) disk, Reads o) ↔
      ∀ disk ∈ disks, ',' ∉ disk.path.toList := by
  constructor
  · intro reads disk member
    obtain ⟨i, inside, rfl⟩ := List.getElem_of_mem member
    exact reads_drive.mp (reads _ (List.mem_mapIdx.mpr ⟨i, inside, rfl⟩))
  · intro plain o member
    obtain ⟨i, inside, rfl⟩ := List.mem_mapIdx.mp member
    exact reads_drive.mpr (plain _ (List.getElem_mem inside))

end Reads

/-- No text that goes into an option list has a comma, and the gdbstub's path no equals sign. -/
structure PlainTexts (host : Host) (launcher : Launcher) (around : NetworkHost)
    (ctx : ResolutionContext) (config : QemuLaunchConfig) : Prop where
  firmware : config.arch = .arm64 → ∀ fw, launcher.requireFirmware = .ok fw → ',' ∉ fw.code.toList
  machineDir : config.arch = .arm64 ∨ host.win32 = false ∨ config.frozen = true ∨
    (launcher.serialLogEnabled = true ∧ config.background = true) → ',' ∉ config.machineDir.toList
  gdb : config.frozen = true → '=' ∉ config.machineDir.toList
  bootDisk : ',' ∉ config.bootDisk.path.toList
  extraDisks : ∀ disk ∈ config.extraDisks, ',' ∉ disk.path.toList
  networks : ∀ net ∈ config.networks, ∀ d, netdevOf around ctx config.ports net = some d →
    ',' ∉ net.id.toList ∧ ∀ s ∈ d.texts, ',' ∉ s.toList

section Launch

variable {host : Host} {launcher : Launcher} {around : NetworkHost} {ctx : ResolutionContext}
  {config : QemuLaunchConfig}

theorem reads_launch {firmware : List String}
    (made : firmwareArgs host launcher config.machineDir config.arch = .ok firmware) :
    (∀ o ∈ launchMeant host launcher around ctx config, Reads o) ↔
      PlainTexts host launcher around ctx config := by
  unfold launchMeant
  simp only [List.forall_mem_append, List.forall_mem_singleton, reads_firmware made, reads_drive,
    reads_extraDisks, reads_networks, reads_channels, reads_frozen]
  constructor
  · rintro ⟨⟨⟨⟨⟨firmware, boot⟩, extra⟩, networks⟩, channels⟩, frozen⟩
    refine ⟨fun arm64 => (firmware arm64).1, ?_, fun held => (frozen held).2, boot, extra, networks⟩
    rintro (arm64 | unix | held | log)
    · exact (firmware arm64).2
    · exact channels (.inl unix)
    · exact (frozen held).1
    · exact channels (.inr log)
  · intro plain
    refine ⟨⟨⟨⟨⟨fun arm64 => ?_, plain.bootDisk⟩, plain.extraDisks⟩, plain.networks⟩, ?_⟩, ?_⟩
    · exact ⟨plain.firmware arm64, plain.machineDir (.inl arm64)⟩
    · exact fun used => plain.machineDir (.inr (used.imp_right .inr))
    · exact fun held => ⟨plain.machineDir (.inr (.inr (.inl held))), plain.gdb held⟩

theorem readOptions_eq_meant {args : List String}
    (built : buildQemuArgs host launcher config = .ok args)
    (prepared : ∀ net ∈ config.networks, Prepared around ctx config.ports net) :
    readOptions args.tail =
        launchMeant host launcher around ctx config ++ readOptions config.qemuArgs ↔
      ∀ o ∈ launchMeant host launcher around ctx config, Reads o := by
  rw [readOptions_buildQemuArgs built prepared, List.append_cancel_right_eq]
  constructor
  · intro same o member
    have fixed := List.map_inj_left.mp (same.trans (List.map_id _).symm) o member
    exact congrArg Prod.snd fixed
  · intro reads
    refine (List.map_congr_left fun o member => ?_).trans (List.map_id _)
    exact Prod.ext rfl (reads o member)

theorem buildQemuArgs_firmware {args : List String}
    (built : buildQemuArgs host launcher config = .ok args) :
    ∃ firmware, firmwareArgs host launcher config.machineDir config.arch = .ok firmware := by
  obtain ⟨qemuBin, _, rest⟩ := bind_eq_ok.mp built
  obtain ⟨firmware, made, _⟩ := bind_eq_ok.mp rest
  exact ⟨firmware, made⟩

/-- QEMU takes from the command line of a launch the options that are meant, and what the user's
arguments say, exactly when all texts are plain. -/
theorem options_meant_iff {args : List String}
    (built : buildQemuArgs host launcher config = .ok args)
    (prepared : ∀ net ∈ config.networks, Prepared around ctx config.ports net) :
    readOptions args.tail =
        launchMeant host launcher around ctx config ++ readOptions config.qemuArgs ↔
      PlainTexts host launcher around ctx config := by
  obtain ⟨firmware, made⟩ := buildQemuArgs_firmware built
  exact (readOptions_eq_meant built prepared).trans (reads_launch made)

end Launch

/-- A machine with one NIC, in the directory `dir`. -/
def labLaunch (dir : String) : QemuLaunchConfig where
  arch := .x86
  machineDir := dir
  bootDisk := { path := dir ++ "/disk.img", format := .raw }
  mem := 512
  cpu := 1
  ports := []
  networks := [{ specifier := .user, id := "net0" }]
  background := true
  portBase := 9100

def labHost : Host := ⟨false, "/srv/lab/networks"⟩

def labLauncher : Launcher where
  requireQemu := .ok "/usr/bin/qemu-system-x86_64"
  requireFirmware := .ok { code := "/usr/share/AAVMF/CODE.fd", vars := "/usr/share/AAVMF/VARS.fd" }
  prepareEfiVars := .ok ()
  detectAccel := "kvm"
  serialLogEnabled := false

def labAround : NetworkHost := ⟨labHost, fun _ => none, [], fun _ => false⟩

theorem options_meant_iff_lab : ∃ nets args,
    resolveAllNetworks labAround { os := .linux } (labLaunch "/srv/lab/machines/r1").networks "" = .ok nets ∧
    buildQemuArgs labHost labLauncher { labLaunch "/srv/lab/machines/r1" with networks := nets } = .ok args ∧
    readOptions args.tail = launchMeant labHost labLauncher labAround { os := .linux }
      { labLaunch "/srv/lab/machines/r1" with networks := nets } := by
  obtain ⟨nets, resolved⟩ : ∃ nets, resolveAllNetworks labAround { os := .linux }
    (labLaunch "/srv/lab/machines/r1").networks "" = .ok nets := ⟨_, rfl⟩
  obtain ⟨args, built⟩ : ∃ args, buildQemuArgs labHost labLauncher
    { labLaunch "/srv/lab/machines/r1" with networks := nets } = .ok args := ⟨_, rfl⟩
  refine ⟨nets, args, resolved, built, ?_⟩
  have plain : PlainTexts labHost labLauncher labAround { os := .linux }
      { labLaunch "/srv/lab/machines/r1" with networks := nets } := by
    have plainDir : ',' ∉ "/srv/lab/machines/r1".toList := by decide
    have plainDisk : ',' ∉ ("/srv/lab/machines/r1" ++ "/disk.img").toList := by decide
    refine ⟨nofun, fun _ => plainDir, nofun, plainDisk, nofun, ?_⟩
    cases resolved
    exact List.forall_mem_singleton.mpr fun d meant => by cases meant; exact ⟨by decide, by decide⟩
  have read := (options_meant_iff built (resolveAllNetworks_prepared resolved)).mpr plain
  rw [read]
  exact List.append_nil _

/-- A data directory with a comma in its name. -/
theorem options_meant_fails : ¬ ∀ host launcher around ctx config args,
    buildQemuArgs host launcher config = .ok args →
    (∀ net ∈ config.networks, Prepared around ctx config.ports net) →
    readOptions args.tail =
      launchMeant host launcher around ctx config ++ readOptions config.qemuArgs := by
  intro all
  have built : ∃ args, buildQemuArgs labHost labLauncher (labLaunch "/srv/lab,1/machines/r1") =
    .ok args := ⟨_, rfl⟩
  obtain ⟨args, built⟩ := built
  have prepared : ∀ net ∈ (labLaunch "/srv/lab,1/machines/r1").networks,
      Prepared labAround { os := .linux } [] net := List.forall_mem_singleton.mpr (.inl rfl)
  have same := all labHost labLauncher labAround { os := .linux } _ args built prepared
  obtain ⟨firmware, made⟩ := buildQemuArgs_firmware built
  have plain := (reads_launch made).mp ((readOptions_eq_meant built prepared).mp same)
  exact plain.bootDisk (by decide)

end Quickchr
