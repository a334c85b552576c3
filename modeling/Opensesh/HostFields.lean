/-
The options of saved hosts and groups, as `hosts.toml` has them: each one optional, so that an
unset one is inherited.
-/
import Opensesh.Fields
import Opensesh.Target

namespace Opensesh.Saved

open List Option
open Fields

export Target (Protocol Parity FlowControl Engine)

/-- Which SSH implementation connects. -/
inductive SshBackend where
  | internal
  | openssh
deriving DecidableEq

/-- How far forwarded X11 programs are trusted. -/
inductive X11Forwarding where
  | off
  | untrusted
  | trusted
deriving DecidableEq

/-- What Enter sends on a serial line. -/
inductive Newline where
  | cr
  | lf
  | crlf
deriving DecidableEq

/-- What is logged of a session. -/
inductive SessionLog where
  | off
  | text
  | raw
deriving DecidableEq

/-- How a remote desktop fits its pane. -/
inductive Scaling where
  | dynamic
  | fit
  | actual
deriving DecidableEq

/-- How much a VNC desktop's pictures are compressed. -/
inductive VncQuality where
  | lossless
  | low
  | medium
  | high
deriving DecidableEq

/-- Each protocol by its name. -/
def protocolForm : Form Protocol :=
  .choice Target.Protocol.all (fun protocol => String.ofList protocol.asStr)
    fun protocol => by cases protocol <;> decide

def SshBackend.asStr : SshBackend → String
  | .internal => "internal"
  | .openssh => "openssh"

def backendForm : Form SshBackend :=
  .choice [.internal, .openssh] SshBackend.asStr fun backend => by cases backend <;> decide

def X11Forwarding.asStr : X11Forwarding → String
  | .off => "off"
  | .untrusted => "untrusted"
  | .trusted => "trusted"

def x11Form : Form X11Forwarding :=
  .choice [.off, .untrusted, .trusted] X11Forwarding.asStr fun x11 => by cases x11 <;> decide

def parityName : Parity → String
  | .none => "none"
  | .even => "even"
  | .odd => "odd"

def parityForm : Form Parity :=
  .choice [.none, .even, .odd] parityName fun parity => by cases parity <;> decide

def flowControlName : FlowControl → String
  | .none => "none"
  | .software => "software"
  | .hardware => "hardware"

def flowControlForm : Form FlowControl :=
  .choice [.none, .software, .hardware] flowControlName fun flow => by cases flow <;> decide

def Newline.asStr : Newline → String
  | .cr => "cr"
  | .lf => "lf"
  | .crlf => "crlf"

def newlineForm : Form Newline :=
  .choice [.cr, .lf, .crlf] Newline.asStr fun newline => by cases newline <;> decide

def SessionLog.asStr : SessionLog → String
  | .off => "off"
  | .text => "text"
  | .raw => "raw"

def sessionLogForm : Form SessionLog :=
  .choice [.off, .text, .raw] SessionLog.asStr fun log => by cases log <;> decide

def Scaling.asStr : Scaling → String
  | .dynamic => "dynamic"
  | .fit => "fit"
  | .actual => "actual"

def scalingForm : Form Scaling :=
  .choice [.dynamic, .fit, .actual] Scaling.asStr fun scaling => by cases scaling <;> decide

def VncQuality.asStr : VncQuality → String
  | .lossless => "lossless"
  | .low => "low"
  | .medium => "medium"
  | .high => "high"

def vncQualityForm : Form VncQuality :=
  .choice [.lossless, .low, .medium, .high] VncQuality.asStr
    fun quality => by cases quality <;> decide

/-- What runs a docker host's container. -/
def engineName : Engine → String
  | .docker => "docker"
  | .podman => "podman"

def engineForm : Form Engine :=
  .choice [.docker, .podman] engineName fun engine => by cases engine <;> decide

def portForm : Form (Fin 65536) := .number 65536

def wordForm : Form (Fin 4294967296) := .number 4294967296

def byteForm : Form (Fin 256) := .number 256

/-- SSH options a host or a group sets. -/
structure SshOptions where
  backend : Option SshBackend
  agentForwarding : Option Bool
  x11 : Option X11Forwarding
  waypipe : Option Bool
  /-- 0 turns it off. -/
  keepaliveSecs : Option (Fin 4294967296)
  compression : Option Bool
  startupSnippet : Option String
  legacyAlgorithms : Option Bool
  authOrder : Option (List String)
  proxy : Option String
  proxyCommand : Option String
  env : Option Form.Texts
  sendLocale : Option Bool
  command : Option String
  autoReconnect : Option Bool
  log : Option SessionLog
  detectOs : Option Bool
  monitor : Option Bool
  agentSocket : Option String
deriving DecidableEq

/-- The fields in the order they are written. -/
def SshOptions.fields (ssh : SshOptions) : List (String × Option Value) :=
  [("backend", ssh.backend.map backendForm.write),
    ("agent_forwarding", ssh.agentForwarding.map Form.flag.write),
    ("x11", ssh.x11.map x11Form.write),
    ("waypipe", ssh.waypipe.map Form.flag.write),
    ("keepalive_secs", ssh.keepaliveSecs.map wordForm.write),
    ("compression", ssh.compression.map Form.flag.write),
    ("startup_snippet", ssh.startupSnippet.map Form.text.write),
    ("legacy_algorithms", ssh.legacyAlgorithms.map Form.flag.write),
    ("auth_order", ssh.authOrder.map Form.texts.write),
    ("proxy", ssh.proxy.map Form.text.write),
    ("proxy_command", ssh.proxyCommand.map Form.text.write),
    ("env", ssh.env.map Form.textMap.write),
    ("send_locale", ssh.sendLocale.map Form.flag.write),
    ("command", ssh.command.map Form.text.write),
    ("auto_reconnect", ssh.autoReconnect.map Form.flag.write),
    ("log", ssh.log.map sessionLogForm.write),
    ("detect_os", ssh.detectOs.map Form.flag.write),
    ("monitor", ssh.monitor.map Form.flag.write),
    ("agent_socket", ssh.agentSocket.map Form.text.write)]

/-- Fails when a field has another type. -/
def SshOptions.read (table : Table) : Option SshOptions := do
  pure {
    backend := ← optional backendForm table "backend"
    agentForwarding := ← optional .flag table "agent_forwarding"
    x11 := ← optional x11Form table "x11"
    waypipe := ← optional .flag table "waypipe"
    keepaliveSecs := ← optional wordForm table "keepalive_secs"
    compression := ← optional .flag table "compression"
    startupSnippet := ← optional .text table "startup_snippet"
    legacyAlgorithms := ← optional .flag table "legacy_algorithms"
    authOrder := ← optional .texts table "auth_order"
    proxy := ← optional .text table "proxy"
    proxyCommand := ← optional .text table "proxy_command"
    env := ← optional .textMap table "env"
    sendLocale := ← optional .flag table "send_locale"
    command := ← optional .text table "command"
    autoReconnect := ← optional .flag table "auto_reconnect"
    log := ← optional sessionLogForm table "log"
    detectOs := ← optional .flag table "detect_os"
    monitor := ← optional .flag table "monitor"
    agentSocket := ← optional .text table "agent_socket" }

/-- No option set. -/
def SshOptions.empty : SshOptions :=
  ⟨none, none, none, none, none, none, none, none, none, none, none, none, none, none, none, none,
    none, none, none⟩

/-- The `ssh` table of a host. -/
def sshSection : Section SshOptions where
  keys := ["backend", "agent_forwarding", "x11", "waypipe", "keepalive_secs", "compression",
    "startup_snippet", "legacy_algorithms", "auth_order", "proxy", "proxy_command", "env",
    "send_locale", "command", "auto_reconnect", "log", "detect_os", "monitor", "agent_socket"]
  fields := SshOptions.fields
  read := SshOptions.read
  empty := .empty
  keys_fields _ := rfl
  wellFormed ssh := by
    simp only [SshOptions.fields, List.forall_mem_cons, wellFormedOpt_map, true_and]
    exact List.forall_mem_nil _
  fields_empty := by
    simp only [SshOptions.fields, SshOptions.empty, List.forall_mem_cons, Option.map_none, true_and]
    exact List.forall_mem_nil _
  read_fields ssh table h := by
    simp only [List.forall_mem_cons] at h
    obtain ⟨h1, h2, h3, h4, h5, h6, h7, h8, h9, h10, h11, h12, h13, h14, h15, h16, h17, h18, h19,
      -⟩ := h
    rw [SshOptions.read, optional_eq h1, optional_eq h2, optional_eq h3, optional_eq h4,
      optional_eq h5, optional_eq h6, optional_eq h7, optional_eq h8, optional_eq h9,
      optional_eq h10, optional_eq h11, optional_eq h12, optional_eq h13, optional_eq h14,
      optional_eq h15, optional_eq h16, optional_eq h17, optional_eq h18, optional_eq h19]
    rfl

structure SftpOptions where
  followCwd : Option Bool
  startDir : Option String
deriving DecidableEq

def SftpOptions.fields (options : SftpOptions) : List (String × Option Value) :=
  [("follow_cwd", options.followCwd.map Form.flag.write),
    ("start_dir", options.startDir.map Form.text.write)]

def SftpOptions.read (table : Table) : Option SftpOptions := do
  pure {
    followCwd := ← optional .flag table "follow_cwd"
    startDir := ← optional .text table "start_dir" }

def SftpOptions.empty : SftpOptions := ⟨none, none⟩

/-- The `sftp` table of a host. -/
def sftpSection : Section SftpOptions where
  keys := ["follow_cwd", "start_dir"]
  fields := SftpOptions.fields
  read := SftpOptions.read
  empty := .empty
  keys_fields _ := rfl
  wellFormed options := by
    simp only [SftpOptions.fields, List.forall_mem_cons, wellFormedOpt_map, true_and]
    exact List.forall_mem_nil _
  fields_empty := by
    simp only [SftpOptions.fields, SftpOptions.empty, List.forall_mem_cons, Option.map_none, true_and]
    exact List.forall_mem_nil _
  read_fields options table h := by
    simp only [List.forall_mem_cons] at h
    obtain ⟨h1, h2, -⟩ := h
    rw [SftpOptions.read, optional_eq h1, optional_eq h2]
    rfl

/-- Serial line settings; the address is the device. -/
structure SerialOptions where
  baud : Option (Fin 4294967296)
  dataBits : Option (Fin 256)
  parity : Option Parity
  stopBits : Option (Fin 256)
  flowControl : Option FlowControl
  newline : Option Newline
  localEcho : Option Bool
deriving DecidableEq

def SerialOptions.fields (options : SerialOptions) : List (String × Option Value) :=
  [("baud", options.baud.map wordForm.write),
    ("data_bits", options.dataBits.map byteForm.write),
    ("parity", options.parity.map parityForm.write),
    ("stop_bits", options.stopBits.map byteForm.write),
    ("flow_control", options.flowControl.map flowControlForm.write),
    ("newline", options.newline.map newlineForm.write),
    ("local_echo", options.localEcho.map Form.flag.write)]

def SerialOptions.read (table : Table) : Option SerialOptions := do
  pure {
    baud := ← optional wordForm table "baud"
    dataBits := ← optional byteForm table "data_bits"
    parity := ← optional parityForm table "parity"
    stopBits := ← optional byteForm table "stop_bits"
    flowControl := ← optional flowControlForm table "flow_control"
    newline := ← optional newlineForm table "newline"
    localEcho := ← optional .flag table "local_echo" }

def SerialOptions.empty : SerialOptions := ⟨none, none, none, none, none, none, none⟩

/-- The `serial` table of a host. -/
def serialSection : Section SerialOptions where
  keys := ["baud", "data_bits", "parity", "stop_bits", "flow_control", "newline", "local_echo"]
  fields := SerialOptions.fields
  read := SerialOptions.read
  empty := .empty
  keys_fields _ := rfl
  wellFormed options := by
    simp only [SerialOptions.fields, List.forall_mem_cons, wellFormedOpt_map, true_and]
    exact List.forall_mem_nil _
  fields_empty := by
    simp only [SerialOptions.fields, SerialOptions.empty, List.forall_mem_cons, Option.map_none, true_and]
    exact List.forall_mem_nil _
  read_fields options table h := by
    simp only [List.forall_mem_cons] at h
    obtain ⟨h1, h2, h3, h4, h5, h6, h7, -⟩ := h
    rw [SerialOptions.read, optional_eq h1, optional_eq h2, optional_eq h3, optional_eq h4,
      optional_eq h5, optional_eq h6, optional_eq h7]
    rfl

/-- How a container or pod is entered. -/
structure ContainerOptions where
  engine : Option Engine
  shell : Option String
  namespaceName : Option String
  podContainer : Option String
  context : Option String
deriving DecidableEq

def ContainerOptions.fields (options : ContainerOptions) : List (String × Option Value) :=
  [("engine", options.engine.map engineForm.write),
    ("shell", options.shell.map Form.text.write),
    ("namespace", options.namespaceName.map Form.text.write),
    ("pod_container", options.podContainer.map Form.text.write),
    ("context", options.context.map Form.text.write)]

def ContainerOptions.read (table : Table) : Option ContainerOptions := do
  pure {
    engine := ← optional engineForm table "engine"
    shell := ← optional .text table "shell"
    namespaceName := ← optional .text table "namespace"
    podContainer := ← optional .text table "pod_container"
    context := ← optional .text table "context" }

def ContainerOptions.empty : ContainerOptions := ⟨none, none, none, none, none⟩

/-- The `container` table of a host. -/
def containerSection : Section ContainerOptions where
  keys := ["engine", "shell", "namespace", "pod_container", "context"]
  fields := ContainerOptions.fields
  read := ContainerOptions.read
  empty := .empty
  keys_fields _ := rfl
  wellFormed options := by
    simp only [ContainerOptions.fields, List.forall_mem_cons, wellFormedOpt_map, true_and]
    exact List.forall_mem_nil _
  fields_empty := by
    simp only [ContainerOptions.fields, ContainerOptions.empty, List.forall_mem_cons, Option.map_none, true_and]
    exact List.forall_mem_nil _
  read_fields options table h := by
    simp only [List.forall_mem_cons] at h
    obtain ⟨h1, h2, h3, h4, h5, -⟩ := h
    rw [ContainerOptions.read, optional_eq h1, optional_eq h2, optional_eq h3, optional_eq h4,
      optional_eq h5]
    rfl

structure S3Options where
  region : Option String
  pathStyle : Option Bool
deriving DecidableEq

def S3Options.fields (options : S3Options) : List (String × Option Value) :=
  [("region", options.region.map Form.text.write),
    ("path_style", options.pathStyle.map Form.flag.write)]

def S3Options.read (table : Table) : Option S3Options := do
  pure {
    region := ← optional .text table "region"
    pathStyle := ← optional .flag table "path_style" }

def S3Options.empty : S3Options := ⟨none, none⟩

/-- The `s3` table of a host. -/
def s3Section : Section S3Options where
  keys := ["region", "path_style"]
  fields := S3Options.fields
  read := S3Options.read
  empty := .empty
  keys_fields _ := rfl
  wellFormed options := by
    simp only [S3Options.fields, List.forall_mem_cons, wellFormedOpt_map, true_and]
    exact List.forall_mem_nil _
  fields_empty := by
    simp only [S3Options.fields, S3Options.empty, List.forall_mem_cons, Option.map_none, true_and]
    exact List.forall_mem_nil _
  read_fields options table h := by
    simp only [List.forall_mem_cons] at h
    obtain ⟨h1, h2, -⟩ := h
    rw [S3Options.read, optional_eq h1, optional_eq h2]
    rfl

/-- Remote desktop settings. -/
structure RdpOptions where
  domain : Option String
  scaling : Option Scaling
  resolution : Option String
  clipboard : Option Bool
deriving DecidableEq

def RdpOptions.fields (options : RdpOptions) : List (String × Option Value) :=
  [("domain", options.domain.map Form.text.write),
    ("scaling", options.scaling.map scalingForm.write),
    ("resolution", options.resolution.map Form.text.write),
    ("clipboard", options.clipboard.map Form.flag.write)]

def RdpOptions.read (table : Table) : Option RdpOptions := do
  pure {
    domain := ← optional .text table "domain"
    scaling := ← optional scalingForm table "scaling"
    resolution := ← optional .text table "resolution"
    clipboard := ← optional .flag table "clipboard" }

def RdpOptions.empty : RdpOptions := ⟨none, none, none, none⟩

/-- The `rdp` table of a host. -/
def rdpSection : Section RdpOptions where
  keys := ["domain", "scaling", "resolution", "clipboard"]
  fields := RdpOptions.fields
  read := RdpOptions.read
  empty := .empty
  keys_fields _ := rfl
  wellFormed options := by
    simp only [RdpOptions.fields, List.forall_mem_cons, wellFormedOpt_map, true_and]
    exact List.forall_mem_nil _
  fields_empty := by
    simp only [RdpOptions.fields, RdpOptions.empty, List.forall_mem_cons, Option.map_none, true_and]
    exact List.forall_mem_nil _
  read_fields options table h := by
    simp only [List.forall_mem_cons] at h
    obtain ⟨h1, h2, h3, h4, -⟩ := h
    rw [RdpOptions.read, optional_eq h1, optional_eq h2, optional_eq h3, optional_eq h4]
    rfl

structure VncOptions where
  scaling : Option Scaling
  readOnly : Option Bool
  quality : Option VncQuality
  clipboard : Option Bool
  shared : Option Bool
deriving DecidableEq

def VncOptions.fields (options : VncOptions) : List (String × Option Value) :=
  [("scaling", options.scaling.map scalingForm.write),
    ("read_only", options.readOnly.map Form.flag.write),
    ("quality", options.quality.map vncQualityForm.write),
    ("clipboard", options.clipboard.map Form.flag.write),
    ("shared", options.shared.map Form.flag.write)]

def VncOptions.read (table : Table) : Option VncOptions := do
  pure {
    scaling := ← optional scalingForm table "scaling"
    readOnly := ← optional .flag table "read_only"
    quality := ← optional vncQualityForm table "quality"
    clipboard := ← optional .flag table "clipboard"
    shared := ← optional .flag table "shared" }

def VncOptions.empty : VncOptions := ⟨none, none, none, none, none⟩

def vncSection : Section VncOptions where
  keys := ["scaling", "read_only", "quality", "clipboard", "shared"]
  fields := VncOptions.fields
  read := VncOptions.read
  empty := .empty
  keys_fields _ := rfl
  wellFormed options := by
    simp only [VncOptions.fields, List.forall_mem_cons, wellFormedOpt_map, true_and]
    exact List.forall_mem_nil _
  fields_empty := by
    simp only [VncOptions.fields, VncOptions.empty, List.forall_mem_cons, Option.map_none, true_and]
    exact List.forall_mem_nil _
  read_fields options table h := by
    simp only [List.forall_mem_cons] at h
    obtain ⟨h1, h2, h3, h4, h5, -⟩ := h
    rw [VncOptions.read, optional_eq h1, optional_eq h2, optional_eq h3, optional_eq h4,
      optional_eq h5]
    rfl

end Opensesh.Saved
