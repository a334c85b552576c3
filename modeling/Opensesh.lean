import Opensesh.Assoc
import Opensesh.Keyed
import Opensesh.Value
import Opensesh.Merge
import Opensesh.MergeSpec
import Opensesh.Document
import Opensesh.MergeConverges
import Opensesh.MergeRule
import Opensesh.Differences
import Opensesh.Resolve
import Opensesh.ResolveAgrees
import Opensesh.Machine
import Opensesh.Saves
import Opensesh.Instances
import Opensesh.FileWriter
import Opensesh.HostsFile
import Opensesh.HostsSync
import Opensesh.Settings
import Opensesh.Config
import Opensesh.SettingsSync
import Opensesh.SettingsAgree
import Opensesh.SettingsKeys
import Opensesh.Path
import Opensesh.Fs
import Opensesh.Layout
import Opensesh.LayoutValid
import Opensesh.LayoutGeometry
import Opensesh.LayoutResize
import Opensesh.Forest
import Opensesh.HostsCheck
import Opensesh.Groups
import Opensesh.HostsTidy
import Opensesh.Edits
import Opensesh.EditsKept
import Opensesh.EditsFrame
import Opensesh.Tunnel
import Opensesh.KnownHosts
import Opensesh.KnownHostsRemember
import Opensesh.Logged
import Opensesh.Authenticate
import Opensesh.AuthenticateOffers
import Opensesh.Shell
import Opensesh.Target
import Opensesh.TargetPieces
import Opensesh.Percent
import Opensesh.Outcome
import Opensesh.ProxyCommand
import Opensesh.Latch
import Opensesh.VncDrive
import Opensesh.Bytes
import Opensesh.VaultFormat
import Opensesh.VaultReads
import Opensesh.VaultRoundTrip
import Opensesh.Vault
import Opensesh.VaultFails
import Opensesh.VaultSteps
import Opensesh.VaultRuns
import Opensesh.VaultMap
import Opensesh.VaultWaits
import Opensesh.KeychainFile
import Opensesh.KeychainKept
import Opensesh.Keychain
import Opensesh.KeychainGarbage
import Opensesh.AtomicWrite
import Opensesh.AtomicWriteKept
import Opensesh.VncCanvas
import Opensesh.VncDecode
import Opensesh.VncSafe
import Opensesh.VncEncodings
import Opensesh.VncZrle
import Opensesh.VncZrleDrawn
import Opensesh.AtomicWriteHistory
import Opensesh.RdpFrame
import Opensesh.Endpoint
import Opensesh.TerminalEvents
import Opensesh.Reconnect
import Opensesh.LossyUtf8
import Opensesh.Macro
import Opensesh.S3Store
import Opensesh.S3Rename
import Opensesh.S3Writer
import Opensesh.VncTrust
import Opensesh.RemoteEdit
import Opensesh.Tunnels
import Opensesh.TunnelsKept
import Opensesh.HelperProtocol
import Opensesh.OscLimiter
import Opensesh.InputKeys
import Opensesh.InputReports
import Opensesh.Telnet
import Opensesh.TelnetEnds
import Opensesh.SocksAgree
import Opensesh.EditorFiles
import Opensesh.Redraw
import Opensesh.PacedPaste
import Opensesh.TransferScan
import Opensesh.TransferCount
import Opensesh.Fields
import Opensesh.HostFields
import Opensesh.HostModel
import Opensesh.HostResolve
import Opensesh.HostValidate
import Opensesh.HostEditor
import Opensesh.SshConfigReads
import Opensesh.HostImport
import Opensesh.HostExport
import Opensesh.SshConfigArgs
import Opensesh.SshConfigWarnings
import Opensesh.HostExportReads
import Opensesh.HostExportAgrees
import Opensesh.SshArgs
import Opensesh.SudoSave
import Opensesh.WorkspaceFile
import Opensesh.WorkspaceRestore
import Opensesh.WorkspaceReads
import Opensesh.WorkspaceQml
import Opensesh.WorkspaceShown
import Opensesh.Slices
import Opensesh.PasteInput
import Opensesh.GitConflict
import Opensesh.BundleImport
import Opensesh.SnippetText
import Opensesh.InstallKey
import Opensesh.PasteCheck
import Opensesh.Cast
import Opensesh.Player
import Opensesh.LossyPieces
import Opensesh.Recorder
import Opensesh.KeychainConsistent
import Opensesh.KeychainLoad
import Opensesh.TelnetText
import Opensesh.CommandLine
import Opensesh.JsonExtras
import Opensesh.X11
import Opensesh.NaturalOrder
import Opensesh.CopySettings
import Opensesh.ImportMerge
import Opensesh.Csv
