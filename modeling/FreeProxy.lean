import FreeProxy.Lib.Program
import FreeProxy.Lib.Wp
import FreeProxy.Lib.Faulty
import FreeProxy.Lib.Ipv4
import FreeProxy.Lib.FirstMatch
import FreeProxy.Lib.Interleave
import FreeProxy.Lib.Terminates
import FreeProxy.Lib.Protocol
import FreeProxy.Lib.Transfer
import FreeProxy.Lib.FirstFit
import FreeProxy.Lib.CString
import FreeProxy.Lib.Tokens
import FreeProxy.Lib.Pipe
import FreeProxy.Lib.Distinct
import FreeProxy.Lib.Reach
import FreeProxy.Lib.Occurrence
import FreeProxy.Config
import FreeProxy.Config.Text
import FreeProxy.Config.Bypass
import FreeProxy.Config.Syntax
import FreeProxy.Config.Lines
import FreeProxy.Firewall.Table
import FreeProxy.Firewall.Code
import FreeProxy.Firewall.Policy
import FreeProxy.Firewall.Spec
import FreeProxy.Firewall.Enable
import FreeProxy.Firewall.Removal
import FreeProxy.Firewall.Install
import FreeProxy.System.State
import FreeProxy.System.Daemon
import FreeProxy.System.Process
import FreeProxy.System.Operations
import FreeProxy.System.Waits
import FreeProxy.System.Harmless
import FreeProxy.System.Effects
import FreeProxy.System.Crew
import FreeProxy.System.Disable
import FreeProxy.System.Start
import FreeProxy.System.BlackHole
import FreeProxy.System.Upstream
import FreeProxy.System.Update
import FreeProxy.System.ConfigSave
import FreeProxy.System.Transaction
import FreeProxy.System.Readiness
import FreeProxy.System.Grain
import FreeProxy.System.Handover
import FreeProxy.System.Status
import FreeProxy.System.Cmdline
import FreeProxy.System.StopProcess
import FreeProxy.System.Uninstall
import FreeProxy.System.Identity
import FreeProxy.Stats.Map
import FreeProxy.Stats.Ledger
import FreeProxy.Stats.Code
import FreeProxy.Stats.Pool
import FreeProxy.Stats.Slots
import FreeProxy.Stats.Room
import FreeProxy.Stats.Seats
import FreeProxy.Stats.Snapshot
import FreeProxy.Concurrency.Lock
import FreeProxy.Concurrency.Child
import FreeProxy.Concurrency.ParentDeath
import FreeProxy.Concurrency.Clients
import FreeProxy.Concurrency.Resolver
import FreeProxy.Forwarder.Relay
import FreeProxy.Forwarder.Socks
import FreeProxy.Forwarder.Diagnostic
import FreeProxy.Forwarder.Headers
import FreeProxy.Forwarder.Diagnose
import FreeProxy.Forwarder.Session
import FreeProxy.Forwarder.Sockets
import FreeProxy.Forwarder.Concluded
import FreeProxy.Probe.Web
import FreeProxy.Probe.Speed
import FreeProxy.Probe.Report
import FreeProxy.Probe.Handles
import FreeProxy.Probe.TestRun
import FreeProxy.Tui.Page
import FreeProxy.Tui.Pages
import FreeProxy.System.Grain
