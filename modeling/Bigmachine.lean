import Bigmachine.Transition.System
import Bigmachine.Transition.Pool
import Bigmachine.Errors.Values
import Bigmachine.Machine.State
import Bigmachine.Machine.Waiters
import Bigmachine.Machine.Loop
import Bigmachine.Machine.Lifecycle
import Bigmachine.Machine.Call
import Bigmachine.Machine.CallSemantics
import Bigmachine.Io.Reader
import Bigmachine.Rpc.Wire
import Bigmachine.Rpc.Server
import Bigmachine.Rpc.Client
import Bigmachine.Rpc.ErrorFidelity
import Bigmachine.Rpc.StreamFidelity
import Bigmachine.Supervisor.Register
import Bigmachine.Registry.Machines
import Bigmachine.Supervisor.Watchdog
import Bigmachine.Tee.Writer
import Bigmachine.Tee.Asynchronous
import Bigmachine.Machine.Cancelers
import Bigmachine.Rpc.Addressing
import Bigmachine.Supervisor.Environment
import Bigmachine.Ec2.Images
import Bigmachine.Ec2.Start
import Bigmachine.Rpc.ClientCache
import Bigmachine.Authority.Cached
import Bigmachine.Concurrent.Tree
import Bigmachine.Concurrent.CounterTree
import Bigmachine.Concurrent.Counting
import Bigmachine.Rpc.Stats
import Bigmachine.Rpc.Maxima
import Bigmachine.Rpc.Sizes
import Bigmachine.Io.Files
import Bigmachine.Tee.History
import Bigmachine.Tee.Buffering
import Bigmachine.Tee.Cancellation
import Bigmachine.Rpc.Classification
import Bigmachine.Ec2.Throttling
import Bigmachine.Ec2.CloudConfig
import Bigmachine.Fixed.Signed
import Bigmachine.Ec2.Volumes
import Bigmachine.Ec2.UserData
import Bigmachine.Machine.RetryCall
import Bigmachine.Machine.CancelError
import Bigmachine.Supervisor.Binary
import Bigmachine.Fixed.Ring
import Bigmachine.Machine.Keepalives
import Bigmachine.Io.Sink
import Bigmachine.Profile.Marshal
import Bigmachine.Profile.Output
import Bigmachine.Debug.Handlers
import Bigmachine.Authority.Contents
import Bigmachine.Ec2.Dedent
import Bigmachine.Ec2.Template
import Bigmachine.Ec2.Templates
import Bigmachine.Machine.CallContexts
import Bigmachine.Io.Lines
import Bigmachine.Machine.Tail
import Bigmachine.Registry.Shutdown
import Bigmachine.Supervisor.Expiry
import Bigmachine.Ec2.Identity
import Bigmachine.Machine.Bootstrap
import Bigmachine.Ec2.Ssh
import Bigmachine.Local.Processes
import Bigmachine.Authority.Certificates
import Bigmachine.Tee.Latest
import Bigmachine.Local.Tail
import Bigmachine.Profile.Response
import Bigmachine.Debug.Index
import Bigmachine.Debug.Expvars
import Bigmachine.Profile.Cpu
import Bigmachine.Rpc.Services
import Bigmachine.Io.Scanner
import Bigmachine.Machine.Oom
import Bigmachine.Concurrent.Group
import Bigmachine.Debug.Status
import Bigmachine.Testsystem.Machines
import Bigmachine.Rpc.Faults
