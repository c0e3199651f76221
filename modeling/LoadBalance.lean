import LoadBalance.Lib.Machine
import LoadBalance.InnerServer
import LoadBalance.Distributor.Framing
import LoadBalance.Relay.World
import LoadBalance.Relay.Start
import LoadBalance.Relay.Move
import LoadBalance.Relay.Inversion
import LoadBalance.Relay.Invariant
import LoadBalance.Relay.Interest
import LoadBalance.Relay.Account
import LoadBalance.Relay.Delivery
import LoadBalance.Relay.HalfClose
import LoadBalance.Relay.Silence
import LoadBalance.Relay.Benchmark
import LoadBalance.Relay.Balanced
import LoadBalance.Distributor.Roles
import LoadBalance.Stream.Blocking
import LoadBalance.Stream.Steering
import LoadBalance.Stream.Payload
import LoadBalance.Stream.Alignment
import LoadBalance.Stream.Refusal
import LoadBalance.Stream.Silence
import LoadBalance.Balancer.Selection
import LoadBalance.Balancer.Dominance
import LoadBalance.RoundRobin.Fairness
import LoadBalance.RoundRobin.Ending
import LoadBalance.RoundRobin.Acknowledged
import LoadBalance.RoundRobin.Backlog
import LoadBalance.Bench.Core
import LoadBalance.Bench.Reports
import LoadBalance.Bench.Forks
import LoadBalance.Bench.Hanging
import LoadBalance.Bench.Alarm
import LoadBalance.Bench.Sockets
import LoadBalance.Bench.Request
import LoadBalance.Bench.Url
import LoadBalance.Bench.CommandLine
import LoadBalance.Bench.Children
import LoadBalance.Bench.Totals
import LoadBalance.Grub.Messages
import LoadBalance.Grub.Capture
import LoadBalance.Grub.Alignment
import LoadBalance.Grub.Termination
import LoadBalance.Grub.Inside
import LoadBalance.Startup.Race
import LoadBalance.Monitor.Rounds
import LoadBalance.Monitor.UsageFiles
import LoadBalance.Monitor.Charges
import LoadBalance.Monitor.Observed
import LoadBalance.Monitor.Promon
import LoadBalance.Monitor.Percent
import LoadBalance.Monitor.Diskstats
import LoadBalance.Monitor.Columns
import LoadBalance.Monitor.Decoding
import LoadBalance.Monitor.Descriptors
import LoadBalance.Monitor.Display
import LoadBalance.Monitor.Printing
import LoadBalance.Outer.Survival
import LoadBalance.Reuseport.Files
import LoadBalance.Reuseport.Processes
import LoadBalance.EventFd.Experiment
import LoadBalance.LoadTest
