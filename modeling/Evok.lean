import Evok.Library.Trace
import Evok.Library.Run
import Evok.Library.Overlay
import Evok.Library.Script
import Evok.Library.Lockstep
import Evok.Library.Rounding
import Evok.Library.Dict
import Evok.Library.Fold
import Evok.Library.Countdown
import Evok.Library.Files
import Evok.Library.Coroutine
import Evok.Library.WaitFor
import Evok.Library.Delayed
import Evok.Library.Merge
import Evok.Library.Topic
import Evok.Bus.SessionLock
import Evok.Bus.Handover
import Evok.Bus.Moves
import Evok.Bus.Exclusive
import Evok.Bus.Fairness
import Evok.Bus.SerialBuses
import Evok.Bus.Claims
import Evok.Bus.Deadlock
import Evok.Modbus.Cache
import Evok.Modbus.Client
import Evok.Modbus.Pins
import Evok.Modbus.PinMove
import Evok.Modbus.Bits
import Evok.Modbus.Values
import Evok.Modbus.Action
import Evok.Modbus.Accessor
import Evok.Modbus.RoundTrip
import Evok.Modbus.Register
import Evok.Modbus.TwoRegisters
import Evok.Modbus.BlockReads
import Evok.Modbus.Schedule
import Evok.Modbus.Intact
import Evok.Modbus.Pwm
import Evok.Modbus.Divider
import Evok.Modbus.Iomode
import Evok.Modbus.Digital
import Evok.Modbus.PwmRange
import Evok.Modbus.PwmDuty
import Evok.Modbus.PwmGroup
import Evok.Modbus.Analog
import Evok.Modbus.Special
import Evok.Modbus.InputActions
import Evok.Modbus.DirectSwitch
import Evok.Modbus.HoldTask
import Evok.Modbus.Device
import Evok.Modbus.Remembers
import Evok.Modbus.Events
import Evok.Modbus.Memory
import Evok.Modbus.Decisions
import Evok.Modbus.Assigned
import Evok.Modbus.Refreshed
import Evok.Modbus.UnitAttrs
import Evok.Modbus.Grouping
import Evok.Modbus.Float32
import Evok.Modbus.Builder
import Evok.Modbus.Populate
import Evok.Modbus.Registered
import Evok.Modbus.Units
import Evok.Modbus.CachedRegister
import Evok.Modbus.Requests
import Evok.Modbus.Slave
import Evok.Modbus.Coherence
import Evok.Modbus.Reported
import Evok.Sequencer.Sequencer
import Evok.Sequencer.Registry
import Evok.Sequencer.Locks
import Evok.Sequencer.Progress
import Evok.Sequencer.Replace
import Evok.Sequencer.Shutdown
import Evok.Sequencer.Notified
import Evok.W1.Located
import Evok.W1.Addresses
import Evok.W1.Poll
import Evok.W1.Overtaking
import Evok.Devices.FullState
import Evok.Devices.Aliases
import Evok.Devices.Invariant
import Evok.Devices.Bijection
import Evok.Devices.Resolve
import Evok.Devices.File
import Evok.Devices.Precheck
import Evok.Devices.AliasTask
import Evok.Devices.Persist
import Evok.Scanner.Scanner
import Evok.Scanner.Failing
import Evok.Changes.SetDevices
import Evok.Changes.Partial
import Evok.Changes.Bulk
import Evok.Api.Auth
import Evok.Api.Handlers
import Evok.Api.Alone
import Evok.Api.Rpc
import Evok.Api.Service
import Evok.Api.ReadOnly
import Evok.Api.Purge
import Evok.Api.Receivers
import Evok.Api.ClientIp
import Evok.Api.Merged
import Evok.Mqtt.Handler
import Evok.Mqtt.Delivery
import Evok.Mqtt.Attempts
import Evok.Mqtt.Topics
import Evok.Mqtt.HaDiscovery
import Evok.Mqtt.HaIds
