import DoorRtos.Theorems.Boot
import DoorRtos.Theorems.PriorityQueues
import DoorRtos.Theorems.SystemCalls
import DoorRtos.Theorems.Sending
import DoorRtos.Theorems.MessageQueues
import DoorRtos.Theorems.MetaQueue
import DoorRtos.Interrupts
import DoorRtos.Theorems.ReadyLinks
import DoorRtos.Theorems.Timing
import DoorRtos.Theorems.Blocks
import DoorRtos.Theorems.Rounds
import DoorRtos.Runs
import DoorRtos.Theorems.Pool
import DoorRtos.Theorems.OneQueue
import DoorRtos.Theorems.Wakeups
import DoorRtos.Theorems.Draining
import DoorRtos.Theorems.Insertion
import DoorRtos.Theorems.Conservation
import DoorRtos.Theorems.Priorities
import DoorRtos.Theorems.Results
import DoorRtos.Theorems.Crt
import DoorRtos.Theorems.SetPrio
import DoorRtos.Theorems.Rotation
import DoorRtos.Theorems.Unpreempted
import DoorRtos.Theorems.Destinations
import DoorRtos.Theorems.ClockTime
import DoorRtos.Theorems.ClockMessages
import DoorRtos.Theorems.PrioArguments
import DoorRtos.Theorems.Routing
import DoorRtos.Theorems.StaleText
import DoorRtos.Hotkeys
import DoorRtos.Theorems.CrtOutput
import DoorRtos.Theorems.Strings
import DoorRtos.Theorems.Hotkeys
import DoorRtos.Theorems.Acceptance
import DoorRtos.Theorems.Ties
import DoorRtos.Theorems.Stress
import DoorRtos.Theorems.Accesses
import DoorRtos.Theorems.Search
import DoorRtos.Theorems.Hexadecimal
import DoorRtos.Theorems.ClockBlocks
import DoorRtos.Theorems.Contexts
import DoorRtos.Theorems.HotkeyTexts
import DoorRtos.Theorems.TypedCommands
import DoorRtos.Theorems.ClockAccuracy
import DoorRtos.Theorems.ScheduledRuns
