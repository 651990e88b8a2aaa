import LinuxChat.Logic.Uninterrupted
import LinuxChat.Model.Wire
import LinuxChat.Theorems.Admin
import LinuxChat.Theorems.Agreement
import LinuxChat.Theorems.Bounds
import LinuxChat.Theorems.Capacity
import LinuxChat.Theorems.Fragments
import LinuxChat.Theorems.Framing
import LinuxChat.Theorems.Isolation
import LinuxChat.Theorems.Lengths
import LinuxChat.Theorems.Logging
import LinuxChat.Theorems.Names
import LinuxChat.Theorems.NewSessions
import LinuxChat.Theorems.Ownership
import LinuxChat.Theorems.Pause
import LinuxChat.Theorems.Refinement
import LinuxChat.Theorems.Replies
import LinuxChat.Theorems.RoundTrip
import LinuxChat.Theorems.Speak
import LinuxChat.Theorems.Survival
import LinuxChat.Theorems.Validation
import LinuxChat.Theorems.Finality
import LinuxChat.Logic.LoginNames
import LinuxChat.Theorems.StoredNames
import LinuxChat.Theorems.LoginAnswers
import LinuxChat.Theorems.Departures
import LinuxChat.Theorems.Dispatch
import LinuxChat.Theorems.KickCommand
import LinuxChat.Lib.Mutex
import LinuxChat.Model.Locks
import LinuxChat.Logic.LockSpec
import LinuxChat.Theorems.Locking
import LinuxChat.Model.Agent
import LinuxChat.Theorems.FailedReceives
import LinuxChat.Lib.LinkedList
import LinuxChat.Model.ThreadNames
import LinuxChat.Theorems.ThreadNameMaps
import LinuxChat.Logic.NameEntries
import LinuxChat.Lib.Files
import LinuxChat.Model.LogFiles
import LinuxChat.Theorems.LogFiling
import LinuxChat.Lib.Path
import LinuxChat.Theorems.LogPaths
import LinuxChat.Theorems.ByteOrders
import LinuxChat.Theorems.NameChecks
import LinuxChat.Lib.Markup
import LinuxChat.Lib.Printf
import LinuxChat.Model.LogFormat
import LinuxChat.Logic.LogExpansion
import LinuxChat.Theorems.LogFormatting
import LinuxChat.Theorems.LogBounds
import LinuxChat.Theorems.Draining
import LinuxChat.Logic.Relay
import LinuxChat.Logic.Hearing
import LinuxChat.Theorems.Conversation
import LinuxChat.Theorems.Levels
import LinuxChat.Lib.Threads
import LinuxChat.Model.LockThreads
import LinuxChat.Logic.LockOrder
import LinuxChat.Theorems.Deadlock
import LinuxChat.Model.MainThread
import LinuxChat.Logic.MainStep
import LinuxChat.Theorems.Startup
import LinuxChat.Lib.LengthPrefix
import LinuxChat.Theorems.Signals
import LinuxChat.Theorems.Streams
