import RoombaRtos.Lib.LinkedChain
import RoombaRtos.Lib.Lockstep
import RoombaRtos.Lib.ListQueue
import RoombaRtos.Lib.RingBuffer
import RoombaRtos.Lib.Fletcher
import RoombaRtos.Lib.Avr
import RoombaRtos.Lib.Epoch
import RoombaRtos.Lib.Interleaving
import RoombaRtos.Common
import RoombaRtos.Process
import RoombaRtos.Rotation
import RoombaRtos.TaskList
import RoombaRtos.Project2.Process
import RoombaRtos.Message
import RoombaRtos.MessageList
import RoombaRtos.Kernel
import RoombaRtos.Os
import RoombaRtos.Sched
import RoombaRtos.SchedInvariant
import RoombaRtos.SchedRequests
import RoombaRtos.Refinement
import RoombaRtos.RefinementRequests
import RoombaRtos.TaskTable
import RoombaRtos.Effects
import RoombaRtos.Clock
import RoombaRtos.PriorityScheduling
import RoombaRtos.FirstCome
import RoombaRtos.Timeline
import RoombaRtos.StartTimes
import RoombaRtos.Budget
import RoombaRtos.FalseAlarms
import RoombaRtos.StartOrder
import RoombaRtos.Exchange
import RoombaRtos.Mailboxes
import RoombaRtos.Ledger
import RoombaRtos.Delivery
import RoombaRtos.Replies
import RoombaRtos.Uart
import RoombaRtos.Packet
import RoombaRtos.Reception
import RoombaRtos.Corruption
import RoombaRtos.ContextSwitch
import RoombaRtos.Activations
import RoombaRtos.EarlyReturn
import RoombaRtos.Purge
import RoombaRtos.NullRequests
import RoombaRtos.Preemption
import RoombaRtos.AsyncReply
import RoombaRtos.Move
import RoombaRtos.Game
import RoombaRtos.Creation
import RoombaRtos.Steering
import RoombaRtos.Arm
import RoombaRtos.Servo
import RoombaRtos.Setters
import RoombaRtos.Printing
import RoombaRtos.Lib.TimeTriggered
import RoombaRtos.Project1.Scheduler
import RoombaRtos.Waiting
import RoombaRtos.Faults
import RoombaRtos.Link
import RoombaRtos.Conflicts
import RoombaRtos.Roomba
import RoombaRtos.Answers
import RoombaRtos.Remote
import RoombaRtos.Health
import RoombaRtos.Commands
import RoombaRtos.Pilot
import RoombaRtos.Project1.Remote
