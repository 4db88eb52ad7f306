import Os161.CatMouse.Bypass
import Os161.CatMouse.Completion
import Os161.CatMouse.Seats
import Os161.Io.Console
import Os161.Io.Lamebus
import Os161.Io.LhdTurns
import Os161.Kern.ArrayList
import Os161.Kern.BitmapSet
import Os161.Kern.KheapSound
import Os161.Kern.QueueFifo
import Os161.Pid.ExitWait
import Os161.Pid.Reclamation
import Os161.Pid.Slots
import Os161.Sched.Fork
import Os161.Sched.Preallocation
import Os161.Sfs.Bytes
import Os161.Sfs.Flush
import Os161.Sfs.Remount
import Os161.Sfs.Supply
import Os161.Sfs.Trimming
import Os161.Synch.Condition
import Os161.Synch.Semaphores
import Os161.Vfs.EmufsCounts
import Os161.Vfs.Paths
import Os161.Vm.Copyinout
import Os161.Vm.Faults
import Os161.Vm.LoadElf
import Os161.Vm.Tlb
import Os161.Vm.Copy
import Os161.Io.Pseudorand
import Os161.Io.Ltimer
