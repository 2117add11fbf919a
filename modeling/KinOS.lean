import KinOS.Kernel.Priority
import KinOS.Kernel.Delivery
import KinOS.Kernel.BounceStorm
import KinOS.Kernel.ContextInit
import KinOS.Kernel.Teardown
import KinOS.Kernel.Log
import KinOS.Kernel.TimerRuns
import KinOS.Fs.OneMessage
import KinOS.Fs.Space
import KinOS.Fs.PathElements
import KinOS.Fs.ShortName
import KinOS.Fs.PathWalk
import KinOS.Fs.Reopen
import KinOS.Fs.RoundTrip
import KinOS.Am.Ownership
import KinOS.Am.ReadCall
import KinOS.Am.Survives
import KinOS.Servers.Peers
import KinOS.Servers.Heeded
import KinOS.Servers.Loading
import KinOS.Kernel.TaskCalls
import KinOS.Kernel.BitmapBounds
import KinOS.Kernel.ArgVector
import KinOS.Kernel.PageRange
import KinOS.Kernel.UserHeap
import KinOS.Servers.CommandFields
import KinOS.Kernel.LoadConfined
import KinOS.Kernel.Pci
import KinOS.Am.KeyWait
import KinOS.Gui.MouseReports
import KinOS.Gui.HitTest
import KinOS.Gui.Intersection
import KinOS.Gui.Console
import KinOS.Servers.LineEditor
import KinOS.Gui.Redraw
import KinOS.Lib.BitField
import KinOS.Lib.CycleRing
import KinOS.Usb.Trb
import KinOS.Usb.Ring
import KinOS.Lib.RoundUp
import KinOS.Usb.EventRing
import KinOS.Usb.Memory
import KinOS.Lib.SlotMap
import KinOS.Usb.Transfer
import KinOS.Usb.TransferRuns
import KinOS.Lib.Toggles
import KinOS.Usb.ClassDriver
import KinOS.Usb.DeviceRuns
import KinOS.Usb.PortRuns
import KinOS.Usb.Slots
import KinOS.Am.PipeEnd
