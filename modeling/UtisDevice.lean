import UtisDevice.Machinery.Machine
import UtisDevice.Machinery.Latest
import UtisDevice.Machinery.Exclusive
import UtisDevice.Machinery.Batch
import UtisDevice.Machinery.Pieces
import UtisDevice.Machinery.Indexed
import UtisDevice.Machinery.Cells
import UtisDevice.Machinery.Flow
import UtisDevice.Machinery.Diamond
import UtisDevice.Machinery.Unwinding
import UtisDevice.Machinery.Timed
import UtisDevice.Machinery.Forever
import UtisDevice.Machinery.Runs
import UtisDevice.Machinery.Hosted
import UtisDevice.Device.Model
import UtisDevice.Worker.Slots
import UtisDevice.Worker.Registry
import UtisDevice.Worker.Polling
import UtisDevice.Worker.Ownership
import UtisDevice.Worker.Addressing
import UtisDevice.Worker.Pacing
import UtisDevice.Worker.Receive
import UtisDevice.Worker.Parse
import UtisDevice.Worker.Replies
import UtisDevice.Worker.Lag
import UtisDevice.Worker.Lifetime
import UtisDevice.Worker.Bus
import UtisDevice.Worker.Messages
import UtisDevice.Ui.Widget
import UtisDevice.Ui.Layout
import UtisDevice.System.Threads
import UtisDevice.System.Display
import UtisDevice.System.Completeness
import UtisDevice.System.Closable
import UtisDevice.System.Requests
import UtisDevice.System.Range
import UtisDevice.System.Restart
import UtisDevice.System.Application
import UtisDevice.System.Projection
import UtisDevice.System.Replay
import UtisDevice.System.StartUp
import UtisDevice.System.Patience
import UtisDevice.System.Bus
import UtisDevice.System.Tempo
import UtisDevice.System.Clock
import UtisDevice.System.Blind
import UtisDevice.System.Log
import UtisDevice.System.Screen
import UtisDevice.System.Forever
import UtisDevice.Http.Wait
