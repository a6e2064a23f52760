import SistemasOperativos.Sistema.Deadlock
import SistemasOperativos.Sistema.Engines
import SistemasOperativos.Sistema.Barrier
import SistemasOperativos.Sistema.Restart
import SistemasOperativos.Sistema.Dashboard
import SistemasOperativos.Sistema.Gyros
import SistemasOperativos.Sistema.Climb
import SistemasOperativos.Sistema.Fuel
import SistemasOperativos.Sistema.Touchdown
import SistemasOperativos.Sistema.Ground
import SistemasOperativos.Sistema.Alarms
import SistemasOperativos.Sistema.Guards
import SistemasOperativos.Sistema.Gasoline
import SistemasOperativos.Sistema.Report
import SistemasOperativos.Sistema.Corrections
import SistemasOperativos.Sistema.Handles
import SistemasOperativos.Sistema.Wakeup
import SistemasOperativos.Sistema.Guarded
import SistemasOperativos.Sistema.Abort
import SistemasOperativos.Sistema.Windup
import SistemasOperativos.Sistema.Screen
import SistemasOperativos.ReadWriter.Overtaking
import SistemasOperativos.ReadWriter.Sharing
import SistemasOperativos.ReadWriter.Work
import SistemasOperativos.Buffer.Work
import SistemasOperativos.Lightswitch.Progress
import SistemasOperativos.Chat.Delivery
import SistemasOperativos.Descriptors.Output
import SistemasOperativos.Pipes.Ends
import SistemasOperativos.Pipes.Greeting
import SistemasOperativos.Pipes.Measure
import SistemasOperativos.Copy.Errors
import SistemasOperativos.Merge.Parallel
import SistemasOperativos.Merge.Step
import SistemasOperativos.Merge.Overflow
import SistemasOperativos.Merge.Output
import SistemasOperativos.Shell.Rounds
import SistemasOperativos.Simulador.Input
import SistemasOperativos.Simulador.Joint
import SistemasOperativos.Times.Average
import SistemasOperativos.Memory.Handshake
import SistemasOperativos.Cancel.Matrix
