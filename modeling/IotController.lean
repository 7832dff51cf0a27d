import IotController.Trace
import IotController.Copies
import IotController.ResetCut
import IotController.SetupHold
import IotController.Divider
import IotController.Pwm
import IotController.Report
import IotController.Server
import IotController.Routing
import IotController.Dashboard
import IotController.Game
import IotController.Gateway
import IotController.Browser
import IotController.ClockedLoop
import IotController.Service
import IotController.Display
import IotController.EdgeDetector
import IotController.Winnable
import IotController.Thermometer
import IotController.Responsive
import IotController.Play
import IotController.Age
