import EmbeddedCar.Gpio.Interlock
import EmbeddedCar.Gpio.FailSafe
import EmbeddedCar.Gpio.Shutdown
import EmbeddedCar.Gpio.ZeroDuty
import EmbeddedCar.Gpio.BlinkTable
import EmbeddedCar.Gpio.Skipping
import EmbeddedCar.Gpio.Deadlock
import EmbeddedCar.Gpio.Signals
import EmbeddedCar.Gpio.HardwarePwm
import EmbeddedCar.Gpio.PwmRange
import EmbeddedCar.Gpio.ParsedReply
import EmbeddedCar.Gpio.BlinkTime
import EmbeddedCar.Gpio.ServerIp
import EmbeddedCar.Gpio.PwmMap
import EmbeddedCar.Gpio.MotorFrequency
import EmbeddedCar.Gpio.PwmWave
import EmbeddedCar.Gpio.SoftServo
import EmbeddedCar.Gpio.HardServo
import EmbeddedCar.Gpio.Wiring
import EmbeddedCar.Gpio.PwmDoubles
import EmbeddedCar.Gpio.ExactTimes
import EmbeddedCar.Gpio.Blocking
import EmbeddedCar.Backend.DeclaredRecord
import EmbeddedCar.Backend.ExplicitSpeed
import EmbeddedCar.Backend.StreamRegistry
import EmbeddedCar.Backend.UploadedFrames
import EmbeddedCar.Backend.FrameStream
import EmbeddedCar.Backend.SavedSlices
import EmbeddedCar.Backend.FrameStats
import EmbeddedCar.Backend.VideoRoutes
import EmbeddedCar.Backend.VideoProxy
import EmbeddedCar.Backend.ReachableDevice
import EmbeddedCar.Frontend.Page
import EmbeddedCar.Frontend.Keyboard
import EmbeddedCar.Frontend.CameraView
import EmbeddedCar.System.Posts
import EmbeddedCar.System.Display
import EmbeddedCar.System.SpeedAgreement
import EmbeddedCar.System.GearCounters
import EmbeddedCar.System.StatusMirror
import EmbeddedCar.System.LoginRequests
import EmbeddedCar.Video.OnePipeline
import EmbeddedCar.Video.Identity
import EmbeddedCar.Video.Options
import EmbeddedCar.Video.Launch
import EmbeddedCar.Reactive.Path
import EmbeddedCar.System.Driving
import EmbeddedCar.System.ServiceStatus
