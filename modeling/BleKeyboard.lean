import BleKeyboard.Protocol.Debounce
import BleKeyboard.Protocol.Timer
import BleKeyboard.Protocol.KeymapCommon
import BleKeyboard.Powermgr.Battery
import BleKeyboard.Powermgr.Measurement
import BleKeyboard.Ble.Convergence
import BleKeyboard.Ble.Ordering
import BleKeyboard.Ble.Retention
import BleKeyboard.Ble.Connections
import BleKeyboard.Ble.ProtocolMode
import BleKeyboard.Ble.LinkErrors
import BleKeyboard.Ble.DirectedAdvertising
import BleKeyboard.Tmk.Overflow
import BleKeyboard.Tmk.Pairing
import BleKeyboard.Tmk.StuckKeys
import BleKeyboard.Tmk.TapHold
import BleKeyboard.Tmk.TimeShift
import BleKeyboard.Tmk.SixKeyRing
import BleKeyboard.Sched.ScanTimer
import BleKeyboard.Firmware
import BleKeyboard.Sched.EventBuffer
import BleKeyboard.Sched.TimeReads
import BleKeyboard.Sched.TimerHandler
import BleKeyboard.Sched.LostTimer
import BleKeyboard.Ble.Advertising
import BleKeyboard.Data.Triple
import BleKeyboard.Tmk.Macro
import BleKeyboard.Tmk.MacroEffect
import BleKeyboard.Tmk.MacroText
