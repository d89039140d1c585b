import BleKeyboard.Tmk.Order

namespace BleKeyboard.Tmk.Engine

variable {keymap : Keymap} {engine : Engine} {event : KeyEvent} {time : BitVec 16}

end BleKeyboard.Tmk.Engine
