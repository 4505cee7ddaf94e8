import Mathlib.Data.List.FinRange

/-!
# `drivers/amlogic/input/keyboard/gpio_keypad.c`

The timer handler of the keypad. `current_key` is set right before each call of `report_key_code`
and read by nothing else, so it is that function's argument.
-/
namespace AmlogicV901d.Source.GpioKeypad

def keyJitterCount : Int := 1

/-- What the handler reads of the keypad and leaves as the probe set it. -/
structure Config (keySize : Nat) where
  useIrq : Bool
  scanPeriod : Nat
  pwrkeyCode : UInt32
  code : Fin keySize → UInt32
  irqNum : Fin keySize → Int

inductive Call
  | inputReportKey (code : UInt32) (value : Int)
  | inputSync
  | enableIrq (irq : Int)
  | disableIrqNosync (irq : Int)
  | pmRelax
  | pmStayAwake
  | modTimer (msecs : Nat)
  deriving DecidableEq, Repr

structure Keypad (keySize : Nat) where
  currentIrq : Int
  count : Int
  index : Int
  currentStatus : Fin keySize → Int
  calls : List Call

variable {keySize : Nat} (cfg : Config keySize)

def Keypad.call (kp : Keypad keySize) (calls : List Call) : Keypad keySize := { kp with calls := kp.calls ++ calls }

/-- The keypad after `meson_gpio_kp_probe`. -/
def probed : Keypad keySize := ⟨0, 0, -1, fun _ => 1, []⟩

def reportCalls (key : Fin keySize) (gpioVal : Int) : List Call :=
  (if gpioVal ≠ 0 then
    .inputReportKey (cfg.code key) 0 :: if cfg.useIrq then [.enableIrq (cfg.irqNum key)] else []
  else .inputReportKey (cfg.code key) 1 :: if cfg.useIrq then [.disableIrqNosync (cfg.irqNum key)] else []) ++
  .inputSync :: if cfg.code key = cfg.pwrkeyCode then [if gpioVal ≠ 0 then .pmRelax else .pmStayAwake] else []

def reportKeyCode (key : Fin keySize) (gpioVal : Int) (kp : Keypad keySize) : Keypad keySize :=
  if kp.count < keyJitterCount then { kp with count := kp.count + 1 }
  else
    { kp.call (reportCalls cfg key gpioVal) with
      currentStatus := fun i => if i = key then gpioVal else kp.currentStatus i
      count := 0 }

/-- One round of the loop in polling mode; `gpiod i` is what `gpiod_get_value` returns for key `i`. -/
def pollKey (gpiod : Fin keySize → Int) (kp : Keypad keySize) (i : Fin keySize) : Keypad keySize :=
  (if kp.currentStatus i ≠ gpiod i then reportKeyCode cfg i (gpiod i) { kp with index := i }
  else if kp.index = i then { kp with count := 0 }
  else kp).call [.modTimer cfg.scanPeriod]

def pollingTimerHandler (gpiod : Fin keySize → Int) (kp : Keypad keySize) : Keypad keySize :=
  if cfg.useIrq then
    match (List.finRange keySize).find? (kp.currentIrq = cfg.irqNum ·) with
    | none => kp
    | some key =>
      let kp := if kp.currentStatus key ≠ gpiod key then reportKeyCode cfg key (gpiod key) kp else { kp with count := 0 }
      if kp.currentStatus key = 0 then kp.call [.modTimer cfg.scanPeriod] else kp
  else (List.finRange keySize).foldl (pollKey cfg gpiod) kp

end AmlogicV901d.Source.GpioKeypad
