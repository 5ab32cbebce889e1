import Ppnt.Native.EventLoop

/-!
# The timers of a script

Model of `setTimeout`, `setInterval`, `clearTimeout` and `clearInterval`
(`ppnt-jr/src/builtin/timeout.cpp`): the arguments of a call and the step of the event loop that it
makes.  `available` says whether the isolate has an event loop.
-/

namespace Ppnt.Native

/-- A JavaScript value as these functions look at it: what v8 makes of it as a 64-bit and as a
    32-bit integer, or nothing if the conversion throws. -/
structure JsValue where
  handle : Nat
  isFunction : Bool := false
  isNumber : Bool := false
  integerValue : Option Int := none
  int32Value : Option Int := none
  integerValue_range : ∀ n ∈ integerValue, -2 ^ 63 ≤ n ∧ n < 2 ^ 63 := by decide
  int32Value_range : ∀ n ∈ int32Value, -2 ^ 31 ≤ n ∧ n < 2 ^ 31 := by decide

/-- `std::numeric_limits<long>::max()` -/
def longMax : Int := 2 ^ 63 - 1

/-- `std::numeric_limits<long>::min()` -/
def longMin : Int := -2 ^ 63

def parseDelay (info : List JsValue) (index : Nat) : Int :=
  match info[index]? with
  | none => 0
  | some arg =>
    if !arg.isNumber then 0
    else
      match arg.integerValue with
      | none => 0
      | some value =>
        if value > longMax then longMax
        else if value < longMin then longMin
        else value

/-- `js_set_timeout` and `js_set_interval`, up to the function that they call. -/
def jsSetTimer (name : String) (set : Nat → List Nat → Int → EventLoop.Label) (available : Bool)
    (info : List JsValue) : Except String EventLoop.Label :=
  if !available then .error "EventLoop is not available"
  else
    match info with
    | [] => .error (name ++ " callback must be a function")
    | callback :: _ =>
      if !callback.isFunction then .error (name ++ " callback must be a function")
      else .ok (set callback.handle ((info.drop 2).map JsValue.handle) (parseDelay info 1))

def jsSetTimeout (available : Bool) (info : List JsValue) (clock : Int) :
    Except String EventLoop.Label :=
  jsSetTimer "setTimeout" (fun callback args delayMs => .setTimeout callback args delayMs clock)
    available info

def jsSetInterval (available : Bool) (info : List JsValue) (clock : Int) :
    Except String EventLoop.Label :=
  jsSetTimer "setInterval"
    (fun callback args intervalMs => .setInterval callback args intervalMs clock) available info

def jsClearTimer (available : Bool) (info : List JsValue) : Option EventLoop.Label :=
  if !available then none
  else
    match info with
    | [] => none
    | id :: _ => id.int32Value.map .cancel

end Ppnt.Native
