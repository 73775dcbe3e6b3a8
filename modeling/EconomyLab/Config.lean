import EconomyLab.Meta

/-!
# Configuration

The settings that the modelled code reads, and how it reads metadata.
-/

namespace EconomyLab

structure Config where
  maturityHorizonMs : List (String × Int)
  platformFeeBps : Nat
  platformShards : Nat
  accrualDrain : Bool
  maxSubscriptionAttempts : Nat
  subscriptionPriceMinMinor : Int
  subscriptionPriceMaxMinor : Int
  velocityWindowMs : Int
  velocityLimitMinor : Int
  velocityInflowLimitMinor : Option Int
  velocityOutflowLimitMinor : Option Int
  pauseStartMs : Option Int
  pauseEndMs : Option Int
  maxInboxAttempts : Nat
  maxPayoutAgeMs : Int
  payoutFeeBps : Nat
  payoutSla : List (String × Int)
  payoutMinimumEarnedMinor : Int
  payoutMinIntervalMs : Int
  topUpBundlesMinor : Option (List Int)

def economyPaused (now : Int) (config : Config) : Bool :=
  match config.pauseStartMs, config.pauseEndMs with
  | some pauseStartMs, some pauseEndMs => pauseStartMs ≤ now && now < pauseEndMs
  | _, _ => false

def metaString (fields : Meta) (key fallback : String) : String :=
  match fields.lookup key with
  | some (.string value) => value
  | _ => fallback

def DEFAULT_SOURCE : String := "default"

/-- What every plain object inherits from `Object.prototype`. -/
def OBJECT_MEMBERS : List String :=
  ["constructor", "hasOwnProperty", "isPrototypeOf", "propertyIsEnumerable", "toLocaleString",
    "toString", "valueOf",
    "__defineGetter__", "__defineSetter__", "__lookupGetter__", "__lookupSetter__", "__proto__"]

/-- A wait in milliseconds, or the inherited member that the index found instead. -/
inductive Horizon
  | ms (wait : Int)
  | member (name : String)
deriving DecidableEq

/-- A moment; a time to which a member was added is a text, which compares with no number. -/
inductive Moment
  | ms (time : Int)
  | text (time : Int) (member : String)
deriving DecidableEq

def Horizon.after (time : Int) : Horizon → Moment
  | .ms wait => .ms (time + wait)
  | .member name => .text time name

/-- `moment <= now` -/
def Moment.reached (now : Int) : Moment → Bool
  | .ms time => time ≤ now
  | .text _ _ => false

theorem Moment.reached_later {moment : Moment} {now later : Int} (h : moment.reached now = true)
    (hlater : now ≤ later) : moment.reached later = true := by
  cases moment with
  | ms time => exact decide_eq_true ((of_decide_eq_true h).trans hlater)
  | text time member => exact h

/-- How long the credits of a funding source wait; an unknown source waits the default. The horizons are
indexed as a plain object, so the name of an inherited member finds that member. -/
def maturityHorizonMs (source : String) (config : Config) : Horizon :=
  let horizons := config.maturityHorizonMs
  match horizons.lookup source with
  | some exact_ => .ms exact_
  | none =>
    if source ∈ OBJECT_MEMBERS then .member source
    else .ms (((horizons.lookup DEFAULT_SOURCE).or (horizons.lookup "card")).getD 0)

end EconomyLab
