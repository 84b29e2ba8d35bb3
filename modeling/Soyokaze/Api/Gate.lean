import Mathlib.Algebra.Order.Group.Defs
import Mathlib.Data.List.MinMax
import Mathlib.Order.WithBot
import Soyokaze.Lib.HashMap

/-!
# The gate

Whether a connection may proceed is decided the moment it is accepted: by how many there
are, by how many its address has, and by how often its address has connected of late. A
connection that may proceed holds a slot until its permit is dropped.

The total is an atomic, and the rest is behind a lock: what is done while the lock is held
is done in one go, and so are a load, an exchange and a subtraction of the atomic. Times
and periods are exact numbers.
-/

namespace Soyokaze

universe u

/-- Admission control for incoming connections. -/
structure Gate (Ip T : Type u) where
  /-- Zero is unbounded. -/
  maxConnections : UInt32
  /-- Zero is unbounded. -/
  maxConnectionsPerIp : UInt32
  /-- The limits there are, each a period and how often an address may connect within it. -/
  maxConnectionRate : List (T × UInt32)
  /-- How many addresses are remembered. -/
  maxConnectionHistory : ℕ
  connections : UInt32
  perIp : Ip → Option UInt32
  history : HashMap Ip (List T)

namespace Gate

variable {Ip T : Type u} [DecidableEq Ip] [AddCommGroup T] [LinearOrder T]

/-- A gate with these limits. -/
def new (maxConnections maxConnectionsPerIp : UInt32) (maxConnectionRate : List (T × UInt32)) (maxConnectionHistory : ℕ) :
    Gate Ip T where
  maxConnections := maxConnections
  maxConnectionsPerIp := maxConnectionsPerIp
  maxConnectionRate := maxConnectionRate
  maxConnectionHistory := maxConnectionHistory
  connections := 0
  perIp := fun _ => none
  history := ∅

/-- The longest period there is a limit for, and so how far back history is kept. -/
def window (g : Gate Ip T) : T := (g.maxConnectionRate.map (·.1)).foldl max 0

/-- How long it has been, which is never less than nothing. -/
def durationSince (now earlier : T) : T := max (now - earlier) 0

/-! ## Rates -/

/-- Drops from the front what is older than the window. -/
def prune (window now : T) (record : List T) : List T := record.dropWhile fun at' => window < durationSince now at'

/-- How often an address has connected of late, as the counter holds it. -/
def recent (now period : T) (record : List T) : UInt32 :=
  .ofNat (record.countP fun at' => durationSince now at' ≤ period)

/-- Whether an address is within every limit. The attempt is recorded when it is. -/
def rate (g : Gate Ip T) (ip : Ip) (now : T) : Bool × Gate Ip T :=
  let record := prune g.window now ((g.history.lookup ip).getD [])
  if g.maxConnectionRate.any fun (period, count) => count ≤ recent now period record then
    (false, { g with history := g.history.insert ip record })
  else (true, { g with history := g.history.insert ip (record ++ [now]) })

/-- The front of a record. One that has none comes before any other. -/
def front : List T → WithBot T
  | [] => ⊥
  | at' :: _ => at'

/-- The address that goes first: the first of those that connected longest ago. -/
def victim (history : HashMap Ip (List T)) (keep : Ip) : Option Ip :=
  ((history.entries.filter fun entry => entry.1 ≠ keep).argmin fun entry => front entry.2).map (·.1)

/-- Drops addresses until no more are remembered than may be. Each round drops one of those
    there are, which `fuel` is as many as. -/
def boundLoop (cap : ℕ) (keep : Ip) : ℕ → HashMap Ip (List T) → HashMap Ip (List T)
  | 0, history => history
  | fuel + 1, history =>
    if history.size ≤ cap then history
    else match victim history keep with
      | none => history
      | some victim => boundLoop cap keep fuel (history.erase victim)

/-- How many addresses may be remembered. -/
def cap (g : Gate Ip T) : ℕ := max g.maxConnectionHistory g.maxConnections.toNat

/-- Bounds how many addresses are remembered, never dropping `keep`. -/
def boundHistory (g : Gate Ip T) (keep : Ip) : Gate Ip T :=
  { g with history := boundLoop g.cap keep g.history.size g.history }

/-- Drops history that has aged out. -/
def sweep (g : Gate Ip T) (now : T) : Gate Ip T :=
  { g with history := g.history.filterMap fun _ record =>
      let record := prune g.window now record
      if record.isEmpty then none else some record }

/-! ## Counts -/

/-- Whether there are as many connections as may be. -/
def full (g : Gate Ip T) (current : UInt32) : Bool := g.maxConnections != 0 && g.maxConnections ≤ current

/-- Takes a slot. -/
def claim (g : Gate Ip T) : Gate Ip T := { g with connections := g.connections + 1 }

/-- Gives a slot back. -/
def giveBack (g : Gate Ip T) : Gate Ip T := { g with connections := g.connections - 1 }

/-- How many connections an address has. -/
def count (g : Gate Ip T) (ip : Ip) : UInt32 := (g.perIp ip).getD 0

/-- What is done under the lock with a connection whose address is known. -/
def enter (g : Gate Ip T) (ip : Ip) (now : T) : Bool × Gate Ip T :=
  if g.maxConnectionsPerIp != 0 && g.maxConnectionsPerIp ≤ g.count ip then (false, g)
  else match g.rate ip now with
    | (false, g) => (false, g)
    | (true, g) =>
      let g := g.boundHistory ip
      (true, { g with perIp := Function.update g.perIp ip (some (g.count ip + 1)) })

/-- Admits a connection or refuses it, with nothing done in between. -/
def admission (g : Gate Ip T) (ip : Option Ip) (now : T) : Bool × Gate Ip T :=
  if g.full g.connections then (false, g)
  else match ip with
    | none => (true, g.claim)
    | some ip => match g.claim.enter ip now with
      | (false, g) => (false, g.giveBack)
      | (true, g) => (true, g)

/-- What is done under the lock as an address gives up a connection. -/
def leave (g : Gate Ip T) (ip : Ip) : Gate Ip T :=
  match g.perIp ip with
  | none => g
  | some count =>
    let count := if count = 0 then 0 else count - 1
    { g with perIp := Function.update g.perIp ip (if count = 0 then none else some count) }

/-- Gives a connection's slot back, with nothing done in between. -/
def release (g : Gate Ip T) : Option Ip → Gate Ip T
  | none => g.giveBack
  | some ip => g.giveBack.leave ip

end Gate

end Soyokaze
