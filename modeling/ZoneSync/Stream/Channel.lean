import ZoneSync.Stream.Basic

/-!
Streams over a connection to a peer. What the connection is going to do is a list of events:
chunks that arrive and failures for the inbound side, capacities and failures for the
outbound side. An interrupted call is made again; every other failure is reported once. A
connection with both sides is open or closed as a whole.
-/

namespace ZoneSync

/-- What a connection does at a read. -/
inductive Arrival where
  /-- Octets arrive; a read takes from one chunk only. An empty chunk is an end of file. -/
  | chunk (octets : Octets)
  | failure (kind : IoKind)
deriving DecidableEq, Repr

def Arrival.size : Arrival → Nat
  | chunk octets => octets.length
  | failure _ => 0

def Arrival.total : List Arrival → Nat
  | [] => 0
  | arrival :: later => arrival.size + total later

structure InboundChannel where
  arrivals : List Arrival
  isOpen : Bool := true

namespace InboundChannel

/-- Takes up to `n` octets of what arrives next. -/
def receive (n : Nat) : List Arrival → Except StreamError Octets × List Arrival
  | [] => (.error .endOfStream, [])
  | .chunk [] :: later => (.error .endOfStream, later)
  | .chunk octets :: later =>
    (.ok (octets.take n), if octets.length ≤ n then later else .chunk (octets.drop n) :: later)
  | .failure .interrupted :: later => receive n later
  | .failure kind :: later => (.error (.io (.plain kind)), later)

instance : ReadStream InboundChannel where
  read n c :=
    if !c.isOpen then .error .closed c
    else if n = 0 then .ok [] c
    else match receive n c.arrivals with
      | (.ok got, later) => .ok got { c with arrivals := later }
      | (.error e, later) => .error e { c with arrivals := later }
  available c := Arrival.total c.arrivals
  close c := if c.isOpen then .ok () { c with isOpen := false } else .error .closed c

end InboundChannel

/-- What a connection does at a write. -/
inductive Departure where
  | accept (limit : Nat)
  | failure (kind : IoKind)
deriving DecidableEq, Repr

structure OutboundChannel where
  /-- What the coming writes do; all later ones accept everything. -/
  departures : List Departure
  /-- The failure of every flush, if it fails. -/
  flushFailure : Option IoKind
  sent : Octets := []
  isOpen : Bool := true

namespace OutboundChannel

/-- Offers `size` octets and yields how many are accepted. -/
def offer (size : Nat) : List Departure → Except StreamError Nat × List Departure
  | [] => (.ok size, [])
  | .accept limit :: later => (.ok (min limit size), later)
  | .failure .interrupted :: later => offer size later
  | .failure kind :: later => (.error (.io (.plain kind)), later)

def flushed (c : OutboundChannel) : Except StreamError Unit :=
  match c.flushFailure with
  | none => .ok ()
  | some kind => .error (.io (.plain kind))

instance : WriteStream OutboundChannel where
  write o c :=
    if !c.isOpen then .error .closed c
    else match offer o.length c.departures with
      | (.ok n, later) => .ok n { c with departures := later, sent := c.sent ++ o.take n }
      | (.error e, later) => .error e { c with departures := later }
  flush c :=
    if !c.isOpen then .error .closed c
    else match c.flushed with
      | .ok () => .ok () c
      | .error e => .error e c
  close c :=
    if !c.isOpen then .error .closed c
    else match c.flushed with
      | .ok () => .ok () { c with isOpen := false }
      | .error e => .error e { c with isOpen := false }

end OutboundChannel

/-- A connection that is read from and written to. -/
structure Connection where
  arrivals : List Arrival
  departures : List Departure
  flushFailure : Option IoKind := none
  sent : Octets := []
  isOpen : Bool := true

namespace Connection

def inbound (c : Connection) : InboundChannel := { arrivals := c.arrivals, isOpen := c.isOpen }

def outbound (c : Connection) : OutboundChannel where
  departures := c.departures
  flushFailure := c.flushFailure
  sent := c.sent
  isOpen := c.isOpen

def afterInbound (c : Connection) (side : InboundChannel) : Connection :=
  { c with arrivals := side.arrivals, isOpen := side.isOpen }

def afterOutbound (c : Connection) (side : OutboundChannel) : Connection :=
  { c with departures := side.departures, sent := side.sent, isOpen := side.isOpen }

instance : ReadStream Connection where
  read n c := stepInside c.afterInbound (ReadStream.read n) c.inbound
  available c := ReadStream.available c.inbound
  close c := stepInside c.afterInbound ReadStream.close c.inbound

instance : WriteStream Connection where
  write o c := stepInside c.afterOutbound (WriteStream.write o) c.outbound
  flush c := stepInside c.afterOutbound WriteStream.flush c.outbound
  close c := stepInside c.afterOutbound WriteStream.close c.outbound

end Connection
end ZoneSync
