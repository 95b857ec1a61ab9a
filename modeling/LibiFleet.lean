import LibiFleet.Standing
import LibiFleet.Refusals
import LibiFleet.Destinations
import LibiFleet.Laps
import LibiFleet.Waiting
import LibiFleet.Stalling
import LibiFleet.Attributes
import LibiFleet.Swapping
import LibiFleet.Preemption
import LibiFleet.Bidding
import LibiFleet.Saving
import LibiFleet.Ids
import LibiFleet.Boundary
import LibiFleet.Direction
import LibiFleet.Leaks
import LibiFleet.Ladder
import LibiFleet.Protocol
import LibiFleet.Jam
import LibiFleet.Closing
import LibiFleet.Obstacle
import LibiFleet.Lanes
import LibiFleet.Rerouting
import LibiFleet.Indices
import LibiFleet.Dispatch
import LibiFleet.Priorities
import LibiFleet.Params
import LibiFleet.Specification
import LibiFleet.Orders
import LibiFleet.Errands
import LibiFleet.Feed
import LibiFleet.Standstill
import LibiFleet.Rounds
import LibiFleet.Clearway
import LibiFleet.Wire
import LibiFleet.Gateway
import LibiFleet.Cards
