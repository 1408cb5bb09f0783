import PitFleet.Main
import PitFleet.Proofs.Fleet.HaulCycle
import PitFleet.Proofs.Proximity.Cutoff
import PitFleet.Proofs.Proximity.Evaluation
import PitFleet.Proofs.Proximity.Radius
import PitFleet.Proofs.Fleet.Waypoints
import PitFleet.Proofs.Scalar.Signs
import PitFleet.Proofs.Fleet.Parked
import PitFleet.Proofs.Backend.Frames
import PitFleet.Proofs.Json.Numerals
import PitFleet.Proofs.Json.Quoting
import PitFleet.Proofs.Number.Shortest
import PitFleet.Proofs.Number.Decoding
import PitFleet.Proofs.Json.Doubles
import PitFleet.Proofs.Json.Rereading
import PitFleet.Proofs.Json.Scanning
import PitFleet.Proofs.Json.Fitting
import PitFleet.Proofs.Json.Lawful
import PitFleet.Proofs.Backend.BatchRoundTrip
import PitFleet.Proofs.Proximity.Exchange
import PitFleet.Proofs.Fleet.Independence
import PitFleet.Proofs.Fleet.Validation
import PitFleet.Proofs.Simulation.Ticks
import PitFleet.Proofs.Report.Lines
import PitFleet.Proofs.Simulation.Calls
import PitFleet.Proofs.Fleet.Loads
import PitFleet.Proofs.Fleet.BuiltIn
import PitFleet.Proofs.Scalar.Exact
import PitFleet.Proofs.Vehicle.Operations
import PitFleet.Proofs.Vehicle.Figures
import PitFleet.Proofs.Vehicle.Envelope
import PitFleet.Scenario.Pit
import PitFleet.Proofs.Number.Remainder
import PitFleet.Proofs.Fleet.Headings
import PitFleet.Proofs.Fleet.Faultless
import PitFleet.Proofs.Json.Finite
import PitFleet.Proofs.Files.Outcome
import PitFleet.Proofs.Files.Tree
import PitFleet.Proofs.Config.Storage
import PitFleet.Proofs.CommandLine.Configuring
import PitFleet.Proofs.Proximity.Snapshots
import PitFleet.Proofs.Backend.Delivery
import PitFleet.Proofs.Proximity.Verdict
import PitFleet.Proofs.Fleet.Timers
import PitFleet.Proofs.Ground.Circle
import PitFleet.Proofs.Ground.Polar
import PitFleet.Proofs.Vehicle.Prediction
import PitFleet.Proofs.Vehicle.SpeedControl
import PitFleet.Proofs.Fleet.Remains
import PitFleet.Proofs.Json.Filling
import PitFleet.Proofs.Json.Reading
import PitFleet.Proofs.Json.Standing
import PitFleet.Proofs.Backend.BatchDecoding
import PitFleet.Proofs.Toml.Documents
import PitFleet.Proofs.Scenario.Storage
