import JourneyPlanner.Main
import JourneyPlanner.Proofs.Chart
import JourneyPlanner.Proofs.Fallible
import JourneyPlanner.Proofs.Ways
import JourneyPlanner.Proofs.Tidiness
import JourneyPlanner.Proofs.Shown
import JourneyPlanner.Proofs.Simulation
import JourneyPlanner.Proofs.Traced
import JourneyPlanner.Proofs.ChartSound
import JourneyPlanner.Proofs.ShownRun
import JourneyPlanner.Proofs.Built
import JourneyPlanner.Proofs.Publication
import JourneyPlanner.Proofs.Searchable
import JourneyPlanner.Proofs.Boarding
import JourneyPlanner.Proofs.Riding
import JourneyPlanner.Proofs.Touring
import JourneyPlanner.Proofs.Legs
import JourneyPlanner.Proofs.Travelling
import JourneyPlanner.Proofs.Reaching
import JourneyPlanner.Proofs.Catching
import JourneyPlanner.Proofs.FollowUp
import JourneyPlanner.Proofs.Iterations
import JourneyPlanner.Proofs.Coverage
import JourneyPlanner.Proofs.EarliestArrival
import JourneyPlanner.Proofs.Widening
import JourneyPlanner.Proofs.FurtherWalks
import JourneyPlanner.Proofs.Fairness
import JourneyPlanner.Proofs.Aligned
import JourneyPlanner.Proofs.PrunedRun
import JourneyPlanner.Proofs.Pruning
import JourneyPlanner.Proofs.Charging
import JourneyPlanner.Proofs.Agreement
import JourneyPlanner.Proofs.Listing
import JourneyPlanner.Proofs.Undominated
import JourneyPlanner.Proofs.FewerRounds
import JourneyPlanner.Proofs.FewerTransfers
import JourneyPlanner.Proofs.SingleIterations
import JourneyPlanner.Proofs.Spanning
import JourneyPlanner.Proofs.Answering
import JourneyPlanner.Proofs.NextDay
import JourneyPlanner.Proofs.BanLists
import JourneyPlanner.Proofs.Banning
import JourneyPlanner.Proofs.StreetLegs
import JourneyPlanner.Proofs.Interruption
import JourneyPlanner.Proofs.FeedHistory
import JourneyPlanner.Proofs.LastWriter
import JourneyPlanner.Proofs.TimelyTrips
import JourneyPlanner.Proofs.RecordOrder
import JourneyPlanner.Proofs.Replay
import JourneyPlanner.Proofs.Admissible
import JourneyPlanner.Proofs.HeadStart
import JourneyPlanner.Proofs.Instants
import JourneyPlanner.Proofs.CivilDates
import JourneyPlanner.Proofs.ReadBack
import JourneyPlanner.Proofs.ServicePeriod
import JourneyPlanner.Proofs.WalkTables
import JourneyPlanner.Proofs.RepeatedStops
import JourneyPlanner.Proofs.Reproduction
import JourneyPlanner.Proofs.ClockTexts
import JourneyPlanner.Proofs.SequenceNumbers
import JourneyPlanner.Proofs.BestBoarding
import JourneyPlanner.Proofs.CalendarChanges
import JourneyPlanner.Proofs.Survivors
import JourneyPlanner.Proofs.TableHistory
import JourneyPlanner.Proofs.SoundTables
import JourneyPlanner.Proofs.SearchedWindow
