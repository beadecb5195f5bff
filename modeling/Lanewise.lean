import Lanewise.Container
import Lanewise.Assembly.Source
import Lanewise.Assembly.Listing
import Lanewise.Block.Arena
import Lanewise.Engine
import Lanewise.Rendezvous
import Lanewise.Proofs.Soundness
import Lanewise.Proofs.Configurations
import Lanewise.Proofs.Groups
import Lanewise.Proofs.Queries
import Lanewise.Proofs.Agreement
import Lanewise.Proofs.Widths
import Lanewise.Proofs.Copies
import Lanewise.Proofs.Schedules
import Lanewise.Proofs.Containers
import Lanewise.Proofs.Listings
import Lanewise.Proofs.WellFormed
import Lanewise.Proofs.Policies
import Lanewise.Proofs.Cycles
import Lanewise.Proofs.Walkers
import Lanewise.Proofs.Histories
import Lanewise.Proofs.Sizes
import Lanewise.Proofs.Addresses
import Lanewise.Proofs.Visits
import Lanewise.Proofs.InPlace
import Lanewise.Proofs.Joins
import Lanewise.Proofs.Faults
import Lanewise.Proofs.OutOfRange
import Lanewise.Proofs.TaskSizes
import Lanewise.Proofs.Arenas
import Lanewise.Proofs.StringWidths
import Lanewise.Proofs.Spacing
import Lanewise.Proofs.SlotsOfLines
import Lanewise.Proofs.Reassembly
import Lanewise.Proofs.FloatingConstants
import Lanewise.Proofs.Quoting
import Lanewise.Proofs.RegisterNames
import Lanewise.Proofs.Powers
import Lanewise.Proofs.PaddedOrder
import Lanewise.Proofs.FloorModulo
import Lanewise.Proofs.OperandLists
