import Loadout.Main
import Loadout.Proofs.Engine.Accounts
import Loadout.Proofs.Engine.Removals
import Loadout.Proofs.Json.RoundTrip
import Loadout.Proofs.Resolver.Declarations
import Loadout.Proofs.Resolver.Faults
import Loadout.Proofs.Resolver.Pools
import Loadout.Proofs.Search.NormalForms
import Loadout.Proofs.Engine.Guards
import Loadout.Proofs.Engine.Quotas
import Loadout.Proofs.Version.Order
import Loadout.Proofs.Resolver.Ledger
import Loadout.Proofs.Version.Equality
import Loadout.Proofs.Resolver.Shuffles
import Loadout.Proofs.Resolver.Independence
import Loadout.Proofs.Version.Grammar
import Loadout.Proofs.Constraint.Reaches
import Loadout.Proofs.Engine.Walks
import Loadout.Proofs.Engine.Sightings
import Loadout.Proofs.Constraint.Rereading
import Loadout.Proofs.Search.Fixpoints
import Loadout.Proofs.Engine.Poisoning
import Loadout.Proofs.Engine.Limits
import Loadout.Proofs.Request.Mentions
import Loadout.Proofs.Engine.Aliases
import Loadout.Proofs.Search.Backjumps
import Loadout.Proofs.Search.Reversals
