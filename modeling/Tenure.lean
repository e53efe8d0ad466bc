import Tenure.Balance.Desk
import Tenure.Balance.Endpoint.Wire
import Tenure.Balance.Frequency
import Tenure.Balance.LoadBalancer
import Tenure.Balance.SplitMix
import Tenure.Holder.Schedule
import Tenure.Lifecycle.Scenario
import Tenure.Main
import Tenure.Proofs.Lifecycle.Misses
import Tenure.Proofs.Lifecycle.Stopping
import Tenure.Proofs.Lifecycle.Destruction
import Tenure.Proofs.Lifecycle.Cancelling
import Tenure.Proofs.Lifecycle.Scope
import Tenure.Proofs.Lifecycle.Counters
import Tenure.Proofs.Lifecycle.Beginning
import Tenure.Proofs.Balance.Upkeep
import Tenure.Proofs.Balance.Rotation
import Tenure.Proofs.Balance.Uniform
import Tenure.Proofs.Balance.Latency
import Tenure.Proofs.Lifecycle.Accounts
import Tenure.Proofs.Holder.Leaving
import Tenure.Proofs.Session.KeyPath
import Tenure.Proofs.Url.Targets
import Tenure.Proofs.Session.ReadBack
import Tenure.Proofs.Balance.Lending
import Tenure.Proofs.Duration.WholeNumbers
import Tenure.Proofs.Duration.Limbs
import Tenure.Proofs.Session.Resolution
import Tenure.Proofs.Url.Forms
import Tenure.Proofs.Balance.Unmeasured
import Tenure.Proofs.Balance.EndpointForm
