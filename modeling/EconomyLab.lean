import EconomyLab.Stores.Isolation
import EconomyLab.Stores.Entries
import EconomyLab.Worker.Archived
import EconomyLab.Netting.Tampering
import EconomyLab.Netting.Recovery
import EconomyLab.Economy.Sales
import EconomyLab.Ledger.FullScan
import EconomyLab.Worker.Starved
import EconomyLab.Worker.Surplus
import EconomyLab.Worker.Reconciling
import EconomyLab.Engines.Strategies
import EconomyLab.Chain.Roots
import EconomyLab.Worker.DrainIds
import EconomyLab.Economy.Wire
import EconomyLab.Engines.Heads
import EconomyLab.Stores.Cached
import EconomyLab.Worker.Reclaims
import EconomyLab.Economy.Coalescer
import EconomyLab.Worker.ProcessorMatch
import EconomyLab.Worker.Relay
import EconomyLab.Worker.Reproof
import EconomyLab.Ops.Guardrails
import EconomyLab.Chain.Rederived
import EconomyLab.Cluster.Router
import EconomyLab.Worker.PayoutSweep
import EconomyLab.Worker.Billing
import EconomyLab.Cluster.Epochs
import EconomyLab.Worker.Catchup
