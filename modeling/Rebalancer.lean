import Rebalancer.Main
import Rebalancer.Http.Script
import Rebalancer.Machine.Files
import Rebalancer.Node.Script
import Rebalancer.Report.Graph
import Rebalancer.Report.Node
import Rebalancer.Report.Operator
import Rebalancer.Proofs.Graph.OwnHalves
import Rebalancer.Proofs.Graph.Nodes
import Rebalancer.Proofs.Runs
import Rebalancer.Proofs.Graph.Paths
import Rebalancer.Proofs.Graph.Rings
import Rebalancer.Proofs.Execution.Runs
import Rebalancer.Proofs.Graph.Candidates
import Rebalancer.Proofs.Execution.Lookup
import Rebalancer.Proofs.Execution.Effects
import Rebalancer.Proofs.Execution.Payments
import Rebalancer.Proofs.Tables
import Rebalancer.Proofs.Graph.Transfers
import Rebalancer.Proofs.Store.Costs
import Rebalancer.Proofs.Execution.Conservation
import Rebalancer.Proofs.Execution.Submissions
import Rebalancer.Proofs.Rest
import Rebalancer.Proofs.Execution.Resubmission
import Rebalancer.Proofs.Graph.Restart
import Rebalancer.Proofs.Graph.Listing
import Rebalancer.Proofs.Execution.Bounds
import Rebalancer.Proofs.Execution.Attempts
import Rebalancer.Proofs.Execution.Totals
import Rebalancer.Proofs.Execution.Endings
import Rebalancer.Proofs.Execution.Ledger
import Rebalancer.Proofs.Engine
import Rebalancer.Proofs.Execution.Trials
import Rebalancer.Proofs.Graph.Courses
import Rebalancer.Proofs.Execution.Retries
import Rebalancer.Proofs.Execution.Refusals
import Rebalancer.Proofs.Rejections
import Rebalancer.Proofs.History
import Rebalancer.Proofs.Graph.Labels
import Rebalancer.Proofs.Graph.Relisting
import Rebalancer.Proofs.Graph.Idempotence
import Rebalancer.Proofs.Graph.Connectivity
import Rebalancer.Proofs.Graph.Policies
import Rebalancer.Proofs.Graph.Capacities
import Rebalancer.Proofs.Graph.Greedy
import Rebalancer.Proofs.Graph.Cheapest
import Rebalancer.Proofs.Atomicity
import Rebalancer.Proofs.Graph.LateRefusals
import Rebalancer.Proofs.Graph.Ranking
import Rebalancer.Proofs.Graph.Floors
import Rebalancer.Proofs.Ledger.Index
import Rebalancer.Proofs.Reconciliation
import Rebalancer.Proofs.Store.Receipts
import Rebalancer.Proofs.Store.Saving
import Rebalancer.Proofs.Store.Document
import Rebalancer.Proofs.Graph.Convergence
import Rebalancer.Proofs.Graph.Closures
import Rebalancer.Proofs.Execution.Ceilings
import Rebalancer.Proofs.Graph.Counterparty
import Rebalancer.Proofs.Route.Amounts
import Rebalancer.Proofs.Defaults
import Rebalancer.Proofs.Execution.Invoices
