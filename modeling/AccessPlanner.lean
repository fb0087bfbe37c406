import AccessPlanner.Main
import AccessPlanner.Proofs.Criteria.Groups
import AccessPlanner.Proofs.Json.Equality
import AccessPlanner.Proofs.Criteria.Demand
import AccessPlanner.Proofs.Criteria.Reachable
import AccessPlanner.Proofs.Criteria.Matching
import AccessPlanner.Proofs.Criteria.Ranking
import AccessPlanner.Proofs.Criteria.Rearrangement
import AccessPlanner.Proofs.Plan.Rules
import AccessPlanner.Proofs.Plan.Configuration
import AccessPlanner.Proofs.Plan.Conservation
import AccessPlanner.Proofs.Plan.Legality
import AccessPlanner.Proofs.Plan.Cases
import AccessPlanner.Proofs.Store.Execution
import AccessPlanner.Proofs.Store.Order
import AccessPlanner.Proofs.Store.Delivery
import AccessPlanner.Proofs.Store.Answers
import AccessPlanner.Proofs.Store.Counting
import AccessPlanner.Proofs.Plan.Rearrangement
import AccessPlanner.Proofs.Plan.Forecast
import AccessPlanner.Proofs.Store.Paging
import AccessPlanner.Proofs.Document.Building
import AccessPlanner.Proofs.Plan.Permission
import AccessPlanner.Proofs.Criteria.Acceptance
import AccessPlanner.Proofs.Plan.Declaration
import AccessPlanner.Proofs.Plan.KeyValues
import AccessPlanner.Proofs.Plan.Names
import AccessPlanner.Proofs.Document.ReadBack
import AccessPlanner.Proofs.Plan.Shorthand
import AccessPlanner.Proofs.Decimal.Numeral
import AccessPlanner.Proofs.Json.Grammar
import AccessPlanner.Proofs.Json.Unambiguity
import AccessPlanner.Proofs.Console.Runs
import AccessPlanner.Proofs.Text.Blank
import AccessPlanner.Proofs.Console.Arguments
import AccessPlanner.Proofs.Console.Input
import AccessPlanner.Proofs.Criteria.Components
import AccessPlanner.Proofs.Plan.Refusals
import AccessPlanner.Proofs.Console.Keywords
import AccessPlanner.Proofs.Criteria.Remainder
import AccessPlanner.Proofs.Plan.Selection
import AccessPlanner.Proofs.Criteria.Content
import AccessPlanner.Proofs.Json.Path
