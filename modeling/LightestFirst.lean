import LightestFirst.Network.Items
import LightestFirst.Grammar.Session
import LightestFirst.CommandLine.FileTree
import LightestFirst.Json.Parser
import LightestFirst.Main
import LightestFirst.Proofs.Products.Order
import LightestFirst.Proofs.Products.Coverage
import LightestFirst.Proofs.Derivations.Enumeration
import LightestFirst.Proofs.Derivations.TieOrder
import LightestFirst.Proofs.Derivations.Rewriting
import LightestFirst.Proofs.Derivations.Alphabet
import LightestFirst.Proofs.Merging.Order
import LightestFirst.Proofs.Products.Demand
import LightestFirst.Proofs.Sharing
import LightestFirst.Proofs.Networks.SelfReading
import LightestFirst.Proofs.Networks.Repeating
import LightestFirst.Proofs.Networks.Reentrance
import LightestFirst.Proofs.Flows.Unobserved
import LightestFirst.Proofs.Families.Thunks
import LightestFirst.Proofs.Flows.Veils
import LightestFirst.Proofs.Flows.Contract
import LightestFirst.Proofs.Flows.Refusals
import LightestFirst.Proofs.Taking.Bridges
import LightestFirst.Proofs.Taking.Draining
import LightestFirst.Proofs.Derivations.Printing
import LightestFirst.Proofs.Networks.Readers
