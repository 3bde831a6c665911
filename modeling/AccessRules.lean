import AccessRules.Main
import AccessRules.Draft
import AccessRules.Rules.Codec
import AccessRules.Proofs.Merging
import AccessRules.Proofs.Emission
import AccessRules.Proofs.Position
import AccessRules.Proofs.Unconditional
import AccessRules.Proofs.Locality
import AccessRules.Proofs.MethodSets
import AccessRules.Proofs.Acceptance
import AccessRules.Proofs.Decoding
import AccessRules.Proofs.SchemaSoundness
import AccessRules.Proofs.Reading
import AccessRules.Proofs.Conjunction
import AccessRules.Proofs.Rebinding
import AccessRules.Proofs.Nesting
import AccessRules.Proofs.Unambiguity
import AccessRules.Proofs.RoundTrip
import AccessRules.Proofs.CheckText
import AccessRules.Proofs.Enforcement
import AccessRules.Proofs.CheckReading
import AccessRules.Proofs.Documents
import AccessRules.Proofs.Recovery
import AccessRules.Proofs.Braces
import AccessRules.Proofs.BalancedTexts
import AccessRules.Proofs.BlockNesting
import AccessRules.Proofs.Expansion
import AccessRules.Proofs.Updates
import AccessRules.Proofs.ClaimChecks
import AccessRules.Proofs.Paths
import AccessRules.Proofs.Files
import AccessRules.Proofs.InputFile
import AccessRules.Proofs.ClaimAccess
import AccessRules.Proofs.FieldNames
import AccessRules.Proofs.Places
import AccessRules.Proofs.ViolationPlaces
import AccessRules.Proofs.TypePlaces
import AccessRules.Proofs.ReadDocuments
import AccessRules.Proofs.ErrorNesting
import AccessRules.Proofs.TextLines
import AccessRules.Proofs.Indentation
import AccessRules.Proofs.BlankSpace
import AccessRules.Proofs.FunctionTexts
import AccessRules.Proofs.CompiledRoundTrip
