import ObjectModel.Proofs.Depth
import ObjectModel.Proofs.Renaming.LoopCollection
import ObjectModel.Proofs.Lists.Refinement
import ObjectModel.Proofs.Faults.Surfacing
import ObjectModel.Proofs.Faults.Unfailing
import ObjectModel.Proofs.Generators.Sharing
import ObjectModel.Proofs.Pinning
import ObjectModel.Proofs.Integers.Division
import ObjectModel.Proofs.Ranges.Range
import ObjectModel.Proofs.Data.Equality
import ObjectModel.Proofs.Mutation
import ObjectModel.Proofs.Negation
import ObjectModel.Proofs.Raising.Message
import ObjectModel.Proofs.Mappings.Construction
import ObjectModel.Proofs.Text.Search
import ObjectModel.Proofs.Text.Numeral
import ObjectModel.Proofs.Comparison
import ObjectModel.Proofs.Quantifiers
import ObjectModel.Proofs.Views
