import LinkAtlas.Files.Tree
import LinkAtlas.Main
import LinkAtlas.Settings
import LinkAtlas.Projection.Json
import LinkAtlas.Projection.Rendering
import LinkAtlas.Query.Json
import LinkAtlas.Record.Json
import LinkAtlas.Shared
import LinkAtlas.Text.Order
import LinkAtlas.Proofs.Groups
import LinkAtlas.Proofs.Arena
import LinkAtlas.Proofs.Sound
import LinkAtlas.Proofs.Edits
import LinkAtlas.Proofs.Preservation
import LinkAtlas.Proofs.Runs
import LinkAtlas.Proofs.LinkIntegrity
import LinkAtlas.Proofs.Registry
import LinkAtlas.Proofs.Renaming
import LinkAtlas.Proofs.Abstraction
import LinkAtlas.Proofs.Refinement
import LinkAtlas.Proofs.Pruning
import LinkAtlas.Proofs.Quoting
import LinkAtlas.Proofs.Routes
import LinkAtlas.Proofs.SettingsText
import LinkAtlas.Proofs.FileWrites
import LinkAtlas.Proofs.SettingsRuns
import LinkAtlas.Proofs.Walks
import LinkAtlas.Proofs.LabelIndex
import LinkAtlas.Proofs.Turnover
import LinkAtlas.Proofs.Handles
import LinkAtlas.Proofs.Occupancy
import LinkAtlas.Proofs.Chronicle
import LinkAtlas.Proofs.Recount
import LinkAtlas.Proofs.History
import LinkAtlas.Proofs.PathGrammar
import LinkAtlas.Proofs.InPlace
import LinkAtlas.Proofs.Answers
import LinkAtlas.Proofs.Loading
import LinkAtlas.Proofs.Provenance
import LinkAtlas.Proofs.Remainder
import LinkAtlas.Proofs.Reversal
import LinkAtlas.Proofs.Sharing
import LinkAtlas.Proofs.Branches
import LinkAtlas.Proofs.Growth
import LinkAtlas.Proofs.LinkSpec
import LinkAtlas.Proofs.Cuts
import LinkAtlas.Proofs.EditedQueries
import LinkAtlas.Proofs.JsonTokens
import LinkAtlas.Proofs.JsonText
import LinkAtlas.Proofs.PathText
import LinkAtlas.Proofs.Revaluation
import LinkAtlas.Proofs.RecordText
import LinkAtlas.Proofs.Tally
import LinkAtlas.Proofs.Piecemeal
import LinkAtlas.Proofs.Undoing
import LinkAtlas.Proofs.JsonMarks
import LinkAtlas.Proofs.JsonPieces
import LinkAtlas.Proofs.Spellings
import LinkAtlas.Proofs.Agreement
import LinkAtlas.Proofs.Depths
import LinkAtlas.Proofs.Brackets
import LinkAtlas.Proofs.Decimals
import LinkAtlas.Proofs.NumberText
import LinkAtlas.Proofs.ForestText
import LinkAtlas.Proofs.Matrices
import LinkAtlas.Proofs.Indentation
import LinkAtlas.Proofs.ByteOrder
import LinkAtlas.Proofs.LoadSummary
