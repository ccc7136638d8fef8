import Morphotactics.Alphabet
import Morphotactics.Banner
import Morphotactics.Builder
import Morphotactics.Chain
import Morphotactics.ClassMap
import Morphotactics.CommandLine.Arguments
import Morphotactics.CommandLine.Build
import Morphotactics.CommandLine.Outcome
import Morphotactics.CommandLine.Tags
import Morphotactics.Compilation
import Morphotactics.Config
import Morphotactics.Config.Reader
import Morphotactics.Csv
import Morphotactics.Dictionary
import Morphotactics.Disk
import Morphotactics.Entry
import Morphotactics.Escape
import Morphotactics.Flag
import Morphotactics.Inflection
import Morphotactics.Inventory
import Morphotactics.Inventory.Collection
import Morphotactics.Json.Printer
import Morphotactics.Json.Reader
import Morphotactics.Json.Token
import Morphotactics.LexcSource
import Morphotactics.Main
import Morphotactics.Network
import Morphotactics.Notice
import Morphotactics.Path
import Morphotactics.Segmentation
import Morphotactics.SortedMap
import Morphotactics.SortedSet
import Morphotactics.Sublexicon
import Morphotactics.Table
import Morphotactics.Tag
import Morphotactics.Text.Blank
import Morphotactics.Text.CaseTable
import Morphotactics.Text.HiddenTable
import Morphotactics.Text.Pieces
import Morphotactics.Text.Quoted
import Morphotactics.Text.Upper
import Morphotactics.Proofs.Ascending
import Morphotactics.Proofs.OrderAndMap
import Morphotactics.Proofs.Building
import Morphotactics.Proofs.Insertion
import Morphotactics.Proofs.Forms
import Morphotactics.Proofs.Sharding
import Morphotactics.Proofs.Runs
import Morphotactics.Proofs.RegularLanguage
import Morphotactics.Proofs.UpperCase
import Morphotactics.Proofs.Escaped
import Morphotactics.Proofs.LineReading
import Morphotactics.Proofs.SourceLines
import Morphotactics.Proofs.WrittenNames
import Morphotactics.Proofs.FlagSymbols
import Morphotactics.Proofs.DeclaredFlags
import Morphotactics.Proofs.DictionaryStems
import Morphotactics.Proofs.Compiling
import Morphotactics.Proofs.Declarations
import Morphotactics.Proofs.NetworkShape
import Morphotactics.Proofs.Alternatives
import Morphotactics.Proofs.Growth
import Morphotactics.Proofs.PrefixIdentity
import Morphotactics.Proofs.DeclarationLine
import Morphotactics.Proofs.Merging
import Morphotactics.Proofs.SideBySide
import Morphotactics.Proofs.Independence
import Morphotactics.Proofs.Sessions
import Morphotactics.Proofs.DiskWriting
import Morphotactics.Proofs.WrittenFiles
import Morphotactics.Proofs.ColumnNames
import Morphotactics.Proofs.CleanTables
import Morphotactics.Proofs.RowsByName
import Morphotactics.Proofs.Skipping
import Morphotactics.Proofs.AddedWords
import Morphotactics.Proofs.CountedWords
import Morphotactics.Proofs.TableWords
import Morphotactics.Proofs.RejectedTables
import Morphotactics.Proofs.BoundaryScan
import Morphotactics.Proofs.SplitForms
import Morphotactics.Proofs.RepairedForms
import Morphotactics.Proofs.DenotedText
import Morphotactics.Proofs.MorphemeSides
import Morphotactics.Proofs.FlagRefusals
import Morphotactics.Proofs.ClauseOrders
import Morphotactics.Proofs.EntryOrder
import Morphotactics.Proofs.InventoriedTags
import Morphotactics.Proofs.ExportedTags
