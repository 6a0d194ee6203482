import Cs564.Lib.Arrays
import Cs564.Lib.Chain
import Cs564.Lib.Checked
import Cs564.Lib.Cycle
import Cs564.Lib.Run
import Cs564.Lib.Runs
import Cs564.Lib.Sorted
import Cs564.Lib.Tiling
import Cs564.Lib.CheckedArrays
import Cs564.Lib.Outcomes
import Cs564.Lib.Regex
import Cs564.Lib.DoWhile
import Cs564.Lib.FirstKnown
import Cs564.Lib.Separated
import Cs564.Lib.Logging
import Cs564.Lib.Reading
import Cs564.Lib.Erasing
import Cs564.Lib.Positional
import Cs564.Types
import Cs564.SlottedPage.Page
import Cs564.SlottedPage.Slots
import Cs564.SlottedPage.Records
import Cs564.SlottedPage.Compaction
import Cs564.SlottedPage.Iterator
import Cs564.SlottedPage.Delete
import Cs564.SlottedPage.Contents
import Cs564.SlottedPage.Acceptance
import Cs564.SlottedPage.Accounting
import Cs564.PageFile.File
import Cs564.PageFile.Lists
import Cs564.PageFile.Allocate
import Cs564.PageFile.Delete
import Cs564.PageFile.Partition
import Cs564.PageFile.Sound
import Cs564.PageFile.Copies
import Cs564.PageFile.InOrder
import Cs564.PageFile.Reach
import Cs564.PageFile.Absent
import Cs564.OpenFiles.Table
import Cs564.OpenFiles.Counts
import Cs564.OpenFiles.Create
import Cs564.P2Buffer.HashTable
import Cs564.P2Buffer.Buckets
import Cs564.P2Buffer.Manager
import Cs564.P2Buffer.Agreement
import Cs564.P2Buffer.Operations
import Cs564.P2Buffer.Runs
import Cs564.P2Buffer.Pins
import Cs564.P2Buffer.PageFiles
import Cs564.P2Buffer.Updates
import Cs564.P2Buffer.Clock
import Cs564.P2Buffer.Flush
import Cs564.P3Buffer.Manager
import Cs564.P3Buffer.BlobFile
import Cs564.P3Buffer.Operations
import Cs564.P3Buffer.SharedFiles
import Cs564.P3Buffer.Clock
import Cs564.P3Buffer.PageFiles
import Cs564.P3Buffer.FileScan
import Cs564.P3Buffer.Replacement
import Cs564.P3Buffer.Scanning
import Cs564.BTree.Nodes
import Cs564.BTree.Index
import Cs564.BTree.NodeLemmas
import Cs564.BTree.Run
import Cs564.BTree.Tree
import Cs564.BTree.Insert
import Cs564.BTree.Contents
import Cs564.BTree.ArrayBounds
import Cs564.BTree.Shape
import Cs564.BTree.Scan
import Cs564.BTree.Sentinels
import Cs564.BTree.Descent
import Cs564.BTree.Pool
import Cs564.BTree.StartScan
import Cs564.BTree.Ledger
import Cs564.BTree.Paths
import Cs564.BTree.Ranges
import Cs564.BTree.PinRules
import Cs564.BTree.PoolSteps
import Cs564.BTree.RangeScan
import Cs564.BTree.PinCalls
import Cs564.BTree.Keeps
import Cs564.BTree.Mirror
import Cs564.BTree.PoolRuns
import Cs564.BTree.Beside
import Cs564.BTree.Destroy
import Cs564.BTree.InsertFails
import Cs564.BTree.LeafLinks
import Cs564.BTree.ScanNext
import Cs564.BTree.Lockstep
import Cs564.BTree.Together
import Cs564.BTree.Capacity
import Cs564.BTree.Sessions
import Cs564.BTree.FirstSplit
import Cs564.BTree.Reopen
import Cs564.BTree.SearchFrames
import Cs564.BTree.StaleLevel
import Cs564.WordLocator.Dictionary
import Cs564.WordLocator.Places
import Cs564.WordLocator.Session
import Cs564.WordLocator.Words
import Cs564.WordLocator.Insertion
import Cs564.WordLocator.Locate
import Cs564.WordLocator.Search
import Cs564.WordLocator.Compact
import Cs564.WordLocator.Split
import Cs564.WordLocator.Command
import Cs564.WordLocator.Grammar
import Cs564.WordLocator.MainLoop
import Cs564.WordLocator.Occurrence
import Cs564.Auction.Values
import Cs564.Auction.Tables
import Cs564.Auction.Parser
import Cs564.Auction.Keys
import Cs564.Auction.Users
import Cs564.Auction.Export
import Cs564.Auction.Import
import Cs564.Auction.DebugParser
import Cs564.Auction.MissingKeys
import Cs564.Auction.NullReport
import Cs564.Auction.Sales
import Cs564.Auction.Loader
import Cs564.Auction.Database
import Cs564.Auction.Queries
import Cs564.Auction.SameTables
import Cs564.Auction.Dates
import Cs564.WordLocator.Transcript
import Cs564.WordLocator.Answers
import Cs564.PageFile.Blank
import Cs564.P3Buffer.SameLayer
import Cs564.P3Buffer.NeatFiles
import Cs564.P3Buffer.Shutdown
import Cs564.P3Buffer.RecordStore
import Cs564.P3Buffer.OtherFiles
import Cs564.P3Buffer.ScanKeeps
import Cs564.P3Buffer.RecordScan
import Cs564.P3Buffer.OtherFiles
import Cs564.P3Buffer.ScanKeeps
import Cs564.P3Buffer.InterruptedScan
import Cs564.P3Buffer.PinnedPages
import Cs564.P3Buffer.RecordScan
import Cs564.BTree.Relation
import Cs564.Auction.MissingKeys
import Cs564.BTree.Beside
