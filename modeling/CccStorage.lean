import CccStorage.Lib.Run
import CccStorage.Lib.VersionedCell
import CccStorage.Lib.Overlay
import CccStorage.Lib.Interleave
import CccStorage.Lib.Dict
import CccStorage.Manifest
import CccStorage.Levels
import CccStorage.LevelPlans
import CccStorage.Cold
import CccStorage.Commit
import CccStorage.ManifestOps
import CccStorage.ManifestRaces
import CccStorage.ColdRuns
import CccStorage.Mirrored
import CccStorage.ArchivalPass
import CccStorage.RecallFiles
import CccStorage.ArchiveCrashes
import CccStorage.CompactionRaces
import CccStorage.StackRuns
import CccStorage.Tree
import CccStorage.Delta
import CccStorage.CleanUpper
import CccStorage.Names
import CccStorage.ManagedParent
import CccStorage.ManagedMap
import CccStorage.NamespaceRaces
import CccStorage.LockFiles
import CccStorage.MountReaper
import CccStorage.MirrorEpochs
import CccStorage.DirtyStores
import CccStorage.AutoCommit
import CccStorage.EnvTxn
import CccStorage.Lib.Rounds
import CccStorage.Lib.Programs
import CccStorage.Lib.Chunks
import CccStorage.Dispatcher
import CccStorage.HiddenState
import CccStorage.Passes
import CccStorage.MountedStacks
import CccStorage.ChildAccess
import CccStorage.ChildFallback
import CccStorage.Lib.Layers
import CccStorage.ConfigValues
import CccStorage.MountdConfig
import CccStorage.ConfigLayers
import CccStorage.EnvReaders
import CccStorage.ConfigPrecedence
import CccStorage.Lib.Joined
import CccStorage.Lib.Escaped
import CccStorage.Lib.Longest
import CccStorage.PathTexts
import CccStorage.HpcClosure
import CccStorage.OwnerPaths
import CccStorage.BoundaryRegistry
import CccStorage.Lib.Topmost
import CccStorage.ObservedTree
import CccStorage.PackPartition
import CccStorage.BoundaryStubs
import CccStorage.ChildPaths
import CccStorage.RootIds
import CccStorage.ObservedMkdir
import CccStorage.ObservedMoves
import CccStorage.StateRoots
import CccStorage.RegistryReloads
import CccStorage.SelectorRaces
import CccStorage.OneGeneration
import CccStorage.MirrorCommits
import CccStorage.RenamedFields
import CccStorage.UpperCopy
import CccStorage.ChildMounts
import CccStorage.LazyMounts
import CccStorage.MountTree
import CccStorage.PolicySwitch
import CccStorage.LayerMounts
import CccStorage.MountLeaks
import CccStorage.OverlayTexts
import CccStorage.TreeOwners
import CccStorage.SharedCommit
import CccStorage.SerialCommits
import CccStorage.LiveMounts
import CccStorage.CommitFaults
import CccStorage.CommitFailures
import CccStorage.Unmount
import CccStorage.WriterLocks
import CccStorage.WriterRecords
import CccStorage.Lib.Steps
import CccStorage.Fs
import CccStorage.Merge
import CccStorage.MergeConfined
import CccStorage.Region
import CccStorage.MergeRounds
import CccStorage.MergedLayer
import CccStorage.MergeView
import CccStorage.Resolve
import CccStorage.Tarfile
import CccStorage.Bundle
import CccStorage.BundleConfined
import CccStorage.BundleMembers
import CccStorage.ObservationRouter
import CccStorage.BundleExtract
import CccStorage.BundleDelivers
import CccStorage.LevelRules
import CccStorage.CompactionSplice
import CccStorage.SingleLayer
import CccStorage.InodeRuns
import CccStorage.DirectoryListings
import CccStorage.Lib.JsonLexemes
import CccStorage.Lib.JsonText
import CccStorage.ControlLines
import CccStorage.ControlCalls
import CccStorage.MergeGroups
import CccStorage.Lib.Timer
import CccStorage.ServeLoop
import CccStorage.Lib.TomlText
import CccStorage.Lib.TomlTables
import CccStorage.ManifestText
import CccStorage.ManifestLoads
import CccStorage.NestedRoots
