import NimbleNet.EarlyReturn
import NimbleNet.EqualBlocks
import NimbleNet.GroupedStream
import NimbleNet.HeldItems
import NimbleNet.LogSuffix
import NimbleNet.MachineNumbers
import NimbleNet.OrderedMap
import NimbleNet.PartialMaps
import NimbleNet.RecognisedTexts
import NimbleNet.RingBuffer
import NimbleNet.SeparatedLists
import NimbleNet.StepRuns
import NimbleNet.WrappedSums
import NimbleNet.AddEventOutcomes
import NimbleNet.AddedEvents
import NimbleNet.AggregateColumn
import NimbleNet.AverageSums
import NimbleNet.Base64
import NimbleNet.BlockContents
import NimbleNet.CloudSettings
import NimbleNet.ColumnCounts
import NimbleNet.ColumnRuns
import NimbleNet.ColumnTracking
import NimbleNet.CommutingSteps
import NimbleNet.ConcurrentInference
import NimbleNet.FailedBackfill
import NimbleNet.FailedLoad
import NimbleNet.FailedUpdate
import NimbleNet.FeatureFrames
import NimbleNet.FeatureLayout
import NimbleNet.FeatureLoads
import NimbleNet.FeatureLocks
import NimbleNet.FeatureStore
import NimbleNet.FeatureSync
import NimbleNet.FreshInputs
import NimbleNet.GroupKeys
import NimbleNet.HeapBlocks
import NimbleNet.HostNormalisation
import NimbleNet.InferenceBody
import NimbleNet.Initialization
import NimbleNet.InsertStatement
import NimbleNet.Json
import NimbleNet.JsonDump
import NimbleNet.LastInferences
import NimbleNet.LateRegistration
import NimbleNet.LogFraming
import NimbleNet.Logger
import NimbleNet.MemoryRuns
import NimbleNet.ModelInputRoutes
import NimbleNet.ModelInputVerdicts
import NimbleNet.ModelOwnership
import NimbleNet.ModelRetries
import NimbleNet.NetworkTransfers
import NimbleNet.NumericColumns
import NimbleNet.ONNXExecutor
import NimbleNet.ONNXExecutorStructs
import NimbleNet.ONNXModel
import NimbleNet.OutputMemory
import NimbleNet.PendingLogs
import NimbleNet.PlanParts
import NimbleNet.PreProcessor
import NimbleNet.PreProcessorTracking
import NimbleNet.RecursiveString
import NimbleNet.Registration
import NimbleNet.ReloadedEvents
import NimbleNet.ResourceManager
import NimbleNet.ResourceManagerStructs
import NimbleNet.RestartedPlans
import NimbleNet.RollingWindow
import NimbleNet.SavedInputs
import NimbleNet.SharedMutex
import NimbleNet.SqlLiterals
import NimbleNet.TableCreation
import NimbleNet.TableFilling
import NimbleNet.TableStore
import NimbleNet.TableStoreInvariant
import NimbleNet.TableStoreRuns
import NimbleNet.TensorLengths
import NimbleNet.TwoFileSaves
import NimbleNet.UncaughtExceptions
import NimbleNet.UploadPacing
import NimbleNet.UserEventsManager
import NimbleNet.UserEventsStruct
import NimbleNet.WindowTracking
