import Minicomps.Theorems.BrokerRefinement
import Minicomps.Theorems.MonoRef
import Minicomps.Theorems.InterfaceRef
import Minicomps.Theorems.PolyRef
import Minicomps.Theorems.Executor
import Minicomps.Theorems.Event
import Minicomps.Theorems.InterfaceCalls
import Minicomps.Theorems.Threads
import Minicomps.Theorems.LockedCalls
import Minicomps.Theorems.Contexts
import Minicomps.Theorems.Exchange
import Minicomps.Theorems.Answers
import Minicomps.Theorems.Publications
import Minicomps.Theorems.Subscribing
import Minicomps.Theorems.Overrides
import Minicomps.Theorems.BrokerThreads
import Minicomps.Theorems.Ownership
import Minicomps.Theorems.Cancellation
import Minicomps.Theorems.CallFlags
import Minicomps.Theorems.FixedAny
import Minicomps.FilteredQuery
import Minicomps.Theorems.FilteredQuery
import Minicomps.FilterInstallation
import Minicomps.Theorems.FilterInstallation
import Minicomps.NestedSends
import Minicomps.Theorems.NestedSends
import Minicomps.FilterChains
import Minicomps.Theorems.FilterChains
import Minicomps.Dependencies
import Minicomps.Theorems.Dependencies
import Minicomps.QueryTraces
import Minicomps.Theorems.QueryTraces
import Minicomps.QueuedHandlers
import Minicomps.Theorems.QueuedHandlers
import Minicomps.AnyCells
import Minicomps.Theorems.AnyCells
import Minicomps.Lib.Progress
import Minicomps.NestedExecution
import Minicomps.Theorems.NestedExecution
import Minicomps.ExecutorFailures
import Minicomps.Theorems.ExecutorFailures
import Minicomps.ChainedCalls
import Minicomps.Theorems.ChainedCalls
import Minicomps.Lib.Brackets
import Minicomps.ListenedCalls
import Minicomps.Theorems.ListenedCalls
import Minicomps.ListenedQueues
import Minicomps.Theorems.ListenedQueues
import Minicomps.InterfaceChains
import Minicomps.Theorems.InterfaceChains
import Minicomps.Lib.WaitFor
import Minicomps.WaitingThreads
import Minicomps.Theorems.WaitingThreads
import Minicomps.Teardown
import Minicomps.Theorems.Teardown
import Minicomps.Lib.Causality
import Minicomps.Deliveries
import Minicomps.Theorems.Deliveries
import Minicomps.Theorems.HeldProxies
import Minicomps.PumpedExecutors
import Minicomps.Theorems.PublishChecks
import Minicomps.Theorems.PumpedExecutors
import Minicomps.CompositionRoot
import Minicomps.Theorems.CompositionRoot
import Minicomps.Theorems.ExecutorOwners
