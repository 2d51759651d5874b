import IndraDds.Foundation.Transition
import IndraDds.Foundation.Window
import IndraDds.Stress.Executive
import IndraDds.Stress.Pattern
import IndraDds.Vendor.Middleware
import IndraDds.Vendor.FastPub
import IndraDds.Vendor.FastSub
import IndraDds.Vendor.OpenSub
import IndraDds.Publisher.Test
import IndraDds.Publisher.Protocol
import IndraDds.Publisher.Refinement
import IndraDds.Publisher.Samples
import IndraDds.Publisher.Trace
import IndraDds.Publisher.Failures
import IndraDds.Foundation.Mailbox
import IndraDds.Subscriber.Test
import IndraDds.System.Composition
import IndraDds.Subscriber.Refinement
import IndraDds.System.Rounds
import IndraDds.System.Loss
import IndraDds.System.Isolation
import IndraDds.System.Lockstep
import IndraDds.Stress.Ending
import IndraDds.Vendor.Matching
import IndraDds.Publisher.Gate
import IndraDds.Foundation.Owners
import IndraDds.Domain.FastDomain
import IndraDds.Domain.FastSubscriber
import IndraDds.Subscriber.Bookkeeping
import IndraDds.Subscriber.Stops
import IndraDds.Subscriber.Drains
import IndraDds.Stress.Arguments
import IndraDds.Stress.Menu
import IndraDds.Foundation.Summary
import IndraDds.Stress.Statistics
import IndraDds.Foundation.Loans
import IndraDds.Vendor.LoanDrain
import IndraDds.Publisher.Loans
import IndraDds.Foundation.TakeLoop
import IndraDds.Vendor.OpenSubControl
import IndraDds.Publisher.Interface
import IndraDds.Vendor.Entities
import IndraDds.System.NullCalls
import IndraDds.Stress.PingPong
import IndraDds.System.Rally
import IndraDds.System.Settled
import IndraDds.System.Fleet
import IndraDds.System.Vendors
import IndraDds.Publisher.AnyPublisher
import IndraDds.Subscriber.AnySubscriber
import IndraDds.System.OpenVendor
import IndraDds.Foundation.Monitor
import IndraDds.Domain.GuardedQueue
import IndraDds.Domain.SubscriberThreads
import IndraDds.System.Main
import IndraDds.Foundation.Cdr
import IndraDds.Vendor.Serializer
import IndraDds.Vendor.TopicTypes
import IndraDds.System.Bytes
