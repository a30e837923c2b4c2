import Parley.Broker.Redis
import Parley.Gateway
import Parley.Http.Description
import Parley.Store.Relational
import Parley.Proofs.Traffic.AtMostOnce
import Parley.Proofs.Traffic.Agreement
import Parley.Proofs.Admission.Participants
import Parley.Proofs.Store.Conversations
import Parley.Proofs.Store.Pairs
import Parley.Proofs.Presence.Overlap
import Parley.Proofs.Presence.Updates
import Parley.Proofs.Store.Equivalence
import Parley.Proofs.Delivery.Outbox
import Parley.Proofs.Delivery.Isolation
import Parley.Proofs.Delivery.Order
import Parley.Proofs.Delivery.Spoken
import Parley.Proofs.Broker.Subscriptions
import Parley.Proofs.Registry
import Parley.Proofs.Delivery.Retries
import Parley.Proofs.Requests.Posting
import Parley.Proofs.Requests.Preflight
import Parley.Proofs.Store.Saving
import Parley.Proofs.Delivery.Closing
import Parley.Proofs.Admission.Understood
import Parley.Proofs.Envelopes
import Parley.Proofs.Presence.Apart
import Parley.Proofs.Broker.Records
import Parley.Proofs.Naming
import Parley.Proofs.Subscription.Resubscribed
import Parley.Proofs.Delivery.Pauses
import Parley.Proofs.Store.Creating
import Parley.Proofs.Requests.Founding
import Parley.Proofs.Admission.Secret
import Parley.Proofs.Admission.Candidates
import Parley.Proofs.Store.Search
import Parley.Proofs.Admission.Tokens
import Parley.Proofs.Requests.History
import Parley.Proofs.Address
import Parley.Proofs.Sessions.Visit
